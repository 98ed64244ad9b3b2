import Gem5.FlexCPU.TraceCells
import Gem5.Lib.Runs

/-!
# The rows of the trace

A row is labelled with the cycle of the tick that the tracer keeps for it. As long as no tick
falls within the cycle of the row but after its tick, the labels do not decrease and every
package is in the row of its cycle.
-/

namespace Gem5.FlexCPU

open List BitVec

open Runs (Reaches)

/-- The tracer with the last tick at which a package came, and the packages it has accepted
with their ticks. -/
structure TraceRun where
  tracer : BguTracer
  now : Tick
  accepted : List (Tick × BguInfoPackage) := []

inductive TraceEvent where
  | receive (currTick : Tick) (pckg : BguInfoPackage)
  | shutDown

namespace TraceRun

def init (tick : Tick) : TraceRun := ⟨.start tick, tick, []⟩

def step (run : TraceRun) : TraceEvent → TraceRun
  | .receive currTick pckg =>
    let received := run.tracer.receiveBguInfoPackage currTick pckg
    { tracer := received.1
      now := currTick
      accepted :=
        if received.2 = .added then run.accepted ++ [(currTick, pckg)] else run.accepted }
  | .shutDown => { run with tracer := run.tracer.setTracerShutDown }

/-- Time does not go back. -/
def InOrder (run : TraceRun) : TraceEvent → Prop
  | .receive currTick _ => run.now ≤ currTick
  | .shutDown => True

/-- A tick less than a cycle after that of the row is in the next cycle, and the next tick of
the row does not overflow. -/
def EndsCycle (run : TraceRun) : TraceEvent → Prop
  | .receive currTick _ =>
    currTick ≠ run.tracer.lastTick → currTick - run.tracer.lastTick < cycleRoundVal →
      currTick.toNat / 1000 ≠ run.tracer.lastTick.toNat / 1000
        ∧ run.tracer.lastTick.toNat + 1000 < 2 ^ 64
  | .shutDown => True

end TraceRun

/-- The row that is being filled. -/
def BguTracer.filling (tracer : BguTracer) : TraceRow :=
  ⟨tracer.lastTick / cycleRoundVal, tracer.tidBufferStrings⟩

/-- The rows that were written, and the one that is being filled. -/
def BguTracer.table (tracer : BguTracer) : List TraceRow := tracer.rows ++ [tracer.filling]

/-- The cells of a row to which the packages were added. -/
def cellsOf (pckgs : List BguInfoPackage) (stage : TraceStage) : Text :=
  addAllToCell stage xVal (pckgs.filter fun pckg => decide (pckg.packetStatus = some stage))

/-- The labels do not decrease, and each accepted package was added to a row with the label of
the cycle in which it was received. -/
structure Labelled (tracer : BguTracer) (accepted : List (Tick × BguInfoPackage)) : Prop where
  sorted : (tracer.table.map (·.time)).Pairwise (· ≤ ·)
  written : ∀ tick pckg, (tick, pckg) ∈ accepted →
    ∃ row ∈ tracer.table, row.time = tick / cycleRoundVal
      ∧ ∃ pckgs, row.cells = cellsOf pckgs ∧ pckg ∈ pckgs

theorem cellsOf_snoc (pckgs : List BguInfoPackage) (pckg : BguInfoPackage) (stage : TraceStage) :
    cellsOf (pckgs ++ [pckg]) stage =
      if pckg.packetStatus = some stage then addToCell (cellsOf pckgs stage) stage pckg.data
      else cellsOf pckgs stage := by
  split
  · next own => simp [own, cellsOf, addAllToCell]
  · next other => simp [other, cellsOf, addAllToCell]

theorem cellsOf_append {first second : List BguInfoPackage} (same : cellsOf first = cellsOf second)
    (pckg : BguInfoPackage) : cellsOf (first ++ [pckg]) = cellsOf (second ++ [pckg]) := by
  funext stage
  rw [cellsOf_snoc, cellsOf_snoc, same]

namespace BguTracer

variable {tracer : BguTracer} {now currTick : Tick}

theorem advanceRow_cycle (behind : tracer.lastTick.toNat / 1000 ≤ now.toNat / 1000)
    (ordered : now ≤ currTick) (ends : currTick ≠ tracer.lastTick → currTick - tracer.lastTick <
    cycleRoundVal → currTick.toNat / 1000 ≠ tracer.lastTick.toNat / 1000 ∧ tracer.lastTick.toNat +
    1000 < 2 ^ 64) :
    (tracer.advanceRow currTick).lastTick.toNat / 1000 = currTick.toNat / 1000 := by
  by_cases same : currTick = tracer.lastTick
  · rw [advanceRow_same same, same]
  by_cases far : cycleRoundVal ≤ currTick - tracer.lastTick
  · rw [advanceRow_lastTick far]
  · have near := BitVec.not_le.mp far
    obtain ⟨other, room⟩ := ends same near
    rw [advanceRow_later same]
    rw [if_pos near]
    rw [cycleRoundVal, lt_def, toNat_sub] at near
    have thousand : (1000 : Tick).toNat = 1000 := rfl
    rw [cycleRoundVal, toNat_add, thousand]
    omega

theorem advanceRow_table (later : currTick ≠ tracer.lastTick) :
    (tracer.advanceRow currTick).table
      = tracer.table ++ [(tracer.advanceRow currTick).filling] := by
  rw [advanceRow_later later]
  rfl

theorem time_le {a b : Tick} (le : a.toNat / 1000 ≤ b.toNat / 1000) :
    a / cycleRoundVal ≤ b / cycleRoundVal := by
  exact le

theorem time_eq {a b : Tick} (same : a.toNat / 1000 = b.toNat / 1000) :
    a / cycleRoundVal = b / cycleRoundVal :=
  BitVec.le_antisymm (time_le same.le) (time_le same.ge)

theorem table_le (sorted : (tracer.table.map (·.time)).Pairwise (· ≤ ·)) {row : TraceRow}
    (mem : row ∈ tracer.table) : row.time ≤ tracer.filling.time := by
  rcases List.mem_append.mp mem with old | new
  · grind [table]
  · grind

end BguTracer

namespace Labelled

variable {tracer : BguTracer} {now currTick : Tick} {accepted : List (Tick × BguInfoPackage)}

theorem advanceRow (labelled : Labelled tracer accepted)
    (filled : ∃ pckgs, tracer.tidBufferStrings = cellsOf pckgs)
    (cycle : (tracer.advanceRow currTick).lastTick.toNat / 1000 = currTick.toNat / 1000)
    (reached : tracer.lastTick.toNat / 1000 ≤ currTick.toNat / 1000) :
    Labelled (tracer.advanceRow currTick) accepted
      ∧ ∃ pckgs, (tracer.advanceRow currTick).tidBufferStrings = cellsOf pckgs := by
  by_cases same : currTick = tracer.lastTick
  · grind [BguTracer.advanceRow_same]
  have table := BguTracer.advanceRow_table same
  refine ⟨⟨?_, fun tick pckg mem => ?_⟩, [], funext fun stage => BguTracer.advanceRow_cells same⟩
  · rw [table, map_append, pairwise_append]
    refine ⟨labelled.sorted, pairwise_singleton _ _, fun old oldMem new newMem => ?_⟩
    obtain ⟨row, mem, rfl⟩ := List.mem_map.mp oldMem
    rw [List.map_singleton, List.mem_singleton] at newMem
    rw [newMem]
    exact BitVec.le_trans (BguTracer.table_le labelled.sorted mem)
      (BguTracer.time_le (cycle ▸ reached))
  · obtain ⟨row, inTable, shown⟩ := labelled.written tick pckg mem
    refine ⟨row, ?_, shown⟩
    rw [table]
    exact mem_append_left _ inTable

theorem add {cells : TraceStage → Text} {pckgs : List BguInfoPackage} {pckg : BguInfoPackage}
    (labelled : Labelled tracer accepted) (filled : tracer.tidBufferStrings = cellsOf pckgs)
    (added : cells = cellsOf (pckgs ++ [pckg]))
    (cycle : tracer.lastTick.toNat / 1000 = currTick.toNat / 1000) :
    Labelled { tracer with tidBufferStrings := cells } (accepted ++ [(currTick, pckg)]) := by
  have times : ({ tracer with tidBufferStrings := cells } : BguTracer).table.map (·.time)
      = tracer.table.map (·.time) := by
    simp [BguTracer.table, BguTracer.filling]
  have last : (⟨tracer.lastTick / cycleRoundVal, cells⟩ : TraceRow)
      ∈ ({ tracer with tidBufferStrings := cells } : BguTracer).table :=
    mem_append_right _ (List.mem_singleton.mpr rfl)
  refine ⟨times ▸ labelled.sorted, fun tick other mem => ?_⟩
  rcases List.mem_append.mp mem with old | new
  · obtain ⟨row, inTable, label, others, shown, within⟩ := labelled.written tick other old
    rcases List.mem_append.mp inTable with ended | filling
    · exact ⟨row, mem_append_left _ ended, label, others, shown, within⟩
    · rw [List.mem_singleton.mp filling] at label shown
      have same : cellsOf pckgs = cellsOf others := filled.symm.trans shown
      exact ⟨_, last, label, others ++ [pckg], added.trans (cellsOf_append same pckg),
        mem_append_left _ within⟩
  · cases List.mem_singleton.mp new
    exact ⟨_, last, BguTracer.time_eq cycle, _, added, mem_append_right _ List.mem_cons_self⟩

end Labelled

/-- The tick of the row is not in a later cycle than the last package, and the cells are those
of some packages. -/
structure TraceRun.Kept (run : TraceRun) : Prop where
  labelled : Labelled run.tracer run.accepted
  behind : run.tracer.lastTick.toNat / 1000 ≤ run.now.toNat / 1000
  filled : ∃ pckgs, run.tracer.tidBufferStrings = cellsOf pckgs

namespace BguTracer

variable {tracer : BguTracer} {currTick : Tick} {pckg : BguInfoPackage}

theorem receive_added (on : tracer.tracerOff = false) :
    (tracer.receiveBguInfoPackage currTick pckg).2 = .added ↔
      ∃ stage, tracer.takes stage pckg = true := by
  have running : (tracer.advanceRow currTick).continueCond pckg.tid
      = tracer.continueCond pckg.tid := by
    rw [advanceRow]
    split <;> rfl
  rw [receiveBguInfoPackage, on, if_neg Bool.false_ne_true]
  simp only [takes, on, running, addPackageToStringBuffer]
  cases tracer.continueCond pckg.tid <;> cases pckg.packetStatus <;> simp

theorem takes_iff {stage other : TraceStage} (taken : tracer.takes stage pckg = true) :
    tracer.takes other pckg = true ↔ pckg.packetStatus = some other := by
  simp only [takes, Bool.and_eq_true, decide_eq_true_eq] at taken ⊢
  exact and_iff_right taken.1

theorem receive_cases (pckg : BguInfoPackage) (on : tracer.tracerOff = false)
    {pckgs : List BguInfoPackage}
    (filled : (tracer.advanceRow currTick).tidBufferStrings = cellsOf pckgs) :
    ∃ cells, (tracer.receiveBguInfoPackage currTick pckg).1
        = { tracer.advanceRow currTick with tidBufferStrings := cells }
      ∧ ((tracer.receiveBguInfoPackage currTick pckg).2 = .added
          ∧ cells = cellsOf (pckgs ++ [pckg])
        ∨ (tracer.receiveBguInfoPackage currTick pckg).2 ≠ .added ∧ cells = cellsOf pckgs) := by
  refine ⟨_, receive_eq currTick pckg on, ?_⟩
  rw [ne_eq, receive_added on]
  by_cases taken : ∃ stage, tracer.takes stage pckg = true
  · refine .inl ⟨taken, funext fun other => ?_⟩
    obtain ⟨stage, taken⟩ := taken
    rw [cellsOf_snoc, filled]
    simp [takes_iff taken]
  · simp_all

end BguTracer

namespace TraceRun

theorem kept_init (tick : Tick) : (init tick).Kept where
  labelled := ⟨pairwise_singleton _ _, fun _ _ mem => absurd mem not_mem_nil⟩
  behind := Nat.le_refl _
  filled := ⟨[], rfl⟩

theorem Kept.step {run : TraceRun} (kept : run.Kept) {event : TraceEvent}
    (ordered : run.InOrder event) (ends : run.EndsCycle event) : (run.step event).Kept := by
  cases event with
  | shutDown =>
    exact ⟨⟨kept.labelled.sorted, kept.labelled.written⟩, kept.behind, kept.filled⟩
  | receive currTick pckg =>
    have reached : run.tracer.lastTick.toNat / 1000 ≤ currTick.toNat / 1000 :=
      kept.behind.trans (Nat.div_le_div_right ordered)
    by_cases off : run.tracer.tracerOff = true
    · have same : run.tracer.receiveBguInfoPackage currTick pckg = (run.tracer, .filtered) := by
        rw [BguTracer.receiveBguInfoPackage, if_pos off]
      simp only [TraceRun.step, same]
      exact ⟨kept.labelled, reached, kept.filled⟩
    · have on := Bool.not_eq_true _ ▸ off
      have cycle := BguTracer.advanceRow_cycle kept.behind ordered ends
      obtain ⟨labelled, pckgs, filled⟩ := kept.labelled.advanceRow kept.filled cycle reached
      obtain ⟨cells, after, ⟨added, now⟩ | ⟨other, now⟩⟩ :=
        BguTracer.receive_cases pckg on filled
      · simp only [TraceRun.step, after, added]
        exact ⟨labelled.add filled now cycle, cycle.le, _, now⟩
      · simp only [TraceRun.step, after, if_neg other]
        have unchanged : cells = (run.tracer.advanceRow currTick).tidBufferStrings :=
          now.trans filled.symm
        rw [unchanged]
        exact ⟨labelled, cycle.le, pckgs, filled⟩

/-- In every run in which each tick ends the cycle of the row or is its tick, the labels do not
decrease and the packages are in the rows of their cycles. -/
theorem run_labelled {tick : Tick} {run : TraceRun}
    (reached : Reaches step (fun run event => run.InOrder event ∧ run.EndsCycle event)
      (init tick) run) : Labelled run.tracer run.accepted :=
  (reached.invariant (kept_init tick) fun _ _ kept guard => kept.step guard.1 guard.2).labelled

theorem run_labelled_cycle :
    Labelled ((init 0).step (.receive 1000 decodedPackage)).tracer
      ((init 0).step (.receive 1000 decodedPackage)).accepted :=
  run_labelled <| Reaches.tail (TraceEvent.receive 1000 decodedPackage) Reaches.refl
    ⟨(by decide : (0 : Tick) ≤ 1000), fun _ near => absurd near (by decide)⟩

/-- Three packages of which the second comes in the cycle of the first: the labels of the rows
are 0, 1, 0 and 1. -/
theorem labels_go_back :
    ∃ run, Reaches step InOrder (init 0) run ∧ ¬Labelled run.tracer run.accepted := by
  refine ⟨_, .tail (.receive 1200 decodedPackage) (.tail (.receive 200 decodedPackage)
    (.tail (.receive 100 decodedPackage) .refl ?_) ?_) ?_, fun labelled => ?_⟩
  · exact (by decide : (0 : Tick) ≤ 100)
  · exact (by decide : (100 : Tick) ≤ 200)
  · exact (by decide : (200 : Tick) ≤ 1200)
  · exact absurd labelled.sorted (by decide)

end TraceRun

end Gem5.FlexCPU
