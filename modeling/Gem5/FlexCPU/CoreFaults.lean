import Gem5.FlexCPU.CoreMoves

/-!
# Squashing in closed form, and faults

`markFault` and a wrong prediction flag everything younger and cut the buffer.
With their closed forms, only a flagged instruction carries a fault, which
completes the invariant.
-/

namespace Gem5.FlexCPU

open Thread List Function

section Spec

variable {cfg : Config} {t : Thread} {i : InstId}

/-- The fault is recorded on `i`. -/
def faulty (t : Thread) (i : InstId) (f : Fault) : Thread :=
  t.update i fun inst => { inst with fault := some f }

theorem flaggedAll_append {insts : Insts} {vs : List InstId} :
    flagged (flaggedAll insts vs) i = flaggedAll insts (vs ++ [i]) := by
  funext j
  by_cases self : j = i
  · subst self
    by_cases mem : j ∈ vs <;> simp [flagged, flaggedAll, mem]
  · rw [flagged_of_ne _ _ self]
    simp [flaggedAll, self]

theorem markFault_spec (inv : Core cfg t) (mem : i ∈ t.inflightInsts)
    (unsquashed : (t.insts i).squashed = false) (quiet : t.Quiet) (f : Fault) :
    ∃ a vs waiting, t.inflightInsts = a ++ i :: vs.reverse
      ∧ (waiting = none ∨ waiting = t.unpredictedBranch)
      ∧ t.markFault cfg i f = { squashed (faulty t i f) (vs ++ [i]) (a ++ [i]) waiting with
          decoder := .reset
          curMacroOp := none
          advanceInstNeedsRetry := false
          calls := .commitAll false :: t.calls } := by
  have core := inv.setFault (inv.heap.bounded i mem) f
  have shorter := core.squashUpTo (i := i) quiet mem false (by simp)
  obtain ⟨a, vs, w, buffer, hw, victims, eq⟩ := Thread.back_squashUpTo core quiet mem
  have kept : i ∉ vs := by simpa using Tails.notMem_later inv.heap.ordered buffer
  have form : (faulty t i f).squashUpTo cfg i false
      = { squashed (faulty t i f) vs (a ++ [i]) w with decoder := .reset, curMacroOp := none } := by
    simp only [faulty, Thread.squashUpTo, victims, eq]
    rfl
  have self : flaggedAll (faulty t i f).insts vs i = { t.insts i with fault := some f } := by
    simp [flaggedAll, kept, faulty, Thread.update]
  have open_ : (((faulty t i f).squashUpTo cfg i false).insts i).squashed = false := by
    rw [form]
    exact (congrArg (·.squashed) self).trans unsquashed
  obtain ⟨w', hw', eq'⟩ := Thread.notifySquashed_spec ((faulty t i f).squashUpTo cfg i false) i
    (shorter.control.squashCallbacks i) (by rw [form]; simp [Thread.back, squashed]) open_
    (shorter.waits open_)
  refine ⟨a, vs, w', buffer, ?_, ?_⟩
  · aesop
  · have step : t.markFault cfg i f
        = ({ ((faulty t i f).squashUpTo cfg i false).notifySquashed i with
            advanceInstNeedsRetry := false }).push [.commitAll false] := rfl
    have slot : slots ((faulty t i f).insts i) i = released { t.insts i with fault := some f } i := by
      have same : (faulty t i f).insts i = { t.insts i with fault := some f } := by
        simp [faulty, Thread.update]
      simp [slots, same, unsquashed]
    rw [step, eq', form]
    simp only [Thread.flag, Thread.update, squashed, map_append, sum_append, List.map_singleton,
      slot, ← Nat.add_assoc]
    rw [← flaggedAll_append, flagged, self]
    rfl

theorem squashUpTo_spec (inv : Core cfg t) (mem : i ∈ t.inflightInsts) (quiet : t.Quiet) :
    ∃ a vs waiting, t.inflightInsts = a ++ i :: vs.reverse
      ∧ (waiting = none ∨ waiting = t.unpredictedBranch)
      ∧ t.squashUpTo cfg i true = { squashed t vs (a ++ [i]) waiting with
          lastUses := ((a ++ [i]).foldl populateUses (squashed t vs (a ++ [i]) waiting)).lastUses
          lastSerializingInstruction :=
            (squashed t vs (a ++ [i]) waiting).rebuildLast vs t.lastSerializingInstruction
              (serializes cfg)
          lastMemBarrier :=
            (squashed t vs (a ++ [i]) waiting).rebuildLast vs t.lastMemBarrier (·.isMemBarrier)
          decoder := .reset
          curMacroOp := none } := by
  obtain ⟨a, vs, w, buffer, hw, victims, eq⟩ := Thread.back_squashUpTo inv quiet mem
  refine ⟨a, vs, w, buffer, hw, ?_⟩
  obtain ⟨uses, folded⟩ := populateUses_foldl (squashed t vs (a ++ [i]) w) (a ++ [i])
  have rebuilt : (squashed t vs (a ++ [i]) w).rebuildLasts cfg vs
      = { squashed t vs (a ++ [i]) w with
          lastUses := uses
          lastSerializingInstruction :=
            (squashed t vs (a ++ [i]) w).rebuildLast vs t.lastSerializingInstruction
              (serializes cfg)
          lastMemBarrier :=
            (squashed t vs (a ++ [i]) w).rebuildLast vs t.lastMemBarrier (·.isMemBarrier) } := by
    unfold Thread.rebuildLasts
    rw [show (squashed t vs (a ++ [i]) w).inflightInsts = a ++ [i] from rfl, folded]
    rfl
  simp [Thread.squashUpTo, victims, eq, rebuilt, folded]

theorem resolveWrong_spec (inv : Core cfg t) {rest : List Call}
    (calls : t.calls = .resolveControl i :: rest) :
    ∃ u a vs waiting, u = ({ t with calls := rest }).freeBranchPredDepth ∧ Core cfg u
      ∧ t.inflightInsts = a ++ i :: vs.reverse ∧ u.inflightInsts = t.inflightInsts
      ∧ u.calls = rest
      ∧ (waiting = none ∨ waiting = u.unpredictedBranch)
      ∧ u.squashUpTo cfg i true = { squashed u vs (a ++ [i]) waiting with
          lastUses := ((a ++ [i]).foldl populateUses (squashed u vs (a ++ [i]) waiting)).lastUses
          lastSerializingInstruction :=
            (squashed u vs (a ++ [i]) waiting).rebuildLast vs u.lastSerializingInstruction
              (serializes cfg)
          lastMemBarrier :=
            (squashed u vs (a ++ [i]) waiting).rebuildLast vs u.lastMemBarrier (·.isMemBarrier)
          decoder := .reset
          curMacroOp := none } := by
  have resolving : Call.resolveControl i ∈ t.calls := by simp [calls]
  have freed := (inv.pop calls rfl (by simp)).freeBranchPredDepth
  have kept := freeBranchPredDepth_keeps { t with calls := rest } i
  have quiet : ({ t with calls := rest } : Thread).freeBranchPredDepth.Quiet := by
    intro c mem
    rw [kept.1] at mem
    exact inv.resolve_quiet calls c mem
  have mem : i ∈ ({ t with calls := rest } : Thread).freeBranchPredDepth.inflightInsts := by
    rw [kept.2.1]
    exact (inv.stack.protects _ resolving rfl i rfl).1
  obtain ⟨a, vs, w, buffer, hw, eq⟩ := squashUpTo_spec freed mem quiet
  rw [kept.2.1] at buffer
  exact ⟨_, a, vs, w, rfl, freed, buffer, kept.2.1, kept.1, hw, eq⟩

end Spec

section Faults

variable {cfg : Config} {o : Thread} {e : Event} {t t' : Thread} {i : InstId}

theorem Faults.mono {insts insts' : Insts} {buf buf' : List InstId} (h : Faults insts buf) (fewer :
    ∀ j ∈ buf', (insts' j).squashed = false → j ∈ buf ∧ (insts j).squashed = false ∧ (insts'
    j).fault = (insts j).fault) : Faults insts' buf' := by
  intro j mem unsquashed
  obtain ⟨old, open_, same⟩ := fewer j mem unsquashed
  exact same.trans (h j old open_)

theorem Faults.update {insts : Insts} {buf : List InstId} {x : InflightInst} (h : Faults insts buf)
    (squashed : x.squashed = (insts i).squashed) (fault : x.fault = (insts i).fault) :
    Faults (Function.update insts i x) buf :=
  h.mono fun j mem unsquashed => ⟨mem, (keep (·.squashed) squashed j).symm.trans unsquashed,
    keep (·.fault) fault j⟩

theorem Faults.freeBranchPredDepth (h : Faults t.insts t.inflightInsts) :
    Faults t.freeBranchPredDepth.insts t.freeBranchPredDepth.inflightInsts := by
  rcases t.freeBranchPredDepth_cases with ⟨u, -, -, -, -, eq⟩ | ⟨waiting, -, eq⟩
  · rw [eq]
    exact h.update rfl rfl
  · rw [eq]
    exact h

theorem Faults.requestMem (h : Faults t.insts t.inflightInsts) :
    Faults (t.requestMem i).insts (t.requestMem i).inflightInsts := by
  unfold Thread.requestMem
  split
  · exact h
  · split <;> exact h

theorem Faults.extend {pc : PCState} (h : Faults t.insts t.inflightInsts) :
    Faults (t.extend pc).insts (t.extend pc).inflightInsts := by
  intro j mem unsquashed
  by_cases self : j = t.nextInst
  · simp [self, Thread.extend, Thread.allocate, Thread.freshInst]
  · have old : j ∈ t.inflightInsts := (List.mem_append.mp mem).resolve_right (by simpa using self)
    simp only [Thread.extend, Thread.allocate, update_of_ne self] at unsquashed ⊢
    exact h j old unsquashed

theorem Faults.squashed (h : Faults t.insts t.inflightInsts) (vs : List InstId)
    (waiting : Option InstId) {kept : List InstId} (sub : ∀ j ∈ kept, j ∈ t.inflightInsts) :
    Faults (FlexCPU.squashed t vs kept waiting).insts
      (FlexCPU.squashed t vs kept waiting).inflightInsts := by
  refine h.mono fun j mem unsquashed => ⟨sub j mem, ?_⟩
  change (flaggedAll t.insts vs j).squashed = false at unsquashed
  change (t.insts j).squashed = false ∧ (flaggedAll t.insts vs j).fault = (t.insts j).fault
  unfold flaggedAll at unsquashed ⊢
  split at unsquashed
  · cases unsquashed
  · rename_i kept
    simp [kept, unsquashed]

theorem Faults.markFault (h : Faults t.insts t.inflightInsts) (core : Core cfg t)
    (mem : i ∈ t.inflightInsts) (unsquashed : (t.insts i).squashed = false) (quiet : t.Quiet)
    (f : Fault) : Faults (t.markFault cfg i f).insts (t.markFault cfg i f).inflightInsts := by
  obtain ⟨a, vs, w, buffer, -, eq⟩ := markFault_spec core mem unsquashed quiet f
  rw [eq]
  intro j inside open_
  change (flaggedAll (faulty t i f).insts (vs ++ [i]) j).squashed = false at open_
  change (flaggedAll (faulty t i f).insts (vs ++ [i]) j).fault = none
  unfold flaggedAll at open_ ⊢
  split at open_
  · cases open_
  · rename_i kept
    have ne : j ≠ i := fun eq => kept (by simp [eq])
    rw [if_neg kept]
    simp only [faulty, Thread.update, update_of_ne ne] at open_ ⊢
    refine h j ?_ open_
    have : j ∈ a ++ [i] := inside
    rw [buffer]
    exact mem_append_left _ ((List.mem_append.mp this).resolve_right (by simpa using ne))

theorem Faults.issue (h : Faults t.insts t.inflightInsts) :
    Faults (t.enterIssue cfg i).insts (t.enterIssue cfg i).inflightInsts := by
  rw [Thread.enterIssue_eq]
  have enrolled : Faults (issuedInsts cfg t i) t.inflightInsts :=
    h.mono fun j mem unsquashed => ⟨mem, (restatus_squashed ..).symm.trans unsquashed,
      restatus_fault t.insts i j .issued⟩
  exact enrolled.update rfl rfl

theorem Faults.decrement {g : Gate} (h : Faults t.insts t.inflightInsts) :
    Faults (t.decrement g i).insts (t.decrement g i).inflightInsts := by
  unfold Thread.decrement
  split
  · have lower : Faults (Function.update t.insts i ((t.insts i).decrement g)) t.inflightInsts :=
      h.update rfl rfl
    dsimp only
    split <;> exact lower
  · exact h

theorem Faults.addDependency {g : Gate} {m : Milestone} {p : InstId}
    (h : Faults t.insts t.inflightInsts) :
    Faults (t.addDependency i g m p).insts (t.addDependency i g m p).inflightInsts := by
  have form := register_eq t i (.depend g m p)
  change t.addDependency i g m p = _ at form
  rw [form]
  exact h

theorem Faults.overlap {cb : Callback} {other : InstId} (h : Faults t.insts t.inflightInsts)
    (kind : cb = .overlapKnown i other ∨ cb = .overlapOurs i other ∨ cb = .overlapTheirs i other)
    (fine : (t.runCallback cfg cb).panicked = none) :
    Faults (t.runCallback cfg cb).insts (t.runCallback cfg cb).inflightInsts := by
  rcases runOverlap_cases t kind fine with same | new
  · rwa [same]
  · rw [new]
    exact h.addDependency

theorem Inv.faultsMove (inv : Inv cfg t) (move : Move cfg o e t t') :
    Faults t'.insts t'.inflightInsts := by
  have h := inv.faults
  cases move with
  | decode | reserve | predictStall | enterTid | execute | requestExecution | setAccess
  | execResult | loadResult | complete | effAddr | awaitMem | commit => exact h.update rfl rfl
  | issue => exact h.issue
  | extend => exact h.extend
  | release => exact Faults.freeBranchPredDepth (t := { t with requests := _ }) h
  | predictExtend =>
    refine Faults.extend ?_
    exact h.update rfl rfl
  | waitTid =>
    refine Faults.update ?_ rfl rfl
    exact h.update rfl rfl
  | setPAddrs =>
    refine h.update ?_ ?_
    · split <;> rfl
    · split <;> rfl
  | sendLoad =>
    refine Faults.requestMem ?_
    exact h.update rfl rfl
  | sendStore =>
    refine Faults.requestMem (Faults.update ?_ rfl rfl)
    exact h.update rfl rfl
  | @sendFault i f can store =>
    have sent : Faults (t.enterMemory i).insts (t.enterMemory i).inflightInsts := h.update rfl rfl
    have idle := can.toIdle.enterMemory
    exact sent.markFault (inv.toCore.enterMemory can.toIdle can.ready) idle.mem idle.unsquashed
      (can.quiet store) f
  | @fault i f idle kind packets calls cause =>
    exact h.markFault inv.toCore idle.mem idle.unsquashed (by simp [Quiet, calls]) f
  | decrement calls => exact Faults.decrement (t := { t with calls := _ }) h
  | overlap calls kind fine => exact Faults.overlap (t := { t with calls := _ }) h kind fine
  | resolveCorrect calls predictor followed correct =>
    exact Faults.freeBranchPredDepth (t := { t with calls := _ }) h
  | @resolveWrong i rest calls predictor followed =>
    have before := Faults.freeBranchPredDepth (t := { t with calls := rest }) h
    obtain ⟨u, a, vs, w, rfl, -, buffer, same, -, -, eq⟩ := resolveWrong_spec inv.toCore calls
    rw [eq]
    refine before.squashed vs w fun j inside => ?_
    rw [same, buffer]
    simpa using Or.imp_right Or.inl (List.mem_append.mp inside)
  | popFront => exact h.mono fun j mem open_ => ⟨mem_of_mem_tail mem, open_, rfl⟩
  | reset => intro j mem; simp at mem
  | _ => exact h

end Faults

end Gem5.FlexCPU
