import Gem5.FlexCPU.Reachable
import Mathlib.Logic.Relation

/-!
# The life of an instruction

What the invariant says of one instruction in every reachable state, whatever order the
resources answer in: it is in one place at a time, it commits once, and what it waits for is
older than itself.
-/

namespace Gem5.FlexCPU

variable {cfg : Config} {tc : ThreadContext} {guard : Thread → Event → Prop} {t : Thread}

/-- An instruction that is not squashed is carried on by at most one request or call, and every
request finds the instruction in the stage that it serves. -/
theorem one_stage_at_a_time (run : Guarded cfg tc guard t) {i : InstId}
    (live : (t.insts i).squashed = false) :
    t.requests.countP (Request.isToken i) + t.calls.countP (Call.isToken i) ≤ 1
      ∧ (∀ r ∈ t.requests, r.inst = i → r.Fits (t.insts i))
      ∧ ∀ c ∈ t.calls, c.inst = some i → c.Fits (t.insts i) := by
  have tokens := run.inv.tokens
  refine ⟨tokens.single i live, ?_, ?_⟩
  · rintro r mem rfl
    exact tokens.request_fits r mem live
  · intro c mem own
    exact tokens.call_fits c mem i own live

/-- The head of the buffer has committed, and is about to be removed. -/
def Leaving (t : Thread) (i : InstId) : Prop :=
  t.inflightInsts.head? = some i ∧ .commitPop ∈ t.calls

theorem commit_announced_of_mem (run : Guarded cfg tc guard t) {i : InstId}
    (inside : i ∈ t.inflightInsts) :
    (t.insts i).fired .commit = 1 ↔ Leaving t i := by
  have buffer := run.inv.buffer
  constructor
  · intro announced
    have front : t.inflightInsts.head? = some i := by
      by_contra behind
      rw [buffer.uncommitted i inside behind] at announced
      contradiction
    exact ⟨front, buffer.popping.mpr ⟨i, front, announced⟩⟩
  · rintro ⟨front, pops⟩
    obtain ⟨j, head, announced⟩ := buffer.popping.mp pops
    obtain rfl : i = j := Option.some.inj (front.symm.trans head)
    exact announced

/-- An instruction announces its commit at most once. When it is not squashed, it has done so
just when it has left the buffer or is about to leave it. -/
theorem commit_announced_once (run : Guarded cfg tc guard t) (i : InstId) :
    (t.insts i).fired .commit ≤ 1
      ∧ (i < t.nextInst → (t.insts i).squashed = false →
        ((t.insts i).fired .commit = 1 ↔ i ∉ t.inflightInsts ∨ Leaving t i)) := by
  have milestones := run.inv.milestones
  refine ⟨milestones.fired_le i .commit, fun allocated live => ?_⟩
  by_cases inside : i ∈ t.inflightInsts
  · simp only [inside, not_true_eq_false, false_or]
    exact commit_announced_of_mem run inside
  · simp only [inside, not_false_eq_true, true_or, iff_true]
    exact (milestones.left i allocated inside live).1

/-- `c` has registered with `d` for an announcement that it waits for. -/
def WaitsFor (t : Thread) (c d : InstId) : Prop := ∃ g m, (m, d) ∈ (t.insts c).deps g

theorem older_of_waits (run : Guarded cfg tc guard t) {c d : InstId}
    (waits : Relation.TransGen (WaitsFor t) c d) : d < c := by
  have older : ∀ {a b : InstId}, WaitsFor t a b → b < a := by
    rintro a b ⟨g, m, mem⟩
    exact run.inv.heap.parents_lt a g (m, b) mem
  induction waits with
  | single edge => exact older edge
  | tail _ edge ih => exact Nat.lt_trans (older edge) ih

/-- No instruction waits for itself through others. -/
theorem waits_acyclic (run : Guarded cfg tc guard t) (i : InstId) :
    ¬Relation.TransGen (WaitsFor t) i i :=
  fun waits => Nat.lt_irrefl i (older_of_waits run waits)

/-- Three instructions that write the same register are issued, and a fourth is fetched. -/
def writersThread : Thread :=
  Thread.play (.sample fun _ => { StaticInst.nop with
    destRegs := [⟨.int, 5⟩], srcRegs := [⟨.int, 5⟩] }) .boot
    (Event.firstFetch { fetched := fun _ => 7 } ++ Event.served {} 0 2 ++ Event.served {} 1 2
      ++ Event.served {} 2 2)

theorem one_stage_at_a_time_writers :
    writersThread.requests.countP (Request.isToken 1)
      + writersThread.calls.countP (Call.isToken 1) ≤ 1 :=
  (one_stage_at_a_time (Thread.reachable_play ..) (i := 1) (by decide +kernel)).1

theorem commit_announced_once_writers : (writersThread.insts 0).fired .commit ≤ 1 :=
  (commit_announced_once (Thread.reachable_play ..) 0).1

theorem waits_acyclic_writers : ¬Relation.TransGen (WaitsFor writersThread) 1 1 :=
  waits_acyclic (Thread.reachable_play ..) 1

end Gem5.FlexCPU
