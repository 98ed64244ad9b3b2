import Gem5.Minor.Simulation

/-!
# The order of the instructions of a thread

The instructions in flight and those in the input are, in this order, the numbered
instructions of their thread that are not finished. A move removes some of them or
appends a new one.
-/

namespace Gem5.Minor

open List

/-- The unfinished instructions of a thread, oldest first. -/
def Line.unfinished (t : Line) : List InstId := t.inFlightInsts ++ t.input

structure Line.Ordered (t : Line) (tid : Nat) : Prop where
  increasing : t.unfinished.Pairwise fun i j => i.execSeqNum < j.execSeqNum
  thread : ∀ i ∈ t.unfinished, i.threadId = tid
  numbered : ∀ i ∈ t.unfinished, 0 < i.execSeqNum ∧ i.execSeqNum < t.nextExecSeqNum
  started : 0 < t.nextExecSeqNum

def Core.Ordered (c : Core) : Prop := ∀ tid, (c.threads tid).Ordered tid

namespace Line.Ordered

variable {t t' : Line} {tid : Nat}

theorem sublist (ordered : t.Ordered tid) (sub : t'.unfinished.Sublist t.unfinished)
    (next : t'.nextExecSeqNum = t.nextExecSeqNum) : t'.Ordered tid where
  increasing := ordered.increasing.sublist sub
  thread i inside := ordered.thread i (sub.subset inside)
  numbered i inside := next ▸ ordered.numbered i (sub.subset inside)
  started := next ▸ ordered.started

theorem append (ordered : t.Ordered tid) {stream : Nat}
    (last : t'.unfinished = t.unfinished ++ [⟨tid, stream, t.nextExecSeqNum⟩])
    (next : t'.nextExecSeqNum = t.nextExecSeqNum + 1) : t'.Ordered tid where
  increasing := by
    rw [last]
    refine List.pairwise_append.mpr ⟨ordered.increasing, pairwise_singleton _ _, ?_⟩
    intro i inside j new
    rw [List.mem_singleton.mp new]
    exact (ordered.numbered i inside).2
  thread := by grind [thread]
  numbered := by
    intro i inside
    rw [last, mem_append, List.mem_singleton] at inside
    rw [next]
    rcases inside with old | rfl
    · have bounds := ordered.numbered i old
      omega
    · exact ⟨ordered.started, Nat.lt_succ_self _⟩
  started := by
    rw [next]
    exact Nat.succ_pos _

theorem nodup (ordered : t.Ordered tid) : t.unfinished.Nodup :=
  ordered.increasing.imp fun lt same => absurd (same ▸ lt) (Nat.lt_irrefl _)

end Line.Ordered

namespace Core

theorem setLine_threads (c : Core) (tid u : Nat) (t : Line) :
    (c.setLine tid t).threads u = if u = tid then t else c.threads u := by
  simp [setLine, Function.update_apply]

theorem turnIf_threads (c : Core) (tid u : Nat) (change : Bool) :
    (c.turnIf tid change).threads u = { c.threads u with
      streamSeqNum := if change = true ∧ u = tid then (c.threads u).streamSeqNum + 1
        else (c.threads u).streamSeqNum } := by
  cases change
  · simp [turnIf]
  · by_cases h : u = tid
    · subst h
      simp [turnIf, turn, setLine_threads]
    · simp [turnIf, turn, setLine_threads, h]

theorem retire_threads (c : Core) (tid u : Nat) (i : InstId) (committed : Bool) :
    (c.retire tid i committed).threads u = if u = tid then { c.threads u with
      ended := (c.insts i).ends, inFlightInsts := (c.threads u).inFlightInsts.tail }
      else c.threads u := by
  by_cases h : u = tid
  · subst h
    simp [retire, setLine_threads]
  · simp [retire, setLine_threads, h]

end Core

/-- What a move can do to the unfinished instructions of a thread. -/
inductive Line.Step (t t' : Line) (tid : Nat) : Prop where
  | keep (sub : t'.unfinished.Sublist t.unfinished) (next : t'.nextExecSeqNum = t.nextExecSeqNum)
  | append (stream : Nat)
      (last : t'.unfinished = t.unfinished ++ [⟨tid, stream, t.nextExecSeqNum⟩])
      (next : t'.nextExecSeqNum = t.nextExecSeqNum + 1)

theorem Line.Step.same {t t' : Line} {tid : Nat} (inFlight : t'.inFlightInsts = t.inFlightInsts)
    (input : t'.input = t.input) (next : t'.nextExecSeqNum = t.nextExecSeqNum) : t.Step t' tid := by
  refine .keep ?_ next
  rw [unfinished, unfinished, inFlight, input]

theorem Line.Step.retired {t t' : Line} {tid : Nat}
    (inFlight : t'.inFlightInsts = t.inFlightInsts.tail) (input : t'.input = t.input)
    (next : t'.nextExecSeqNum = t.nextExecSeqNum) : t.Step t' tid := by
  refine .keep ?_ next
  rw [unfinished, unfinished, inFlight, input]
  exact (tail_sublist _).append_right _

theorem Core.retire_step (c d : Core) (tid u : Nat) (i : InstId) (committed : Bool)
    (inFlight : (d.threads u).inFlightInsts = (c.threads u).inFlightInsts)
    (input : (d.threads u).input = (c.threads u).input)
    (next : (d.threads u).nextExecSeqNum = (c.threads u).nextExecSeqNum) :
    (c.threads u).Step ((d.retire tid i committed).threads u) u := by
  rw [Core.retire_threads]
  split
  · exact .retired (by rw [← inFlight]) input next
  · exact .same inFlight input next

theorem Move.line {cfg : Config} {o : Execute} {e : Execute.Event} {c c' : Core}
    (move : Move cfg o e c c') (u : Nat) : (c.threads u).Step (c'.threads u) u := by
  cases move with
  | @arrive tid stream x le fresh =>
    rw [Core.setLine_threads]
    split
    next same =>
      subst same
      refine .append stream ?_ rfl
      simp [Line.unfinished]
    next => exact .same rfl rfl rfl
  | finish | perform | respond | retry | evaluate | drainResume | push => exact .same rfl rfl rfl
  | drain =>
    dsimp only
    split <;> exact .same rfl rfl rfl
  | drained =>
    rw [Core.setLine_threads]
    split
    next same => exact same ▸ .same rfl rfl rfl
    next => exact .same rfl rfl rfl
  | haltFetch =>
    rw [Core.turn, Core.setLine_threads]
    split
    next same =>
      subst same
      refine .same ?_ ?_ ?_ <;> simp [Core.setLine_threads]
    next other =>
      rw [Core.setLine_threads, if_neg other]
      exact .same rfl rfl rfl
  | turn =>
    rw [Core.turn, Core.setLine_threads]
    split
    next same => exact same ▸ .same rfl rfl rfl
    next => exact .same rfl rfl rfl
  | clearInput =>
    rw [Core.setLine_threads]
    split
    next same =>
      subst same
      refine .keep ?_ rfl
      simp [Line.unfinished]
    next => exact .same rfl rfl rfl
  | @discardInput tid i rest input =>
    simp only [Core.logDiscard, Core.setLine_threads]
    split
    next same =>
      subst same
      refine .keep ?_ rfl
      rw [Line.unfinished, Line.unfinished, input]
      exact (sublist_cons_self _ _).append_left _
    next => exact .same rfl rfl rfl
  | @issue tid i rest fu retireTime unpredictable dests event marks origin issues input =>
    simp only [Core.setLine_threads]
    split
    next same =>
      subst same
      refine .keep ?_ rfl
      simp [Line.unfinished, input]
    next => exact .same rfl rfl rfl
  | respondCommit =>
    apply Core.retire_step <;> simp [Core.logCommit, Core.turnIf_threads, Core.setInst]
  | respondDiscard | discard => apply Core.retire_step <;> rfl
  | execute =>
    apply Core.retire_step <;> simp [Core.logCommit, Core.turnIf_threads]
  | fault =>
    apply Core.retire_step <;> simp [Core.turnIf_threads, Core.setInst]

theorem Move.ordered {cfg : Config} {o : Execute} {e : Execute.Event} {c c' : Core}
    (move : Move cfg o e c c') (ordered : c.Ordered) : c'.Ordered := by
  intro u
  cases move.line u with
  | keep sub next => exact (ordered u).sublist sub next
  | append stream last next => exact (ordered u).append last next

theorem Execute.ordered_init (cfg : Config) : (Execute.init cfg).core.Ordered := by
  intro u
  constructor <;> simp [Line.unfinished, Execute.core, Execute.init, ThreadInfo.line]

end Gem5.Minor
