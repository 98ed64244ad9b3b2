import Gem5.Minor.ScoreboardExact

/-!
# Early memory issue

A memory reference may be sent to the load/store queue ahead of its turn once the head
of its thread is younger than the instruction it waits for. The number it waits for is
that of the youngest writer of its sources when it was issued, as the scoreboard knew
it; so no writer of a source is left when it is sent.
-/

namespace Gem5.Minor

namespace DynInst

variable {index tid : Nat}

variable (flatten : RegId → RegId) (x : DynInst)

/-- The indices of the registers that an instruction reads. -/
def reads : List Nat := x.staticInst.srcRegs.filterMap fun r => Scoreboard.findIndex (flatten r)

/-- The indices of the registers that an instruction writes. -/
def writes : List Nat :=
  if x.fault then [] else x.staticInst.destRegs.filterMap fun r => Scoreboard.findIndex (flatten r)

/-- What the issue of an instruction leaves on it for good. -/
def plan : StaticInst × Bool × List RegId × Nat :=
  (x.staticInst, x.fault, x.flatDestRegs, x.instToWaitFor)

variable {flatten x}

theorem mem_sources : some index ∈ Scoreboard.sources flatten x ↔ index ∈ x.reads flatten:= by
  simp [Scoreboard.sources, reads]

theorem findIndex_flattened (r : RegId) :
    Scoreboard.findIndex (if (Scoreboard.findIndex r).isSome then r else .zeroReg) =
      Scoreboard.findIndex r := by
  cases tracked : Scoreboard.findIndex r with
  | none => rfl
  | some => simpa using tracked

theorem mem_trackedDests (marked : x.flatDestRegs = Scoreboard.flattenDests flatten x.staticInst) :
    index ∈ x.trackedDests ↔ index ∈ x.writes flatten := by
  rw [trackedDests, writes, marked, Scoreboard.flattenDests, List.filterMap_map]
  simp [findIndex_flattened]

end DynInst

namespace Scoreboard

theorem le_execSeqNumToWaitFor {flatten : RegId → RegId} {b : Scoreboard} {x : DynInst} (sound : x.fault = false) (source : index ∈ x.reads flatten) :
    b.writingInst index ≤ b.execSeqNumToWaitFor flatten x := by
  have general : ∀ (wait : Nat → Option Nat → Nat), (∀ ret, wait ret none = ret) →
      (∀ ret index, wait ret (some index) =
        if ret < b.writingInst index then b.writingInst index else ret) →
      ∀ (l : List (Option Nat)) (ret : Nat), ret ≤ l.foldl wait ret ∧
        (some index ∈ l → b.writingInst index ≤ l.foldl wait ret) := by
    intro wait skip take l
    induction l with
    | nil => simp
    | cons src l ih => cases src <;> grind
  rw [execSeqNumToWaitFor, if_neg (by simp [sound])]
  exact (general _ (fun _ => rfl) (fun _ _ => rfl) _ 0).2 (DynInst.mem_sources.mpr source)

end Scoreboard

theorem Writer.le_youngest_of_mem {l : List Writer} {w : Writer} (inside : w ∈ l)
    (writes : index ∈ w.dests) : w.execSeqNum ≤ Writer.youngest l index := by
  induction l with
  | nil => simp at inside
  | cons v l ih => grind [Writer.youngest_cons]

namespace Execute

variable {cfg : Config} {s t : Execute} {e : Event}

section Kept

/-- No instruction loses the marks of its issue, and none is newly allowed to issue early. -/
def Kept (s t : Execute) : Prop :=
  ∀ i, (t.insts i).plan = (s.insts i).plan ∧
    ((t.insts i).canEarlyIssue = true → (s.insts i).canEarlyIssue = true)

theorem Kept.of_insts (same : t.insts = s.insts) : Kept s t := by
  intro i
  rw [same]
  exact ⟨rfl, id⟩

theorem Kept.trans {r : Execute} (first : Kept s t) (second : Kept t r) : Kept s r := by
  intro i
  exact ⟨(second i).1.trans (first i).1, fun early => (first i).2 ((second i).2 early)⟩

theorem Kept.updateInst (s : Execute) (i : InstId) {f : DynInst → DynInst}
    (plan : (f (s.insts i)).plan = (s.insts i).plan)
    (early : (f (s.insts i)).canEarlyIssue = true → (s.insts i).canEarlyIssue = true) :
    Kept s (s.updateInst i f) := by
  intro j
  by_cases h : j = i
  · subst h
    simpa [Execute.updateInst] using ⟨plan, early⟩
  · simp [Execute.updateInst, h]

theorem kept_commitInst (cfg : Config) (s : Execute) (i : InstId) (early : Bool) (a : CommitAnswer) :
    Kept s (s.commitInst cfg i early a).1 := by
  rw [commitInst]
  split
  · exact .of_insts rfl
  split
  · exact .of_insts (by simp)
  split
  · split
    · exact .of_insts rfl
    split
    · split
      · exact .updateInst s i (f := fun x => { x with canEarlyIssue := false }) rfl (by simp)
      · exact .of_insts (by simp)
    · exact .of_insts (by simp)
  split
  · exact .of_insts rfl
  split
  · exact .of_insts rfl
  · refine .of_insts ?_
    simp only [suspendThread_insts, tryToBranch_insts]
    split <;> rfl

theorem kept_tryToCommit (cfg : Config) (s : Execute) (loop : CommitLoop) (i : InstId) (early : Bool)
    (a : CommitAnswer) : Kept s (s.tryToCommit cfg loop i early a).1 := by
  have delayed : Kept s (s.delayCommit i a.extraDelay) := .updateInst s i rfl id
  rw [tryToCommit]
  split
  · exact .of_insts rfl
  dsimp only
  split
  · exact delayed
  split
  · exact delayed
  · have tried := delayed.trans (kept_commitInst cfg _ i early a)
    split
    · exact tried.trans (.of_insts rfl)
    · exact tried

theorem kept_handleMemResponse (s : Execute) (head : InstId) (r : ReqId) (a : CommitAnswer) :
    Kept s (s.handleMemResponse head r a).1 := by
  refine Kept.trans ?_ (.of_insts (tryToBranch_insts ..))
  split
  · exact (Kept.updateInst s head (f := fun x => { x with inStoreBuffer := true }) rfl id).trans
      (.of_insts rfl)
  · exact .of_insts rfl

theorem kept_commitHead (cfg : Config) (s : Execute) (loop : CommitLoop) (head : InstId) (a : CommitAnswer) :
    Kept s (s.commitHead cfg loop head a).1 := by
  rw [commitHead]
  split
  · exact .of_insts (by simp)
  split
  · split
    · exact .of_insts rfl
    · exact kept_handleMemResponse s head _ a
  · split
    · split
      · exact kept_tryToCommit cfg s loop _ _ a
      · exact .of_insts rfl
    · exact .of_insts rfl

theorem kept_settle (s : Execute) (tid : Nat) (r : Round) : Kept s (s.settle tid r) := by
  have entered : ∀ t : Execute, Kept s t → Kept s (if r.issuedMemRef = true then
      t.updateInst r.inst fun x => { x with fuIndex := 0, inLSQ := true } else t) := by
    intro t kept
    split
    · exact kept.trans (.updateInst t r.inst rfl id)
    · exact kept
  have popped : ∀ (t : Execute) (b : Bool), Kept s t → Kept s (if b = true then
      t.updateThread tid fun u => { u with inFUMemInsts := u.inFUMemInsts.tail } else t) := by
    intro t b kept
    split
    · exact kept.trans (.of_insts rfl)
    · exact kept
  have retired : ∀ t : Execute, Kept s t → Kept s (t.retire tid r) :=
    fun _ kept => kept.trans (.of_insts rfl)
  simp only [settle]
  split
  · exact retired _ (popped _ _ (entered _ (.of_insts rfl)))
  · exact popped _ _ (entered _ (.of_insts rfl))

theorem kept_commitRound (cfg : Config) (s : Execute) (loop : CommitLoop) (a : CommitAnswer) :
    Kept s (s.commitRound cfg loop a) := by
  rw [commitRound]
  split
  · exact .of_insts (by simp)
  next head rest inFlight =>
    have settled := (kept_commitHead cfg s loop head a).trans
      (kept_settle _ loop.tid (s.commitHead cfg loop head a).2)
    dsimp only
    split
    · exact settled.trans (.of_insts rfl)
    · exact settled.trans (.of_insts (by simp))

theorem startCommit_insts (s : Execute) (tid : Nat) (only : Bool) :
    (s.startCommit cfg tid only).insts = s.insts := by
  have start : ∀ (t : Execute) (loop : CommitLoop),
      (if t.goesOn cfg loop then { t with phase := .commit loop } else t.afterCommit tid).insts
        = t.insts := by
    intro t loop
    split
    · rfl
    · simp
  rw [startCommit]
  split
  · exact start s _
  · exact start s _
  · simp
  · exact start _ _

theorem kept_step (issue : ∀ tid, e ≠ .issue tid) (arrive : ∀ tid a, e ≠ .arrive tid a) :
    Kept s (s.step cfg e) := by
  rw [step]
  split
  · exact .of_insts rfl
  rw [running.eq_def]
  split
  next =>
    cases e with
    | arrive tid a => exact absurd rfl (arrive tid a)
    | finish =>
      refine .of_insts ?_
      simp only [outside, finish]
      split <;> rfl
    | respond | retry =>
      refine .of_insts ?_
      simp only [outside]
      split <;> rfl
    | _ => exact .of_insts rfl
  next =>
    split
    next tid =>
      refine .of_insts ?_
      rw [takeInterrupt]
      split
      · simp
      · rfl
    next tid only =>
      refine .of_insts ?_
      split
      · rfl
      cases tid with
      | none => rfl
      | some tid => exact startCommit_insts s tid only
    next => exact .of_insts rfl
  next loop phase =>
    split
    next a => exact kept_commitRound cfg s loop a
    next r a port =>
      refine .of_insts ?_
      rw [finish]
      split <;> rfl
    next => exact .of_insts rfl
  next chosen phase =>
    split
    next tid => exact absurd rfl (issue tid)
    next => exact .of_insts rfl
    next => exact .of_insts rfl
  next =>
    split
    next => exact .of_insts rfl
    next => exact .of_insts rfl

end Kept

end Execute

/-- Instructions leave flight and the input, and only newly numbered ones enter the input. -/
def Core.Older (c d : Core) : Prop :=
  ∀ tid, ((d.threads tid).inFlightInsts ⊆ (c.threads tid).inFlightInsts) ∧
    (∀ j ∈ (d.threads tid).input,
      j ∈ (c.threads tid).input ∨ (c.threads tid).nextExecSeqNum ≤ j.execSeqNum) ∧
    (c.threads tid).nextExecSeqNum ≤ (d.threads tid).nextExecSeqNum

namespace Core.Older

variable {c d : Core}

theorem refl (c : Core) : c.Older c := fun _ => ⟨fun _ h => h, fun _ h => .inl h, le_refl _⟩

theorem trans {r : Core} (first : c.Older d) (second : d.Older r) : c.Older r := by
  intro tid
  obtain ⟨flight, input, next⟩ := first tid
  obtain ⟨flight', input', next'⟩ := second tid
  refine ⟨fun i h => flight (flight' h), ?_, next.trans next'⟩
  intro j inside
  rcases input' j inside with old | new
  · exact input j old
  · exact .inr (next.trans new)

theorem of_line (same : ∀ tid, (d.threads tid).inFlightInsts = (c.threads tid).inFlightInsts ∧
    (d.threads tid).input = (c.threads tid).input ∧
    (d.threads tid).nextExecSeqNum = (c.threads tid).nextExecSeqNum) : c.Older d := by
  intro tid
  obtain ⟨flight, input, next⟩ := same tid
  rw [flight, input, next]
  exact refl c tid

theorem retire (d : Core) {i : InstId} {committed : Bool} (same : ∀ u, (d.threads u).inFlightInsts =
    (c.threads u).inFlightInsts ∧ (d.threads u).input = (c.threads u).input ∧ (d.threads
    u).nextExecSeqNum = (c.threads u).nextExecSeqNum) : c.Older (d.retire tid i committed) := by
  refine (of_line same).trans ?_
  intro u
  rw [retire_threads]
  split
  · exact ⟨List.tail_subset _, fun j inside => .inl inside, le_refl _⟩
  · exact refl d u

end Core.Older

theorem Move.older {cfg : Config} {o : Execute} {e : Execute.Event} {c c' : Core}
    (issue : ∀ tid, e ≠ .issue tid) (move : Move cfg o e c c') : c.Older c' := by
  cases move with
  | @arrive tid stream x le fresh =>
    intro u
    rw [Core.setLine_threads]
    split
    next same => grind
    next => exact Core.Older.refl c u
  | finish | perform | respond | retry | evaluate | drainResume | push =>
    exact .of_line fun _ => ⟨rfl, rfl, rfl⟩
  | drain =>
    refine .of_line fun tid => ?_
    dsimp only
    split <;> exact ⟨rfl, rfl, rfl⟩
  | drained =>
    refine .of_line fun u => ?_
    rw [Core.setLine_threads]
    split
    next same => exact same ▸ ⟨rfl, rfl, rfl⟩
    next => exact ⟨rfl, rfl, rfl⟩
  | haltFetch =>
    refine .of_line fun u => ?_
    rw [Core.turn, Core.setLine_threads]
    split
    next same =>
      subst same
      simp [Core.setLine_threads]
    next other => simp [Core.setLine_threads, if_neg other]
  | turn =>
    refine .of_line fun u => ?_
    rw [Core.turn, Core.setLine_threads]
    split
    next same => exact same ▸ ⟨rfl, rfl, rfl⟩
    next => exact ⟨rfl, rfl, rfl⟩
  | clearInput =>
    intro u
    rw [Core.setLine_threads]
    split
    next same => grind
    next => exact Core.Older.refl c u
  | @discardInput tid i rest input =>
    intro u
    simp only [Core.logDiscard, Core.setLine_threads]
    split
    next same => grind
    next => exact Core.Older.refl c u
  | issue event => exact absurd event (issue _)
  | respondCommit =>
    refine .retire _ fun u => ?_
    simp [Core.logCommit, Core.turnIf_threads, Core.setInst]
  | respondDiscard | discard => exact .retire _ fun _ => ⟨rfl, rfl, rfl⟩
  | execute =>
    refine .retire _ fun u => ?_
    simp [Core.logCommit, Core.turnIf_threads]
  | fault =>
    refine .retire _ fun u => ?_
    simp [Core.turnIf_threads, Core.setInst]

theorem Moves.older {cfg : Config} {o : Execute} {e : Execute.Event} {c c' : Core}
    (issue : ∀ tid, e ≠ .issue tid) (moves : Moves cfg o e c c') : c.Older c' := by
  induction moves with
  | refl => exact Core.Older.refl c
  | tail _ move ih => exact ih.trans (move.older issue)

namespace Execute

variable {cfg : Config} {s t : Execute} {e : Event}

/-- Every memory reference that may issue early waits for the writers of its sources. -/
structure Waits (cfg : Config) (s : Execute) : Prop where
  marked : ∀ tid, ∀ w ∈ (s.threads tid).inFlightInsts,
    (s.insts w).flatDestRegs = Scoreboard.flattenDests cfg.flatten (s.insts w).staticInst
  issued : ∀ m, (s.insts m).canEarlyIssue = true →
    m.execSeqNum < (s.threads m.threadId).nextExecSeqNum ∧
      ∀ j ∈ (s.threads m.threadId).input, m.execSeqNum < j.execSeqNum
  waits : ∀ m, (s.insts m).canEarlyIssue = true →
    ∀ w ∈ (s.threads m.threadId).inFlightInsts, w.execSeqNum < m.execSeqNum →
      ∀ index ∈ (s.insts m).reads cfg.flatten, index ∈ (s.insts w).trackedDests →
        w.execSeqNum ≤ (s.insts m).instToWaitFor

section Plan

variable {x y : DynInst} (same : x.plan = y.plan)

include same

theorem reads_of_plan (flatten : RegId → RegId) : x.reads flatten = y.reads flatten := by
  simp only [DynInst.plan, Prod.mk.injEq] at same
  rw [DynInst.reads, DynInst.reads, same.1]

theorem trackedDests_of_plan : x.trackedDests = y.trackedDests := by
  simp only [DynInst.plan, Prod.mk.injEq] at same
  rw [DynInst.trackedDests, DynInst.trackedDests, same.2.1, same.2.2.1]

end Plan

theorem Waits.keep (waits : s.Waits cfg) (older : s.core.Older t.core) (kept : ∀ i, ((t.insts
    i).plan = (s.insts i).plan ∧ ((t.insts i).canEarlyIssue = true → (s.insts i).canEarlyIssue =
    true)) ∨ ((t.insts i).canEarlyIssue = false ∧ ∀ tid, i ∉ (s.threads tid).inFlightInsts)) :
    t.Waits cfg := by
  have flying : ∀ tid, ∀ w ∈ (t.threads tid).inFlightInsts,
      w ∈ (s.threads tid).inFlightInsts ∧ (t.insts w).plan = (s.insts w).plan := by
    intro tid w inside
    have before : w ∈ (s.threads tid).inFlightInsts := (older tid).1 inside
    rcases kept w with same | fresh
    · exact ⟨before, same.1⟩
    · exact absurd before (fresh.2 tid)
  have early : ∀ m, (t.insts m).canEarlyIssue = true →
      (s.insts m).canEarlyIssue = true ∧ (t.insts m).plan = (s.insts m).plan := by
    intro m can
    rcases kept m with same | fresh
    · exact ⟨same.2 can, same.1⟩
    · simp [fresh.1] at can
  refine ⟨?_, ?_, ?_⟩
  · intro tid w inside
    obtain ⟨before, same⟩ := flying tid w inside
    have marks := waits.marked tid w before
    simp only [DynInst.plan, Prod.mk.injEq] at same
    rw [same.1, same.2.2.1]
    exact marks
  · intro m can
    obtain ⟨numbered, younger⟩ := waits.issued m (early m can).1
    obtain ⟨-, input, next⟩ := older m.threadId
    refine ⟨lt_of_lt_of_le numbered next, ?_⟩
    intro j inside
    rcases input j inside with old | new
    · exact younger j old
    · exact lt_of_lt_of_le numbered new
  · intro m can w inside lt index source dest
    obtain ⟨could, same⟩ := early m can
    obtain ⟨before, same'⟩ := flying _ w inside
    rw [reads_of_plan same] at source
    rw [trackedDests_of_plan same'] at dest
    have number := waits.waits m could w before lt index source dest
    simp only [DynInst.plan, Prod.mk.injEq] at same
    rw [same.2.2.2]
    exact number

theorem Waits.congr (waits : s.Waits cfg) (insts : t.insts = s.insts) (threads : ∀ tid, (t.threads
    tid).inFlightInsts = (s.threads tid).inFlightInsts ∧ (t.threads tid).input ⊆ (s.threads
    tid).input ∧ (t.threads tid).nextExecSeqNum = (s.threads tid).nextExecSeqNum) :
    t.Waits cfg := by
  refine waits.keep ?_ fun i => .inl ?_
  · intro tid
    obtain ⟨flight, input, next⟩ := threads tid
    have flight : (t.core.threads tid).inFlightInsts = (s.core.threads tid).inFlightInsts := flight
    rw [flight]
    exact ⟨fun _ h => h, fun j inside => .inl (input inside), next.ge⟩
  · rw [insts]
    exact ⟨rfl, id⟩

theorem Waits.enter {tid retireTime : Nat} {rest : List InstId} {x : DynInst} (waits : s.Waits cfg)
    (ordered : s.core.Ordered) (input : (s.threads tid).input = x.id :: rest)
    (marks : x.flatDestRegs = Scoreboard.flattenDests cfg.flatten x.staticInst) (number :
    x.canEarlyIssue = true → ∀ w ∈ (s.threads tid).inFlightInsts, ∀ index ∈ x.reads cfg.flatten,
    index ∈ (s.insts w).trackedDests → w.execSeqNum ≤ x.instToWaitFor) :
    (s.enter tid x retireTime).Waits cfg := by
  have line := ordered tid
  have unfinished : (s.core.threads tid).unfinished =
      (s.threads tid).inFlightInsts ++ x.id :: rest := by
    rw [← input]
    rfl
  have own : x.id ∈ (s.core.threads tid).unfinished := by
    rw [unfinished]
    simp
  have thread : x.id.threadId = tid := line.thread _ own
  have increasing := line.increasing
  rw [unfinished, List.pairwise_append, List.pairwise_cons] at increasing
  obtain ⟨-, ⟨youngest, -⟩, across⟩ := increasing
  have absent : ∀ u, x.id ∉ (s.threads u).inFlightInsts := by
    intro u inside
    obtain rfl : x.id.threadId = u := (ordered u).thread _ (List.mem_append_left _ inside)
    rw [thread] at inside
    exact absurd (across _ inside _ List.mem_cons_self) (Nat.lt_irrefl _)
  have insts : ∀ i, (s.enter tid x retireTime).insts i = if i = x.id then x else s.insts i := by
    intro i
    exact Function.update_apply ..
  have flight : ∀ u, ((s.enter tid x retireTime).threads u).inFlightInsts =
      if u = tid then (s.threads u).inFlightInsts ++ [x.id] else (s.threads u).inFlightInsts := by
    intro u
    by_cases same : u = tid
    · subst same
      simp [Execute.enter, updateThread]
    · simp [Execute.enter, updateThread, same]
  have queue : ∀ u, ((s.enter tid x retireTime).threads u).input =
      if u = tid then rest else (s.threads u).input := by
    intro u
    by_cases same : u = tid
    · subst same
      simp [Execute.enter, updateThread, input]
    · simp [Execute.enter, updateThread, same]
  have next : ∀ u, ((s.enter tid x retireTime).threads u).nextExecSeqNum =
      (s.threads u).nextExecSeqNum := by
    intro u
    by_cases same : u = tid
    · subst same
      simp [Execute.enter, updateThread]
    · simp [Execute.enter, updateThread, same]
  have flying : ∀ u, ∀ w ∈ ((s.enter tid x retireTime).threads u).inFlightInsts,
      (w = x.id ∧ u = tid) ∨ (w ≠ x.id ∧ w ∈ (s.threads u).inFlightInsts) := by
    intro u w inside
    rw [flight] at inside
    split at inside
    next same => grind
    next => exact .inr ⟨fun h => absent u (h ▸ inside), inside⟩
  refine ⟨?_, ?_, ?_⟩
  · intro u w inside
    rw [insts]
    rcases flying u w inside with ⟨rfl, -⟩ | ⟨other, old⟩
    · rw [if_pos rfl]
      exact marks
    · rw [if_neg other]
      exact waits.marked u w old
  · intro m can
    rw [insts] at can
    rw [next, queue]
    split at can
    next same =>
      subst same
      rw [thread, if_pos rfl]
      exact ⟨(line.numbered _ own).2, youngest⟩
    next other =>
      obtain ⟨numbered, younger⟩ := waits.issued m can
      refine ⟨numbered, ?_⟩
      intro j inside
      split at inside
      next same => grind
      next => exact younger j inside
  · intro m can w inside lt index source dest
    rw [insts] at can source dest
    rw [insts]
    rcases flying _ w inside with ⟨rfl, same⟩ | ⟨other, old⟩
    · split at can
      next self => exact absurd (self ▸ lt) (Nat.lt_irrefl _)
      next =>
        have younger := (waits.issued m can).2
        rw [same, input] at younger
        have := younger _ List.mem_cons_self
        omega
    · rw [if_neg other] at dest
      split at can
      next self => grind
      next self =>
        rw [if_neg self] at source ⊢
        exact waits.waits m can w old lt index source dest

theorem le_waitFor (cfg : Config) {x : DynInst} {w : InstId}
    (tracks : (s.scoreboards tid).Tracks (s.core.writers tid))
    (plain : x.fault = false) (flying : w ∈ (s.threads tid).inFlightInsts)
    (source : index ∈ x.reads cfg.flatten) (dest : index ∈ (s.insts w).trackedDests) :
    w.execSeqNum ≤ (s.scoreboards tid).execSeqNumToWaitFor cfg.flatten x := by
  refine le_trans ?_ (Scoreboard.le_execSeqNumToWaitFor plain source)
  rw [tracks.writingInst index]
  have inside : (s.insts w).sketch.writer w ∈ s.core.writers tid :=
    List.mem_map_of_mem (f := fun i => (s.core.insts i).writer i) flying
  exact Writer.le_youngest_of_mem inside dest

theorem waits_issueInst (early : cfg.allowEarlyMemIssue = true) (sound : s.Sound)
    (ordered : s.core.Ordered) (tracks : (s.scoreboards tid).Tracks (s.core.writers tid))
    (waits : s.Waits cfg) : (s.issueInst cfg tid).Waits cfg := by
  rw [issueInst]
  split
  · exact waits
  next i rest input =>
    have own : (s.insts i).id = i := (sound i).id
    dsimp only
    split
    · refine waits.congr rfl fun u => ?_
      by_cases same : u = tid
      · subst same
        simp [updateThread, input]
      · simp [updateThread, same]
    split
    next free =>
      refine waits.enter ordered (by rw [own]; exact input) rfl ?_
      intro can
      have memRef := (sound i).early can
      simp only [DynInst.isMemRef, Bool.and_eq_true] at memRef
      have cost := (s.insts i).staticInst.memRef_opClass memRef.2
      simp [DynInst.isNoCostInst, cost] at free
    next =>
      split
      · exact waits
      next fu d found =>
        have entered : (s.enter tid (s.marked cfg tid (s.insts i) fu (timing d (s.insts i)))
            (s.now + d.opLat + (timing d (s.insts i)).extraCommitLat +
              (timing d (s.insts i)).extraAssumedLat)).Waits cfg := by
          refine waits.enter ordered (by rw [marked, own]; exact input) rfl ?_
          intro can w flying index source dest
          have memRef : (s.insts i).isMemRef = true := by
            simp only [marked] at can
            split at can
            next both => exact (Bool.and_eq_true_iff.mp both).1
            next => exact (sound i).early can
          have plain : (s.insts i).fault = false := by
            simp only [DynInst.isMemRef, DynInst.isInst, Bool.and_eq_true] at memRef
            simpa using memRef.1
          have covered := le_waitFor cfg tracks plain flying source dest
          simp only [marked, memRef, early]
          exact le_max_of_le_left covered
        exact entered.congr rfl fun _ => ⟨rfl, fun _ h => h, rfl⟩

/-- Drains discard nothing but heads, only a memory reference of the committing thread is
sent early, and the counters have room for each issue. -/
def tracksWriters (cfg : Config) (s : Execute) (e : Event) : Bool :=
  match s.phase, e with
  | .commit loop, .commit _ =>
    match (s.threads loop.tid).inFlightInsts with
    | [] => true
    | head :: _ => (s.candidate cfg loop.tid head).all fun chosen =>
        chosen.1 == head || (!loop.discard && chosen.1.threadId == loop.tid)
  | _, .issue tid => s.hasRoom cfg tid
  | _, _ => true

theorem hasRoom_of_tracksWriters (ok : s.tracksWriters cfg (.issue tid) = true) :
    s.hasRoom cfg tid = true := by
  cases h : s.phase <;> simpa [tracksWriters] using ok

theorem chosen_of_tracksWriters {loop : CommitLoop} {head i : InstId} {early : Bool}
    (ok : s.tracksWriters cfg e = true) (round : AtHead s e s.core loop head)
    (chosen : s.candidate cfg loop.tid head = some (i, early)) :
    i = head ∨ loop.discard = false ∧ i.threadId = loop.tid := by
  obtain ⟨a, rfl⟩ := round.event
  obtain ⟨rest, inFlight⟩ := round.inFlight
  have inFlight : (s.threads loop.tid).inFlightInsts = head :: rest := inFlight
  simpa [tracksWriters, round.phase, inFlight, chosen] using ok

theorem tracks_move {o : Execute} {c c' : Core} (sound : o.Sound)
    (ok : o.tracksWriters cfg e = true) (ordered : c.Ordered) (tracks : c.Boards Scoreboard.Tracks)
    (move : Move cfg o e c c') : c'.Boards Scoreboard.Tracks := by
  refine boards_move sound ordered ?_ ?_ ?_ tracks move
  · rintro loop head - l before oldest
    exact before.clear (w := (o.insts head).sketch.writer head) oldest
  · rintro tid i fu retireTime unpredictable rfl issues - l before
    exact before.markup
      (w := ⟨i.execSeqNum, o.issuedDests cfg i, (o.insts i).isMemRef, unpredictable⟩)
      (room_of_hasRoom (hasRoom_of_tracksWriters ok) issues before)
  · intro loop head round drain i early chosen
    rcases chosen_of_tracksWriters ok round chosen with same | ⟨keep, -⟩
    · exact same
    · simp [drain] at keep

/-- What a run that tracks the writers keeps. -/
structure Tracking (cfg : Config) (s : Execute) : Prop where
  sound : s.Sound
  ordered : s.core.Ordered
  tracks : s.core.Boards Scoreboard.Tracks
  waits : s.Waits cfg

theorem tracking_init : (init cfg).Tracking cfg where
  sound := sound_init
  ordered := ordered_init cfg
  tracks := fun tid => (counted_init.exact tid).tracks
  waits := ⟨fun _ _ => nofun, fun _ => nofun, fun _ => nofun⟩

theorem arrive_insts (cfg : Config) (s : Execute) (tid : Nat) (a : Arrival) (i : InstId) :
    (s.step cfg (.arrive tid a)).insts i = s.insts i ∨
      ((s.step cfg (.arrive tid a)).insts i).canEarlyIssue = false ∧
        i = ⟨tid, a.streamSeqNum, (s.threads tid).nextExecSeqNum⟩ := by
  simp only [step, running.eq_def]
  split
  · exact .inl rfl
  split
  · simp only [outside, arrive]
    split
    · exact .inl rfl
    · grind
  all_goals exact .inl rfl

theorem waits_step (early : cfg.allowEarlyMemIssue = true) (tracking : s.Tracking cfg) :
    (s.step cfg e).Waits cfg := by
  have moves := step_moves cfg e tracking.sound
  by_cases issue : ∃ tid, e = .issue tid
  · obtain ⟨tid, rfl⟩ := issue
    have issued := waits_issueInst early tracking.sound tracking.ordered (tracking.tracks tid)
      tracking.waits
    have idle := tracking.waits
    simp only [step, running.eq_def]
    split
    · exact idle
    split
    · exact idle
    · exact idle
    · exact idle
    next =>
      split
      · exact issued.congr rfl fun _ => ⟨rfl, fun _ h => h, rfl⟩
      · exact idle
    · exact idle
  · have issue : ∀ tid, e ≠ .issue tid := fun tid h => issue ⟨tid, h⟩
    refine tracking.waits.keep (moves.older issue) ?_
    by_cases arrive : ∃ tid a, e = .arrive tid a
    · obtain ⟨tid, a, rfl⟩ := arrive
      intro i
      rcases arrive_insts cfg s tid a i with same | ⟨late, rfl⟩
      · rw [same]
        exact .inl ⟨rfl, id⟩
      · refine .inr ⟨late, ?_⟩
        intro u inside
        have known := List.mem_append_left (s.threads u).input inside
        obtain rfl : tid = u := (tracking.ordered u).thread _ known
        exact absurd ((tracking.ordered tid).numbered _ known).2 (Nat.lt_irrefl _)
    · exact fun i => .inl (kept_step issue (fun tid a h => arrive ⟨tid, a, h⟩) i)

theorem tracking_step (early : cfg.allowEarlyMemIssue = true) (ok : s.tracksWriters cfg e = true)
    (tracking : s.Tracking cfg) : (s.step cfg e).Tracking cfg := by
  have kept : (s.step cfg e).core.Ordered ∧ (s.step cfg e).core.Boards Scoreboard.Tracks := by
    have moves := step_moves cfg e tracking.sound
    generalize (s.step cfg e).core = c at moves
    induction moves with
    | refl => exact ⟨tracking.ordered, tracking.tracks⟩
    | tail _ move ih =>
      exact ⟨move.ordered ih.1, tracks_move tracking.sound ok ih.1 ih.2 move⟩
  exact ⟨sound_step tracking.sound, kept.1, kept.2, waits_step early tracking⟩

/-- Whether `tryToCommit` gets as far as the call of `initiateAcc`. -/
def callsInitiateAcc (cfg : Config) (s : Execute) (c : CommitLoop) (i : InstId)
    (a : CommitAnswer) : Bool :=
  let t := s.delayCommit i a.extraDelay
  !(i.streamSeqNum ≠ (s.threads c.tid).streamSeqNum || c.discard) && !t.heldByBarrier c.tid i
    && !(t.now < (t.insts i).minimumCommitCycle)
    && !((t.threads i.threadId).suspended && !a.interrupted)
    && !(t.insts i).fault && (t.insts i).isMemRef && t.lsq.canRequest cfg.lsq

/-- The instruction whose `initiateAcc` a round of `commit` calls. -/
def initiatesAcc (cfg : Config) (s : Execute) (c : CommitLoop) (head : InstId) (a : CommitAnswer) :
    Option InstId :=
  let response := if (s.insts head).inLSQ then s.lsq.findResponse cfg.lsq head else none
  if s.isInbetweenInsts c.tid && a.pcEvent then none
  else match response.filter fun _ => c.numMemRefsCommitted < cfg.memoryCommitLimit with
    | some _ => none
    | none =>
      if !(c.onlyCommitMicroops && (s.threads c.tid).lastCommitWasEndOfMacroop) then
        ((s.candidate cfg c.tid head).filter fun chosen => s.callsInitiateAcc cfg c chosen.1 a).map
          (·.1)
      else none

/-- The instruction whose `initiateAcc` an event makes `commit` call. -/
def initiates (cfg : Config) (s : Execute) (e : Event) : Option InstId :=
  match s.phase, e with
  | .commit loop, .commit a =>
    match (s.threads loop.tid).inFlightInsts with
    | [] => none
    | head :: _ => s.initiatesAcc cfg loop head a
  | _, _ => none

theorem initiates_cases {m : InstId} (calls : s.initiates cfg e = some m) :
    ∃ loop head early, AtHead s e s.core loop head ∧
      s.candidate cfg loop.tid head = some (m, early) ∧
      m.streamSeqNum = (s.threads loop.tid).streamSeqNum ∧ loop.discard = false := by
  simp only [initiates] at calls
  split at calls
  next loop a phase =>
    split at calls
    · simp at calls
    next head rest inFlight =>
      rw [initiatesAcc] at calls
      split at calls
      · simp at calls
      split at calls
      · simp at calls
      split at calls
      · simp only [Option.map_eq_some_iff, Option.filter_eq_some_iff] at calls
        obtain ⟨⟨i, early⟩, ⟨chosen, called⟩, rfl⟩ := calls
        refine ⟨loop, head, early, ⟨phase, ⟨a, rfl⟩, rfl, ⟨rest, inFlight⟩⟩, chosen, ?_⟩
        simp only [callsInitiateAcc, Bool.and_eq_true, Bool.not_eq_eq_eq_not, Bool.not_true,
          Bool.or_eq_false_iff, decide_eq_false_iff_not, not_not] at called
        exact called.1.1.1.1.1.1
      · simp at calls
  next => simp at calls

/-- The last instruction of a list that writes a register of a thread. -/
def lastWriter (cfg : Config) (s : Execute) (tid index : Nat) (l : List InstId) : Option InstId :=
  (l.filter fun w => w.threadId == tid && index ∈ (s.insts w).writes cfg.flatten).getLast?

theorem lastWriter_append {l done : List InstId}
    (other : ∀ w ∈ done, index ∉ (s.insts w).writes cfg.flatten) :
    s.lastWriter cfg tid index (l ++ done) = s.lastWriter cfg tid index l := by
  have none : (done.filter fun w => w.threadId == tid && index ∈ (s.insts w).writes cfg.flatten)
      = [] := by
    rw [List.filter_eq_nil_iff]
    intro w inside
    simp [other w inside]
  rw [lastWriter, lastWriter, List.filter_append, none, List.append_nil]

/-- A memory reference of the committing thread that is sent early finds no older writer of its
sources. -/
theorem Tracking.no_older_writer {m head w : InstId} {loop : CommitLoop}
    (tracking : s.Tracking cfg) (round : AtHead s e s.core loop head)
    (found : s.earlyIssue cfg loop.tid head = some m) (thread : m.threadId = loop.tid)
    (pending : w ∈ (s.threads loop.tid).inFlightInsts ++ (s.threads loop.tid).input)
    (older : w.execSeqNum < m.execSeqNum) (source : index ∈ (s.insts m).reads cfg.flatten) :
    index ∉ (s.insts w).writes cfg.flatten := by
  intro dest
  obtain ⟨can, waited⟩ : (s.insts m).canEarlyIssue = true ∧
      (s.insts m).instToWaitFor < head.execSeqNum := by
    simp only [earlyIssue] at found
    split at found
    · contradiction
    split at found
    · simp_all
    · contradiction
  have numbered := tracking.waits.issued m can
  rw [thread] at numbered
  rcases List.mem_append.mp pending with flying | waiting
  · have marks := tracking.waits.marked _ w flying
    have covered := tracking.waits.waits m can w (by rw [thread]; exact flying) older index source
      ((DynInst.mem_trackedDests marks).mpr dest)
    obtain ⟨rest, inFlight⟩ := round.inFlight
    have inFlight : (s.threads loop.tid).inFlightInsts = head :: rest := inFlight
    rw [inFlight] at flying
    rcases List.mem_cons.mp flying with rfl | later
    · omega
    · have := tracking.ordered.oldest inFlight w later
      omega
  · have := numbered.2 w waiting
    omega

/-- In every run that tracks the writers, a memory reference whose `initiateAcc` is called ahead
of its turn finds no older writer of its sources unfinished: its operands are those that it
would read at the head. -/
theorem early_issue_reads_committed (early : cfg.allowEarlyMemIssue = true)
    (reached : Guarded cfg (fun s e => s.tracksWriters cfg e = true) s)
    (ok : s.tracksWriters cfg e = true) {m : InstId} (calls : s.initiates cfg e = some m)
    (ahead : (s.threads m.threadId).inFlightInsts.head? ≠ some m) :
    (∀ w ∈ (s.threads m.threadId).inFlightInsts ++ (s.threads m.threadId).input,
      w.execSeqNum < m.execSeqNum → ∀ index ∈ (s.insts m).reads cfg.flatten,
        index ∉ (s.insts w).writes cfg.flatten) ∧
    (∀ done : List InstId, (∀ w ∈ done,
        w ∈ (s.threads m.threadId).inFlightInsts ++ (s.threads m.threadId).input ∧
          w.execSeqNum < m.execSeqNum) →
      ∀ index ∈ (s.insts m).reads cfg.flatten,
        s.lastWriter cfg m.threadId index (s.committed ++ done) =
          s.lastWriter cfg m.threadId index s.committed) := by
  have tracking : s.Tracking cfg :=
    Runs.Reaches.invariant (P := Tracking cfg) reached tracking_init
      fun _ _ tracking ok => tracking_step early ok tracking
  obtain ⟨loop, head, first, round, chosen, stream, keep⟩ := initiates_cases calls
  obtain ⟨rest, inFlight⟩ := round.inFlight
  have inFlight : (s.threads loop.tid).inFlightInsts = head :: rest := inFlight
  have mine : m ≠ head := by
    rintro rfl
    have flying : m ∈ (s.threads loop.tid).inFlightInsts := by
      rw [inFlight]
      exact List.mem_cons_self
    have thread : m.threadId = loop.tid :=
      (tracking.ordered loop.tid).thread m (List.mem_append_left _ flying)
    rw [thread, inFlight] at ahead
    exact ahead rfl
  have thread : m.threadId = loop.tid := by
    rcases chosen_of_tracksWriters ok round chosen with same | ⟨-, thread⟩
    · exact absurd same mine
    · exact thread
  have found : s.earlyIssue cfg loop.tid head = some m := by
    rw [candidate] at chosen
    split at chosen
    next f found =>
      obtain ⟨rfl, -⟩ : f = m ∧ true = first := by simpa using chosen
      exact found
    next =>
      split at chosen
      · obtain ⟨rfl, -⟩ : head = m ∧ false = first := by simpa using chosen
        exact absurd rfl mine
      · contradiction
  rw [thread]
  have clean : ∀ w ∈ (s.threads loop.tid).inFlightInsts ++ (s.threads loop.tid).input,
      w.execSeqNum < m.execSeqNum → ∀ index ∈ (s.insts m).reads cfg.flatten,
        index ∉ (s.insts w).writes cfg.flatten :=
    fun w pending older index source =>
      tracking.no_older_writer round found thread pending older source
  refine ⟨clean, ?_⟩
  intro done pending index source
  refine lastWriter_append ?_
  intro w inside
  obtain ⟨here, older⟩ := pending w inside
  exact clean w here older index source

/-- One memory unit of two cycles that all threads share. -/
def sharedMemoryUnit : Config where
  allowEarlyMemIssue := true
  commitLimit := 4
  memoryCommitLimit := 1
  funcUnits := [{ opLat := 2 }]
  lsq := ⟨1, 64, 1, 2, 5, 1⟩
  flatten := id

theorem opClass_plain : false = true → (0 : Nat) ≠ 0 := by simp

theorem opClass_load : true = true → (1 : Nat) ≠ 0 := by simp

/-- An instruction without a functional unit that writes register 5. -/
def writeOf5 : Arrival where
  streamSeqNum := 1
  staticInst := { destRegs := [⟨.int, 5⟩], memRef_opClass := opClass_plain }

/-- A load whose address is in a register. -/
def loadFrom (r : Nat) : Arrival where
  streamSeqNum := 1
  staticInst := { isMemRef := true, isLoad := true, opClass := 1, srcRegs := [⟨.int, r⟩],
                  destRegs := [⟨.int, 7⟩], memRef_opClass := opClass_load }

/-- A load at the end of the unit, behind a writer of another register. -/
def loadBehindWrite : List Event :=
  [.arrive 0 writeOf5, .arrive 0 (loadFrom 6),
    .evaluate {} [], .startCommit none false, .issue 0, .issue 0, .advance,
    .evaluate {} [], .startCommit none false, .advance,
    .evaluate {} [], .startCommit (some 0) false]

/-- The load does not read the register that the instruction ahead of it writes. -/
theorem early_issue_reads_committed_load :
    let s := play sharedMemoryUnit loadBehindWrite
    s.initiates sharedMemoryUnit (.commit {}) = some ⟨0, 1, 2⟩ ∧
      ∀ w ∈ (s.threads 0).inFlightInsts ++ (s.threads 0).input, w.execSeqNum < 2 →
        ∀ index ∈ (s.insts ⟨0, 1, 2⟩).reads id, index ∉ (s.insts w).writes id := by
  intro s
  have reached : Guarded sharedMemoryUnit
      (fun s e => s.tracksWriters sharedMemoryUnit e = true) s :=
    Guarded.play (by decide +kernel)
  have calls : s.initiates sharedMemoryUnit (.commit {}) = some ⟨0, 1, 2⟩ := by decide +kernel
  exact ⟨calls, (early_issue_reads_committed rfl reached (by decide +kernel) calls
    (by decide +kernel)).1⟩

/-- Thread 1 has a load behind a writer of its address, and thread 0 a load behind that one in
the memory unit. Thread 0 commits its first instruction. -/
def loadsOfTwoThreads : List Event :=
  [.arrive 0 writeOf5, .arrive 0 (loadFrom 6), .arrive 1 writeOf5, .arrive 1 (loadFrom 5),
    .evaluate {} [], .startCommit none false, .issue 1, .issue 1, .advance,
    .evaluate {} [], .startCommit none false, .issue 0, .issue 0, .advance,
    .evaluate {} [], .startCommit (some 0) false, .commit {}]

/-- The commit of thread 0 sends the load of thread 1, whose address is still to be written. -/
theorem early_issue_of_another_thread :
    ¬ ∀ (cfg : Config) (s : Execute) (e : Event) (m : InstId), cfg.allowEarlyMemIssue = true →
      Reachable cfg s → s.initiates cfg e = some m →
      (s.threads m.threadId).inFlightInsts.head? ≠ some m →
      ∀ w ∈ (s.threads m.threadId).inFlightInsts ++ (s.threads m.threadId).input,
        w.execSeqNum < m.execSeqNum → ∀ index ∈ (s.insts m).reads cfg.flatten,
          index ∉ (s.insts w).writes cfg.flatten := by
  intro all
  have clean := all sharedMemoryUnit (play sharedMemoryUnit loadsOfTwoThreads) (.commit {})
    ⟨1, 1, 2⟩ rfl (reachable_play ..) (by decide +kernel) (by decide +kernel) ⟨1, 1, 1⟩
    (by decide +kernel) (by decide) 5 (by decide +kernel)
  revert clean
  decide +kernel

end Execute

end Gem5.Minor
