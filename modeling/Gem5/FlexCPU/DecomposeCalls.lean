import Gem5.FlexCPU.Decompose

/-!
# Pending calls are sequences of moves

The rest of a step: what the running handler still has to do. A panic aside, every
step of the thread is a sequence of moves, and every reachable state satisfies the
invariant.
-/

namespace Gem5.FlexCPU

open Thread

section Calls

variable {cfg : Config} {o : Thread} {e : Event} {t : Thread} {i : InstId} {rest : List Call}

theorem Core.above_rest (inv : Core cfg t) {c : Call} (calls : t.calls = c :: rest) :
    ∀ b ∈ rest, Call.Above c b := by
  have above := inv.stack.above
  rw [calls] at above
  exact (List.pairwise_cons.mp above).1

theorem Core.quiet_rest (inv : Core cfg t) {c : Call} (calls : t.calls = c :: rest)
    (heavy : ∀ b : Call, b.protects = true → ¬ c.Above b) :
    ({ t with calls := rest }).Quiet := by
  have stack := inv.stack
  rw [calls] at stack
  exact stack.quiet_below heavy

theorem Core.head_fits (inv : Core cfg t) {c : Call} (calls : t.calls = c :: rest)
    (target : c.inst = some i) (unsquashed : (t.insts i).squashed = false) :
    i < t.nextInst ∧ c.Fits (t.insts i) := by
  have mem : c ∈ t.calls := by simp [calls]
  exact ⟨inv.heap.calls_lt c mem i target, inv.tokens.call_fits c mem i target unsquashed⟩

theorem Inv.pop_carried (_ : Inv cfg t) {c : Call} (calls : t.calls = c :: rest)
    (carries : c.carries = true) : Move cfg o e t { t with calls := rest } :=
  .pop calls (Or.inl carries)

theorem Inv.call_execute (inv : Inv cfg t)
    (calls : t.calls = .run (.executeInstruction i) :: rest) :
    Outcome cfg t e t (({ t with calls := rest }).executeInstruction i) := by
  have pop : Move cfg t e t { t with calls := rest } := inv.pop_carried calls rfl
  unfold Thread.executeInstruction
  split
  · rename_i live
    have unsquashed : (t.insts i).squashed = false := (live_unsquashed live).2
    have fits := (inv.toCore.head_fits calls rfl unsquashed).2
    have idle := inv.toCore.idle_called calls rfl rfl unsquashed fits
      (by simp [Status.lt_iff, Status.rank])
    split
    · rename_i ready
      refine .move pop (.single (.execute idle ?_ (inv.toCore.above_rest calls) ?_))
      · simpa [InflightInst.isReady] using ready
      · exact congrArg (fun cs => { t with calls := cs }) calls
    · exact .fail _ _ rfl
  · exact .single pop

theorem Inv.call_requestExecution (inv : Inv cfg t)
    (calls : t.calls = .requestExecution i :: rest) :
    Outcome cfg o e t (({ t with calls := rest }).requestExecution i) := by
  have mem : Call.requestExecution i ∈ t.calls := by simp [calls]
  obtain ⟨-, unsquashed⟩ := inv.stack.protects _ mem rfl i rfl
  obtain ⟨status, once⟩ := inv.tokens.call_fits _ mem i rfl unsquashed
  have idle := inv.toCore.idle_called calls rfl rfl unsquashed status
    (by simp [Status.lt_iff, Status.rank])
  exact .move (inv.pop_carried calls rfl)
    (.single (.requestExecution idle once (inv.toCore.above_rest calls)))

theorem Inv.sendToMemory (_ : Inv cfg t) (can : t.CanSend i) :
    Outcome cfg o e t (t.sendToMemory cfg i) := by
  have static : ((t.enterMemory i).insts i).staticInst = (t.insts i).staticInst :=
    restatus_staticInst ..
  change Outcome cfg o e t
    (if ((t.enterMemory i).insts i).staticInst.isStore then _ else (t.enterMemory i).requestMem i)
  split
  · rename_i store
    rw [static] at store
    split
    · rename_i f _
      exact .single (.sendFault can store)
    · rename_i vals _
      exact .single (.sendStore can store)
  · rename_i load
    rw [static] at load
    exact .single (.sendLoad can (by simpa using load))

theorem Core.no_overlaps (inv : Core cfg t) {c : Call} (calls : t.calls = c :: rest)
    (token : c.isToken i = true) (unsquashed : (t.insts i).squashed = false) :
    ∀ d ∈ rest, ∀ other, d ≠ .run (.overlapKnown i other) ∧ d ≠ .run (.overlapOurs i other) := by
  have alone : .afterEffAddr i ∉ rest := by
    intro second
    have single := inv.tokens.single i unsquashed
    rw [calls, stage_cons, if_pos token] at single
    have : 0 < rest.countP (Call.isToken i) := List.countP_pos_iff.mpr
      ⟨_, second, by simp [Call.isToken, Call.carries, Call.inst]⟩
    unfold stage at single
    omega
  intro d mem other
  have needs := inv.stack.needs
  rw [calls] at needs
  obtain ⟨a, b, split⟩ := List.append_of_mem mem
  have need := needs.2.at split
  constructor
  · rintro rfl
    exact alone (split ▸ List.mem_append_right _ (List.mem_cons_of_mem _ need.1))
  · rintro rfl
    exact alone (split ▸ List.mem_append_right _ (List.mem_cons_of_mem _ need.1))

theorem Core.paid_called (inv : Core cfg t) (calls : t.calls = .run (.sendToMemory i) :: rest)
    (unsquashed : (t.insts i).squashed = false) : owed t.insts t.calls .mem i = 0 := by
  obtain ⟨-, status, memRef, waits⟩ := inv.head_fits calls rfl unsquashed
  by_contra due
  have idle := ((inv.tokens.waiting_mem i unsquashed waits).2 (Nat.pos_of_ne_zero due)).2.1
  rw [calls, stage_cons, if_pos (by simp [Call.isToken, Call.carries, Call.inst, Callback.inst])]
    at idle
  omega

theorem Core.quiet_store (inv : Core cfg t)
    (calls : t.calls = .run (.sendToMemory i) :: rest)
    (unsquashed : (t.insts i).squashed = false)
    (store : (t.insts i).staticInst.isStore = true) : ({ t with calls := rest }).Quiet := by
  obtain ⟨lt, status, memRef, waits⟩ := inv.head_fits calls rfl unsquashed
  have inside := inv.inside lt unsquashed
    (by simp [show (t.insts i).status = _ from status, Status.lt_iff, Status.rank])
  have paid := inv.paid_called calls unsquashed
  have committed : ∀ j ∈ t.inflightInsts, j < i → (t.insts j).fired .commit ≠ 0 := by
    intro j mem lt none
    obtain ⟨q, -, dep, silent⟩ := inv.stores i inside unsquashed store
      (by simp [show (t.insts i).status = _ from status, Status.le_iff, Status.rank]) j mem lt none
    have due : 0 < due t.insts .mem i :=
      Latch.due_pos dep (by simp [silent, Milestone.announcements])
    unfold owed at paid
    omega
  intro b mem
  by_contra protects
  have protects : b.protects = true := by simpa using protects
  have above := inv.above_rest calls b mem
  have pending : b ∈ t.calls := by simp [calls, mem]
  have older : ∀ j, b.inst = some j → j < i → (t.insts j).status ≠ .committed → False := by
    intro j target lt running
    obtain ⟨mem, open_⟩ := inv.stack.protects b pending protects j target
    exact committed j mem lt (inv.uncommitted mem open_ running)
  cases b with
  | afterEffAddr j =>
    obtain ⟨-, open_⟩ := inv.stack.protects _ pending protects j rfl
    have fits := inv.tokens.call_fits _ pending j rfl open_
    exact older j rfl above (by simp [show (t.insts j).status = _ from fits.1])
  | resolveControl j =>
    have status := (inv.stack.resolving j pending).1
    exact older j rfl above (by simp [status])
  | _ => simp_all [Call.Above, Call.protects]

theorem Inv.call_sendToMemory (inv : Inv cfg t)
    (calls : t.calls = .run (.sendToMemory i) :: rest) :
    Outcome cfg o e t (({ t with calls := rest }).runCallback cfg (.sendToMemory i)) := by
  have pop : Move cfg o e t { t with calls := rest } := inv.pop_carried calls rfl
  simp only [Thread.runCallback]
  split
  · rename_i live
    have unsquashed : (t.insts i).squashed = false := (live_unsquashed live).2
    obtain ⟨-, status, memRef, waits⟩ := inv.toCore.head_fits calls rfl unsquashed
    have idle := inv.toCore.idle_called calls rfl rfl unsquashed status
      (by simp [Status.lt_iff, Status.rank])
    have paid := inv.toCore.paid_called calls unsquashed
    refine .move pop ((inv.move pop).sendToMemory ⟨idle, memRef, ?_, ?_, ?_⟩)
    · exact (inv.toCore.owed_mem idle.mem unsquashed).trans paid
    · exact inv.toCore.no_overlaps calls (by simp [Call.isToken, Call.carries, Call.inst,
        Callback.inst]) unsquashed
    · exact inv.toCore.quiet_store calls unsquashed
  · exact .single pop

theorem Inv.call_afterEffAddr (inv : Inv cfg t) (calls : t.calls = .afterEffAddr i :: rest) :
    Outcome cfg o e t (({ t with calls := rest }).afterEffAddr cfg i) := by
  have mem : Call.afterEffAddr i ∈ t.calls := by simp [calls]
  have pop : Move cfg o e t { t with calls := rest } := inv.pop_carried calls rfl
  obtain ⟨-, unsquashed⟩ := inv.stack.protects _ mem rfl i rfl
  obtain ⟨status, memRef, unused⟩ := inv.tokens.call_fits _ mem i rfl unsquashed
  have idle := inv.toCore.idle_called calls rfl rfl unsquashed status
    (by simp [Status.lt_iff, Status.rank])
  unfold Thread.afterEffAddr
  split
  · rename_i ready
    refine .move pop ((inv.move pop).sendToMemory ⟨idle, memRef, ?_, ?_, fun _ => ?_⟩)
    · simpa [InflightInst.isMemReady] using ready
    · exact inv.toCore.no_overlaps calls (by simp [Call.isToken, Call.carries, Call.inst])
        unsquashed
    · refine inv.toCore.quiet_rest calls fun b protects => ?_
      cases b <;> simp_all [Call.protects, Call.Above]
  · rename_i unready
    refine .move pop (.single (.awaitMem idle memRef ?_ unused))
    simpa [InflightInst.isMemReady] using unready

theorem Inv.call_attemptFetch (inv : Inv cfg t) (calls : t.calls = .attemptFetch i :: rest) :
    Outcome cfg t e t (({ t with calls := rest }).attemptFetch cfg i) := by
  have mem : Call.attemptFetch i ∈ t.calls := by simp [calls]
  have pop : Move cfg t e t { t with calls := rest } := inv.pop_carried calls rfl
  obtain ⟨-, unsquashed⟩ := inv.stack.protects _ mem rfl i rfl
  have status := inv.tokens.call_fits _ mem i rfl unsquashed
  have idle := inv.toCore.idle_called calls rfl rfl unsquashed status
    (by simp [Status.lt_iff, Status.rank])
  have quiet := inv.toCore.quiet_rest calls fun b protects => by
    cases b <;> simp_all [Call.protects, Call.Above]
  unfold Thread.attemptFetch
  dsimp only
  split
  · rename_i hit
    unfold Thread.onInstDataFetched
    dsimp only
    split
    · rename_i decoder si pc word
      have origin : t = { t with calls := .attemptFetch i :: rest } := by rw [← calls]
      refine .move pop (.move (.decode idle word hit origin)
        (.single (.enqueue (i := i) ?_ (Or.inr ⟨?_, ?_⟩) (by simp [Request.queue]))))
      · simp [Request.isToken, Request.carries, Request.inst]
      · exact ⟨idle.mem, by simpa [Thread.update, InflightInst.setStaticInst] using unsquashed,
          idle.stage, rfl⟩
      · simp [Request.Fits, Thread.update]
    · rename_i decoder word
      exact .move pop (.single (.fetchWord idle quiet word))
  · refine .move pop (.single (.enqueue (i := i) ?_
      (Or.inr ⟨idle.status.symm ▸ idle, idle.status⟩) (by simp [Request.queue])))
    simp [Request.isToken, Request.carries, Request.inst]

theorem Inv.retryAdvance (inv : Inv cfg t) (quiet : t.Quiet) {shrunk : Bool}
    (settled : shrunk = true → .commitPop ∉ t.calls) :
    Outcome cfg o e t (t.retryAdvance cfg shrunk) := by
  unfold Thread.retryAdvance
  split
  · rename_i go
    obtain ⟨shrunk, again⟩ := Bool.and_eq_true_iff.mp go
    refine inv.advanceInst ⟨quiet, settled shrunk, fun l last => ?_, fun l last => ?_,
      fun l last isControl => ?_⟩ (Or.inr ⟨again, rfl⟩)
    · exact (inv.control.retrying again l last).1
    · exact (inv.control.retrying again l last).2
    · obtain ⟨issued, unsquashed⟩ := inv.control.retrying again l last
      by_cases complete : Status.complete ≤ (t.insts l).status
      · exact Or.inl complete
      · exact Or.inr (inv.control.followed l (List.mem_of_getLast? last) unsquashed isControl
          issued (Or.inl (Nat.lt_of_not_le complete)) (Or.inr again))
  · exact .refl

theorem canCommit_iff {x : InflightInst} (can : canCommit x = true) :
    x.status = .complete ∨ x.status = .memorying ∧ x.staticInst.isStore = true := by
  simp only [canCommit, InflightInst.isCommitted, InflightInst.isComplete, InflightInst.isMemorying,
    InflightInst.reached, Milestone.status, Status.le_iff] at can
  cases status : x.status <;> simp_all [Status.rank]

theorem Inv.call_commitAll (inv : Inv cfg t) {shrunk : Bool}
    (calls : t.calls = .commitAll shrunk :: rest) :
    Outcome cfg o e t (({ t with calls := rest }).commitAllAvailableInstructions cfg shrunk) := by
  have pop : Move cfg o e t { t with calls := rest } := .pop calls (Or.inr (Or.inl ⟨shrunk, rfl⟩))
  have invU := inv.move pop
  have quiet : ({ t with calls := rest }).Quiet := inv.toCore.quiet_rest calls fun b protects => by
    cases b <;> simp_all [Call.protects, Call.Above]
  have settled : shrunk = true → .commitPop ∉ rest := by
    rintro rfl below
    exact (inv.toCore.above_rest calls _ below).2 rfl
  refine .move pop ?_
  unfold Thread.commitAllAvailableInstructions
  split
  · exact invU.retryAdvance quiet settled
  · rename_i x front
    have mem : x ∈ t.inflightInsts := List.mem_of_mem_head? front
    split
    · rename_i ready
      split
      · rename_i f fault
        have squashed : (t.insts x).squashed = true := by
          by_contra open_
          have none := inv.faults x mem (by simpa using open_)
          rw [none] at fault
          cases fault
        obtain ⟨last, -, uncommitted⟩ := inv.buffer.squashed x mem squashed
        have only : t.inflightInsts = [x] := by
          obtain ⟨a, split⟩ := List.getLast?_eq_some_iff.mp last
          rw [split] at front ⊢
          cases a with
          | nil => rfl
          | cons y a =>
            obtain rfl : y = x := by simpa using front
            have ordered := inv.heap.ordered
            rw [split] at ordered
            have := (List.pairwise_cons.mp ordered).1 y (by simp)
            exact absurd this (Nat.lt_irrefl _)
        have settled : .commitPop ∉ rest := by
          intro pending
          obtain ⟨y, head, one⟩ := invU.buffer.popping.mp pending
          obtain rfl : x = y := Option.some.inj (front.symm.trans head)
          have : (t.insts x).fired .commit = 1 := one
          omega
        have reset : Move cfg o e { t with calls := rest } { t with
            calls := rest
            inflightInsts := []
            fetchBufBase := 0
            tc := cfg.invoke f (t.insts x).instRef t.tc } := .reset only squashed fault quiet
        exact .move reset ((invU.move reset).advanceEmpty rfl quiet settled)
      · rename_i noFault
        have unsquashed : (t.insts x).squashed = false := by
          by_contra squashed
          have := (inv.buffer.squashed x mem (by simpa using squashed)).2.1
          rw [show (t.insts x).fault = none from noFault] at this
          cases this
        have can : canCommit (t.insts x) = true := by grind
        rw [if_neg (by simp [unsquashed])]
        exact .single (.commit front unsquashed (canCommit_iff can) quiet)
    · exact invU.retryAdvance quiet settled

theorem Core.following_eq (inv : Core cfg t) (mem : i ∈ t.inflightInsts) :
    (t.inflightInsts.dropWhile (· ≠ i)).tail.head?.isSome = true ↔ t.back ≠ some i := by
  obtain ⟨a, b, split⟩ := List.append_of_mem mem
  have fresh : ∀ j ∈ a, j ≠ i := fun j inside =>
    (Tails.lt_of_split inv.heap.ordered split inside (by simp)).ne
  have dropped : t.inflightInsts.dropWhile (· ≠ i) = i :: b := by simp_all
  rw [dropped]
  cases b with
  | nil => simp [Thread.back, split]
  | cons y b =>
    have ne : t.back ≠ some i := by
      intro last
      have : i ∈ y :: b := by grind [Thread.back]
      exact Tails.notMem_later inv.heap.ordered split this
    simp [ne]

theorem freeBranchPredDepth_field {β : Sort*} (t : Thread) (φ : InflightInst → β)
    (blind : ∀ x cbs, φ { x with squashCallbacks := cbs } = φ x) (j : InstId) :
    φ (t.freeBranchPredDepth.insts j) = φ (t.insts j) := by
  rcases t.freeBranchPredDepth_cases with ⟨u, -, -, -, -, eq⟩ | ⟨waiting, -, eq⟩
  · rw [eq]
    exact keep φ (blind _ _) j
  · rw [eq]

theorem freeBranchPredDepth_retryPC (t : Thread) :
    t.freeBranchPredDepth.advanceInstRetryPC = t.advanceInstRetryPC := by
  rcases t.freeBranchPredDepth_cases with ⟨u, -, -, -, -, eq⟩ | ⟨waiting, -, eq⟩
  · rw [eq]
    rfl
  · rw [eq]

theorem freeBranchPredDepth_tc (t : Thread) : t.freeBranchPredDepth.tc = t.tc := by
  rcases t.freeBranchPredDepth_cases with ⟨u, -, -, -, -, eq⟩ | ⟨waiting, -, eq⟩
  · rw [eq]
    rfl
  · rw [eq]

theorem advanceInst_retry (cfg : Config) (t : Thread) (pc : PCState)
    (active : t.tc.status = .active) :
    ({ t with advanceInstNeedsRetry := false }).advanceInst cfg pc = t.advanceInst cfg pc := by
  simp only [Thread.advanceInst, active]
  rfl

theorem Inv.advanceComplete (inv : Inv cfg t) (back : t.back = some i) (quiet : t.Quiet)
    (settled : .commitPop ∉ t.calls) (complete : (t.insts i).status = .complete)
    (unsquashed : (t.insts i).squashed = false) :
    Outcome cfg o e t
      (t.advanceInst cfg ((t.insts i).staticInst.advancePC (t.insts i).pcState)) := by
  refine inv.advanceInst ⟨quiet, settled, fun l last => ?_, fun l last => ?_,
    fun l last _ => ?_⟩ (Or.inl ⟨?_, ?_⟩)
  · grind [Status.le_iff, Status.rank]
  · grind
  · grind [Status.le_iff]
  · simp [Thread.getNextPC, back]
  · simp only [Thread.hasNextPC, back, Bool.or_eq_true]
    right
    exact InflightInst.isComplete_iff.mpr (by simp [complete, Status.le_iff])

theorem Inv.resolve_unpredicted (inv : Inv cfg t) (calls : t.calls = .resolveControl i :: rest)
    (back : t.back = some i) (retry : t.advanceInstNeedsRetry = false) :
    Outcome cfg o e t (({ t with calls := rest }).advanceToNextPC cfg) := by
  have mem : Call.resolveControl i ∈ t.calls := by simp [calls]
  obtain ⟨complete, isControl, settled⟩ := inv.stack.resolving i mem
  have unsquashed := (inv.stack.protects _ mem rfl i rfl).2
  have pop : Move cfg o e t { t with calls := rest } := .resolveUnpredicted calls back retry
  have backU : ({ t with calls := rest } : Thread).back = some i := back
  have known : (t.insts i).instRef.isSome = true :=
    (inv.milestones.decoded i).mpr (by simp [complete, Status.le_iff, Status.rank])
  have next : ({ t with calls := rest } : Thread).hasNextPC = true := by
    simp only [Thread.hasNextPC, backU, Bool.or_eq_true]
    right
    exact InflightInst.isComplete_iff.mpr (by simp [complete, Status.le_iff])
  unfold Thread.advanceToNextPC
  rw [if_neg (by simpa [backU, Option.isSome_iff_ne_none] using known), if_pos next]
  have same : ({ t with calls := rest } : Thread).getNextPC
      = (t.insts i).staticInst.advancePC (t.insts i).pcState := by
    simp [Thread.getNextPC, backU]
  rw [same]
  exact .move pop ((inv.move pop).advanceComplete back (inv.toCore.resolve_quiet calls)
    (by simpa [calls] using settled) complete unsquashed)

theorem Inv.resolve_wrong (inv : Inv cfg t) (calls : t.calls = .resolveControl i :: rest)
    (predictor : cfg.hasBranchPredictor = true)
    (followed : t.back ≠ some i ∨ t.advanceInstNeedsRetry = true) :
    Outcome cfg o e t
      (((({ t with calls := rest }).freeBranchPredDepth).squashUpTo cfg i true).advanceInst cfg
        ((({ t with calls := rest } : Thread).freeBranchPredDepth.insts i).staticInst.advancePC
          (({ t with calls := rest } : Thread).freeBranchPredDepth.insts i).pcState)) := by
  have mem : Call.resolveControl i ∈ t.calls := by simp [calls]
  obtain ⟨inside, unsquashed⟩ := inv.stack.protects _ mem rfl i rfl
  obtain ⟨complete, -, settled⟩ := inv.stack.resolving i mem
  have active : t.tc.status = .active := by
    by_contra inactive
    rw [inv.buffer.active inactive] at inside
    simp at inside
  have wrong : Move cfg o e t _ := .resolveWrong calls predictor followed
  have invW := inv.move wrong
  refine .move wrong ?_
  have quiet := inv.toCore.resolve_quiet calls
  have status := freeBranchPredDepth_field { t with calls := rest } (·.status) (fun _ _ => rfl) i
  have flag := freeBranchPredDepth_field { t with calls := rest } (·.squashed) (fun _ _ => rfl) i
  have sameTc := freeBranchPredDepth_tc { t with calls := rest }
  obtain ⟨u, a, vs, w, defU, coreU, buffer, -, callsU, -, eq⟩ := resolveWrong_spec inv.toCore calls
  rw [← defU] at invW status flag sameTc ⊢
  have kept : i ∉ vs := by simpa using Tails.notMem_later inv.heap.ordered buffer
  have self : (u.squashUpTo cfg i true).insts i = u.insts i := by
    rw [eq]
    simp [squashed, flaggedAll, kept]
  rw [← advanceInst_retry cfg _ _ (by rw [eq]; exact (congrArg (·.status) sameTc).trans active),
    ← self]
  refine invW.advanceComplete ?_ ?_ ?_ ?_ ?_
  · rw [eq]
    simp [Thread.back, squashed]
  · intro c pending
    rw [eq] at pending
    exact quiet c (callsU ▸ pending)
  · rw [eq]
    intro pending
    have : Call.commitPop ∈ u.calls := pending
    rw [callsU] at this
    exact settled (by simp [calls, this])
  · exact (congrArg (·.status) self).trans (status.trans complete)
  · exact (congrArg (·.squashed) self).trans (flag.trans unsquashed)

theorem Inv.call_resolveControl (inv : Inv cfg t) (calls : t.calls = .resolveControl i :: rest) :
    Outcome cfg o e t (({ t with calls := rest }).resolveControl cfg i) := by
  have mem : Call.resolveControl i ∈ t.calls := by simp [calls]
  obtain ⟨inside, unsquashed⟩ := inv.stack.protects _ mem rfl i rfl
  obtain ⟨complete, isControl, settled⟩ := inv.stack.resolving i mem
  unfold Thread.resolveControl
  split
  · rename_i predictor
    dsimp only
    split
    · rename_i follows
      have followed : t.back ≠ some i ∨ t.advanceInstNeedsRetry = true :=
        (Bool.or_eq_true_iff.mp follows).imp_left (inv.toCore.following_eq inside).mp
      split
      · rename_i correct
        refine .single (.resolveCorrect calls predictor followed fun pc eq => ?_)
        have static := freeBranchPredDepth_field { t with calls := rest } (·.staticInst)
          (fun _ _ => rfl) i
        have pcs := freeBranchPredDepth_field { t with calls := rest } (·.pcState) (fun _ _ => rfl)
        rw [static, pcs i, freeBranchPredDepth_retryPC] at correct
        simp only [pcs] at correct
        rw [← eq]
        exact correct
      · exact inv.resolve_wrong calls predictor followed
    · rename_i alone
      simp only [Bool.or_eq_true, not_or] at alone
      refine inv.resolve_unpredicted calls ?_ (by simpa using alone.2)
      by_contra follows
      exact alone.1 ((inv.toCore.following_eq inside).mpr follows)
  · rename_i noPredictor
    have last : ¬ (t.inflightInsts.getLast? ≠ some i ∨ t.advanceInstNeedsRetry = true) :=
      fun follows => noPredictor (inv.control.predicted i (inv.control.followed i inside unsquashed
        isControl (by simp [complete, Status.le_iff, Status.rank]) (Or.inr mem) follows))
    refine inv.resolve_unpredicted calls ?_ ?_
    · by_contra follows
      exact last (Or.inl follows)
    · grind

theorem foldl_panicked {α : Type} (f : Thread → α → Thread)
    (keeps : ∀ t a, (f t a).panicked = t.panicked) (l : List α) (t : Thread) :
    (l.foldl f t).panicked = t.panicked := by
  induction l generalizing t with
  | nil => rfl
  | cons a l ih => exact (ih (f t a)).trans (keeps t a)

theorem freeBranchPredDepth_panicked (t : Thread) :
    t.freeBranchPredDepth.panicked = t.panicked := by
  rcases t.freeBranchPredDepth_cases with ⟨u, -, -, -, -, eq⟩ | ⟨waiting, -, eq⟩
  · rw [eq]
    rfl
  · rw [eq]

theorem notifySquashed_panicked (t : Thread) (i : InstId) :
    (t.notifySquashed i).panicked = t.panicked := by
  unfold Thread.notifySquashed
  split
  · rfl
  · refine (foldl_panicked _ (fun t cb => ?_) _ _).trans rfl
    unfold Thread.runSquashCallback
    split
    · split
      · rfl
      · exact freeBranchPredDepth_panicked t
    · rfl

theorem squashUpTo_panicked (cfg : Config) (t : Thread) (i : InstId) (rebuild : Bool) :
    (t.squashUpTo cfg i rebuild).panicked = t.panicked := by
  have victims := foldl_panicked squashBack (fun t v => notifySquashed_panicked t v)
    (t.youngerThan i) t
  cases rebuild with
  | false => exact victims
  | true => exact (foldl_panicked populateUses (fun _ _ => rfl) _ _).trans victims

theorem requestMem_panicked (t : Thread) (i : InstId) : (t.requestMem i).panicked = t.panicked := by
  unfold Thread.requestMem
  split
  · rfl
  · split <;> rfl

theorem decrement_panicked (t : Thread) (g : Gate) (c : InstId) :
    (t.decrement g c).panicked = t.panicked := by
  unfold Thread.decrement
  dsimp only
  split
  · split <;> rfl
  · rfl

theorem Move.panicked {t' : Thread} (move : Move cfg o e t t') (sound : t.panicked = none) :
    t'.panicked = none := by
  cases move with
  | issue =>
    rw [Thread.enterIssue_eq]
    exact sound
  | release | resolveCorrect => exact (freeBranchPredDepth_panicked _).trans sound
  | resolveWrong =>
    exact (squashUpTo_panicked ..).trans ((freeBranchPredDepth_panicked _).trans sound)
  | fault | sendFault =>
    exact (notifySquashed_panicked _ _).trans ((squashUpTo_panicked ..).trans sound)
  | sendLoad | sendStore => exact (requestMem_panicked _ _).trans sound
  | decrement => exact (decrement_panicked _ _ _).trans sound
  | overlap _ _ fine => exact fine
  | _ => exact sound

theorem Moves.panicked {t' : Thread} (moves : Moves cfg o e t t') (sound : t.panicked = none) :
    t'.panicked = none := by
  induction moves with
  | refl => exact sound
  | tail _ move ih => exact move.panicked ih

theorem dependOnOverlap_panics (t : Thread) (i other : InstId) {p : Panic}
    (fine : t.panicked = none) (bad : (t.dependOnOverlap i other).panicked = some p) :
    p = .rangesNotValid := by
  unfold Thread.dependOnOverlap Thread.addDependency at bad
  split at bad
  · grind [Thread.update]
  · simpa [Thread.fail, eq_comm] using bad

theorem runOverlap_panics (t : Thread) {cb : Callback} {other : InstId} {p : Panic}
    (kind : cb = .overlapKnown i other ∨ cb = .overlapOurs i other ∨ cb = .overlapTheirs i other)
    (fine : t.panicked = none) (bad : (t.runCallback cfg cb).panicked = some p) :
    p = .rangesNotValid := by
  rcases kind with rfl | rfl | rfl
  all_goals
    simp only [Thread.runCallback] at bad
    split at bad
    · exact dependOnOverlap_panics t i other fine bad
    · simp [fine] at bad

theorem Inv.call_overlap (_ : Inv cfg t) (sound : t.panicked = none) {cb : Callback}
    {other : InstId} (calls : t.calls = .run cb :: rest)
    (kind : cb = .overlapKnown i other ∨ cb = .overlapOurs i other ∨ cb = .overlapTheirs i other) :
    Outcome cfg t e t (({ t with calls := rest }).runCallback cfg cb) := by
  cases fine : (({ t with calls := rest }).runCallback cfg cb).panicked with
  | some p =>
    have same := runOverlap_panics { t with calls := rest } kind sound fine
    exact Or.inl ⟨p, fine, fun operand => by rw [same] at operand; cases operand⟩
  | none => exact .single (.overlap calls kind fine)

theorem Inv.runCall (inv : Inv cfg t) (sound : t.panicked = none) {c : Call}
    (calls : t.calls = c :: rest) :
    Outcome cfg t e t (({ t with calls := rest }).runCall cfg c) := by
  cases c with
  | run cb =>
    cases cb with
    | decrement => exact .single (.decrement calls)
    | overlapKnown => exact inv.call_overlap sound calls (Or.inl rfl)
    | overlapOurs => exact inv.call_overlap sound calls (Or.inr (Or.inl rfl))
    | overlapTheirs => exact inv.call_overlap sound calls (Or.inr (Or.inr rfl))
    | executeInstruction => exact inv.call_execute calls
    | sendToMemory => exact inv.call_sendToMemory calls
    | squashPredictor n =>
      exact .single (.pop calls (Or.inr (Or.inr ⟨_, rfl, Or.inl ⟨n, rfl⟩⟩)))
    | releaseIfIncomplete i =>
      exact .single (.pop calls (Or.inr (Or.inr ⟨_, rfl, Or.inr ⟨i, rfl⟩⟩)))
  | requestExecution => exact inv.call_requestExecution calls
  | commitAll => exact inv.call_commitAll calls
  | commitPop => exact .single (.popFront calls)
  | resolveControl => exact inv.call_resolveControl calls
  | afterEffAddr => exact inv.call_afterEffAddr calls
  | attemptFetch => exact inv.call_attemptFetch calls

theorem Inv.step (inv : Inv cfg t) (e : Event) :
    (∃ p, t.step cfg e = t.fail p ∧ Blame t e p) ∨ Moves cfg t e t (t.step cfg e) := by
  have settles : t.panicked = none → ∀ r, Outcome cfg t e t r →
      (∃ p, settle t r = t.fail p ∧ Blame t e p) ∨ Moves cfg t e t (settle t r) := by
    rintro sound r (⟨p, bad, blame⟩ | moves)
    · exact Or.inl ⟨p, by simp [settle, bad], blame⟩
    · right
      have fine : r.panicked = none := moves.panicked sound
      simpa [settle, fine] using moves
  unfold Thread.step
  split
  · exact Or.inr .refl
  · rename_i going
    have sound : t.panicked = none := by simpa using going
    split
    · rename_i c rest calls
      exact settles sound _ (inv.runCall sound calls)
    · rename_i calls
      exact settles sound _ (inv.handleEvent calls)

theorem Inv.fail (inv : Inv cfg t) (p : Panic) : Inv cfg (t.fail p) :=
  { inv with }

theorem Inv.stepped (inv : Inv cfg t) (e : Event) : Inv cfg (t.step cfg e) := by
  rcases inv.step e with ⟨p, eq, -⟩ | moves
  · rw [eq]
    exact inv.fail p
  · exact inv.moves moves

end Calls

end Gem5.FlexCPU
