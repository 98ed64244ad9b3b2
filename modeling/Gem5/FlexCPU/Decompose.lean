import Gem5.FlexCPU.CoreSettled
import Mathlib.Logic.Relation

/-!
# Steps are sequences of moves

Each handler is taken apart once. In a state that satisfies the invariant a step
either panics or is a sequence of moves, so a property that moves preserve holds
in every reachable state.
-/

namespace Gem5.FlexCPU

open Thread

variable {vaddr : Addr} {k : Nat}

abbrev Moves (cfg : Config) (o : Thread) (e : Event) : Thread → Thread → Prop :=
  Relation.ReflTransGen (Move cfg o e)

/-- The assertions of `readIntRegOperand`. -/
def Panic.operand : Panic → Bool
  | producerNotComplete => true
  | resultNotValid => true
  | _ => false

/-- Only an execution that reads its operands runs into these assertions. -/
def Blame (o : Thread) (e : Event) (p : Panic) : Prop :=
  p.operand = true → ∃ i before after, e.Serves o (.delayedCall i)
    ∧ o.Serves (.delayedCall i) before after ∧ o.calls = []
    ∧ ({ o with requests := before ++ after }).alive i = true
    ∧ ({ o with requests := before ++ after }).readOperands i = .error p

/-- A handler panics or makes moves. -/
def Outcome (cfg : Config) (o : Thread) (e : Event) (t r : Thread) : Prop :=
  (∃ p, r.panicked = some p ∧ Blame o e p) ∨ Moves cfg o e t r

section Outcome

variable {cfg : Config} {o : Thread} {e : Event} {t u r : Thread}

theorem Outcome.refl : Outcome cfg o e t t := Or.inr Relation.ReflTransGen.refl

theorem Outcome.move (move : Move cfg o e t u) (rest : Outcome cfg o e u r) : Outcome cfg o e t r :=
  rest.imp_right fun moves => Relation.ReflTransGen.head move moves

theorem Outcome.single (move : Move cfg o e t u) : Outcome cfg o e t u := Outcome.refl.move move

theorem Outcome.fail (t u : Thread) {p : Panic} (other : p.operand = false) :
    Outcome cfg o e t (u.fail p) :=
  Or.inl ⟨p, rfl, fun operand => by rw [other] at operand; cases operand⟩

theorem Inv.moves (inv : Inv cfg t) (moves : Moves cfg o e t u) : Inv cfg u := by
  induction moves with
  | refl => exact inv
  | tail _ move ih => exact ih.move move

end Outcome

section Facts

variable {cfg : Config} {o : Thread} {e : Event} {t : Thread} {i : InstId} {s : Status}

theorem InflightInst.isComplete_iff {x : InflightInst} :
    x.isComplete = true ↔ Status.complete ≤ x.status := decide_eq_true_iff

theorem Core.inside (inv : Core cfg t) (lt : i < t.nextInst)
    (unsquashed : (t.insts i).squashed = false) (early : (t.insts i).status < .complete) :
    i ∈ t.inflightInsts := by
  by_contra outside
  obtain ⟨-, done | ⟨-, done⟩⟩ := inv.milestones.left i lt outside unsquashed
  · grind [Status.lt_iff, Status.rank]
  · grind [Status.lt_iff]

theorem Core.idle_served (inv : Core cfg t) {r : Request} {before after : List Request}
    (serves : t.Serves r before after) (carries : r.carries = true)
    (unsquashed : (t.insts r.inst).squashed = false) (status : (t.insts r.inst).status = s)
    (early : s < .complete) :
    ({ t with requests := before ++ after }).Idle r.inst s where
  mem := inv.inside (inv.heap.requests_lt r (by simp [serves.split])) unsquashed (status ▸ early)
  unsquashed := unsquashed
  stage := by
    have single := inv.tokens.single r.inst unsquashed
    rw [serves.split] at single
    exact stage_remove_token (Request.isToken_iff.mpr ⟨carries, rfl⟩) single
  status := status

theorem Core.idle_called (inv : Core cfg t) {c : Call} {rest : List Call}
    (calls : t.calls = c :: rest) (carries : c.carries = true) (target : c.inst = some i)
    (unsquashed : (t.insts i).squashed = false) (status : (t.insts i).status = s)
    (early : s < .complete) : ({ t with calls := rest }).Idle i s where
  mem := inv.inside (inv.heap.calls_lt c (by simp [calls]) i target) unsquashed (status ▸ early)
  unsquashed := unsquashed
  stage := by
    have single := inv.tokens.single i unsquashed
    rw [calls, stage_cons, if_pos (Call.isToken_iff.mpr ⟨carries, target⟩)] at single
    change stage t.requests rest i = 0
    omega
  status := status

theorem Inv.advanceInst (inv : Inv cfg t) (can : t.CanAdvance) {pc : PCState}
    (next : t.NextPC pc) : Outcome cfg o e t (t.advanceInst cfg pc) := by
  unfold Thread.advanceInst
  split
  · exact Outcome.refl
  · rename_i active
    have active : t.tc.status = .active := by simpa using active
    split
    · rename_i full
      exact Outcome.single (.stall can full active next)
    · rename_i room
      have room : t.bufferFull cfg = false := by simpa using room
      dsimp only
      split
      · exact Outcome.fail _ _ rfl
      · split
        · grind [inv.noMacroOp]
        · exact Outcome.single (.extend can room active next)

theorem Thread.CanAdvance.of_empty (buffer : t.inflightInsts = []) (quiet : t.Quiet)
    (settled : .commitPop ∉ t.calls) : t.CanAdvance where
  quiet := quiet
  settled := settled
  issued := by simp [Thread.back, buffer]
  unsquashed := by simp [Thread.back, buffer]
  control := by simp [Thread.back, buffer]

theorem Inv.advanceEmpty (inv : Inv cfg t) (buffer : t.inflightInsts = []) (quiet : t.Quiet)
    (settled : .commitPop ∉ t.calls) : Outcome cfg o e t (t.advanceToNextPC cfg) := by
  have none : t.back = none := by simp [Thread.back, buffer]
  have known : t.hasNextPC = true := by simp [Thread.hasNextPC, none]
  unfold Thread.advanceToNextPC
  rw [none]
  simp only [known]
  exact inv.advanceInst (.of_empty buffer quiet settled) (Or.inl ⟨rfl, known⟩)

end Facts

section Serve

variable {cfg : Config} {o : Thread} {e : Event} {t : Thread} {i : InstId} {before after : List Request}

theorem Thread.Serves.mem {r : Request} (serves : t.Serves r before after) : r ∈ t.requests := by
  simp [serves.split]

theorem Inv.forward (inv : Inv cfg t) {r q : Request} (serves : t.Serves r before after)
    (calls : t.calls = []) (spent : t.Spent r) (carries : r.carries = true)
    (token : q.isToken r.inst = true)
    (status : (t.insts r.inst).squashed = false → (t.insts r.inst).status < .complete)
    (fits : (t.insts r.inst).squashed = false → q.Fits (t.insts r.inst))
    (unit : q.queue ≠ some .issueThreadUnit
      ∧ (q.queue = some .instFetchUnit → (t.insts r.inst).squashed = false)) :
    Outcome cfg o e t (({ t with requests := before ++ after }).request q) := by
  refine .move (.drop serves spent calls) (.single (.enqueue token ?_ unit))
  by_cases squashed : (t.insts r.inst).squashed = true
  · exact Or.inl squashed
  · have open_ : (t.insts r.inst).squashed = false := by simpa using squashed
    exact Or.inr ⟨inv.toCore.idle_served serves carries open_ rfl (status open_), fits open_⟩

theorem Inv.drops (_ : Inv cfg t) {r : Request} (serves : t.Serves r before after)
    (calls : t.calls = []) (spent : t.Spent r) :
    Outcome cfg o e t { t with requests := before ++ after } :=
  .single (.drop serves spent calls)

theorem Inv.faults_served (inv : Inv cfg t) {r : Request} {s : Status}
    (serves : t.Serves r before after) (calls : t.calls = []) (spent : t.Spent r)
    (carries : r.carries = true) (unsquashed : (t.insts r.inst).squashed = false)
    (status : (t.insts r.inst).status = s) (kind : s = .empty ∨ s = .executing) {f : Fault}
    (cause : FaultCause e t r.inst f) :
    Outcome cfg o e t (({ t with requests := before ++ after }).markFault cfg r.inst f) := by
  have early : s < .memorying := by rcases kind with rfl | rfl <;> simp [Status.lt_iff, Status.rank]
  have low : s < .complete := Nat.lt_trans early (by simp [Status.rank])
  have idle := inv.toCore.idle_served serves carries unsquashed status low
  have fewer := inv.toCore.removeRequest serves.split
  refine .move (.drop serves spent calls) (.single (.fault (idle.status ▸ idle) ?_ ?_ calls cause))
  · rw [idle.status]
    exact kind.imp_right Or.inl
  · exact fewer.unsent unsquashed (by rw [idle.status]; exact early)

theorem Inv.serve_itb (inv : Inv cfg t) (ans : Answer)
    (serves : t.Serves (.itb i vaddr) before after) (calls : t.calls = []) :
    Outcome cfg t (.serve k ans) t
      (({ t with requests := before ++ after }).serveRequest cfg ans (.itb i vaddr)) := by
  have fits := inv.tokens.request_fits _ serves.mem
  simp only [Thread.serveRequest]
  split
  · rename_i live
    have unsquashed := (live_unsquashed live).2
    have status : (t.insts i).status = .empty := fits unsquashed
    split
    · rename_i f fault
      exact inv.faults_served serves calls trivial rfl unsquashed status (Or.inl rfl)
        (Or.inl ⟨k, ans, rfl, fault⟩)
    · exact inv.forward serves calls trivial rfl
        (by simp [Request.isToken, Request.carries, Request.inst])
        (fun _ => by simp [Request.inst, status, Status.lt_iff, Status.rank]) (fun _ => status)
        ⟨by simp [Request.queue], fun _ => unsquashed⟩
  · exact inv.drops serves calls trivial

theorem Inv.serve_fetch (inv : Inv cfg t) (ans : Answer)
    (serves : t.Serves (.fetch i vaddr) before after) (calls : t.calls = []) :
    Outcome cfg t (.serve k ans) t
      (({ t with requests := before ++ after }).serveRequest cfg ans (.fetch i vaddr)) := by
  have fits := inv.tokens.request_fits _ serves.mem
  simp only [Thread.serveRequest]
  split
  · exact inv.drops serves calls trivial
  · exact inv.forward serves calls trivial rfl
      (by simp [Request.isToken, Request.carries, Request.inst])
      (fun open_ => by
        have status : (t.insts i).status = .empty := fits open_
        simp [Request.inst, status, Status.lt_iff, Status.rank]) fits (by simp [Request.queue])

theorem Inv.serve_fetchResp (inv : Inv cfg t) (ans : Answer)
    (serves : t.Serves (.fetchResp i vaddr) before after) (calls : t.calls = []) :
    Outcome cfg t (.serve k ans) t
      (({ t with requests := before ++ after }).serveRequest cfg ans (.fetchResp i vaddr)) := by
  have fits := inv.tokens.request_fits _ serves.mem
  have filled : Move cfg t (.serve k ans) { t with requests := before ++ after }
      (({ t with requests := before ++ after }).bufferInstructionData vaddr ans.fetched) :=
    .fill ⟨k, ans, rfl, rfl⟩
  simp only [Thread.serveRequest]
  refine .move (.drop serves trivial calls) (.move filled ?_)
  split
  · rename_i live
    have unsquashed : (t.insts i).squashed = false := (live_unsquashed live).2
    have idle := inv.toCore.idle_served serves rfl unsquashed (fits unsquashed)
      (by simp [Status.lt_iff, Status.rank])
    exact .single (.refetch ⟨idle.mem, idle.unsquashed, idle.stage, idle.status⟩ calls)
  · exact .refl

theorem Inv.serve_issueTid (inv : Inv cfg t) (ans : Answer)
    (serves : t.Serves (.issueTid i) before after) (calls : t.calls = []) :
    Outcome cfg t (.serve k ans) t
      (({ t with requests := before ++ after }).serveRequest cfg ans (.issueTid i)) := by
  have fits := inv.tokens.request_fits _ serves.mem
  simp only [Thread.serveRequest]
  split
  · exact inv.drops serves calls trivial
  · rename_i unsquashed
    have unsquashed : (t.insts i).squashed = false := by simpa using unsquashed
    have idle := inv.toCore.idle_served serves rfl unsquashed (fits unsquashed)
      (by simp [Status.lt_iff, Status.rank])
    refine .move (.drop serves trivial calls) (.single ?_)
    unfold Thread.onIssueTidAccessed
    have same : ((({ t with requests := before ++ after }).setStatus i .issuedTid).insts i).isReady
        = (t.insts i).isReady :=
      keep (x := { t.insts i with status := .issuedTid }) (·.isReady) rfl i
    dsimp only
    split
    · rename_i ready
      rw [same] at ready
      exact .enterTid idle calls (by simpa [InflightInst.isReady] using ready)
    · rename_i unready
      rw [same] at unready
      exact .waitTid idle calls (by simpa [InflightInst.isReady] using unready)

theorem Inv.serve_exec (inv : Inv cfg t) (ans : Answer)
    (serves : t.Serves (.exec i) before after) (calls : t.calls = []) :
    Outcome cfg t (.serve k ans) t
      (({ t with requests := before ++ after }).serveRequest cfg ans (.exec i)) := by
  have fits := inv.tokens.request_fits _ serves.mem
  simp only [Thread.serveRequest]
  split
  · exact inv.forward serves calls trivial rfl
      (by simp [Request.isToken, Request.carries, Request.inst])
      (fun open_ => by
        have status : (t.insts i).status = .executing := (fits open_).1
        simp [Request.inst, status, Status.lt_iff, Status.rank]) fits (by simp [Request.queue])
  · exact inv.drops serves calls trivial

theorem Inv.afterIssue (inv : Inv cfg t) (back : t.back = some i) (calls : t.calls = [])
    (status : (t.insts i).status = .issued) (unsquashed : (t.insts i).squashed = false)
    (retry : t.advanceInstNeedsRetry = false) (unpredicted : ¬ Predicted (t.insts i) i)
    (unasked : .bpred i ∉ t.requests) (other : t.unpredictedBranch ≠ some i) :
    Outcome cfg o e t
      (if t.hasNextPC then t.advanceInst cfg t.getNextPC else t.requestPrediction cfg i) := by
  have issued : Status.issued ≤ (t.insts i).status := by simp [status, Status.le_iff]
  split
  · rename_i known
    refine inv.advanceInst ⟨by simp [Quiet, calls], by simp [calls], fun l last => ?_,
      fun l last => ?_, fun l last isControl => ?_⟩ (Or.inl ⟨rfl, known⟩)
    · grind
    · grind
    · left
      have complete : (t.insts l).isComplete = true := by
        simpa [Thread.hasNextPC, last, isControl] using known
      exact InflightInst.isComplete_iff.mp complete
  · rename_i unknown
    have isControl : (t.insts i).staticInst.isControl = true := by
      simp only [Thread.hasNextPC, back, Bool.or_eq_true, not_or] at unknown
      simpa using unknown.1
    unfold Thread.requestPrediction
    split
    · rename_i predictor
      have can : t.Unpredicted cfg i :=
        { predictor := predictor
          control := isControl
          issued := issued
          unsquashed := unsquashed
          unpredicted := unpredicted
          unasked := unasked
          back := back
          incomplete := by simp [status, Status.lt_iff, Status.rank]
          retry := retry }
      split
      · rename_i depth
        exact .single (.defer can depth calls)
      · rename_i depth
        exact .single (.reserve can (Nat.pos_of_ne_zero depth) other calls)
    · exact .refl

theorem Inv.serve_issue (inv : Inv cfg t) (ans : Answer)
    (serves : t.Serves (.issue i) before after) (calls : t.calls = [])
    (served : Event.Serves (.serve k ans) t (.issue i)) :
    Outcome cfg t (.serve k ans) t
      (({ t with requests := before ++ after }).serveRequest cfg ans (.issue i)) := by
  have fits := inv.tokens.request_fits _ serves.mem
  simp only [Thread.serveRequest]
  split
  · rename_i live
    have unsquashed : (t.insts i).squashed = false := (live_unsquashed live).2
    have status : (t.insts i).status = .decoded := fits unsquashed
    let u : Thread := { t with requests := before ++ after }
    have drop : Move cfg t (.serve k ans) t u := .drop serves trivial calls
    have invU : Inv cfg u := inv.move drop
    have idle : u.Idle i .decoded := inv.toCore.idle_served serves rfl unsquashed status
      (by simp [Status.lt_iff, Status.rank])
    have back : u.back = some i := by
      by_contra notLast
      have := invU.buffer.issued i idle.mem notLast
      rw [idle.status] at this
      simp [Status.le_iff, Status.rank] at this
    have issue : Move cfg t (.serve k ans) u (u.enterIssue cfg i) :=
      .issue idle back calls served rfl
    have invV := invU.move issue
    have early : (u.insts i).status < .issued := by
      simp [idle.status, Status.lt_iff, Status.rank]
    refine .move (.drop serves trivial calls) (.move issue ?_)
    have same : (if ((u.enterIssue cfg i).insts i).staticInst.isLastMicroop then
        { u.enterIssue cfg i with curMacroOp := none } else u.enterIssue cfg i)
        = u.enterIssue cfg i := by
      split
      · have none := invV.noMacroOp
        generalize u.enterIssue cfg i = v at none
        cases v
        simp_all
      · rfl
    unfold Thread.onIssueAccessed
    dsimp only
    rw [same]
    have form := Thread.enterIssue_eq cfg u i
    refine invV.afterIssue ?_ ?_ ?_ ?_ ?_ ?_ ?_ ?_
    · rw [form]
      exact back
    · rw [form]
      exact calls
    · rw [form]
      simp [Thread.request, issuedInst, issuedInsts]
    · rw [form]
      simpa [Thread.request, issuedInst, issuedInsts] using idle.unsquashed
    · rw [form]
      change u.advanceInstNeedsRetry = false
      by_contra again
      have := (invU.control.retrying (by simpa using again) i back).1
      exact absurd this (Nat.not_le.mpr early)
    · have none := (invU.milestones.unissued i early).2
      rw [form]
      have squash : (issuedInst cfg u i).squashCallbacks = (u.insts i).squashCallbacks :=
        restatus_squashCallbacks ..
      simp [Thread.request, Predicted, squash, none]
    · rw [form]
      intro asked
      have old : .bpred i ∈ u.requests := by simpa [Thread.request] using asked
      have := (invU.control.asked i old idle.unsquashed).2.2.1
      exact absurd this (Nat.not_le.mpr early)
    · rw [form]
      intro waiting
      have := (invU.control.waiting i waiting).2.2.1
      exact absurd this (Nat.not_le.mpr early)
  · exact inv.drops serves calls trivial

theorem initiateMemAccess_outcome (acc : Access)
    (memRef : (t.insts i).squashed = false → (t.insts i).staticInst.isMemRef = true)
    (idle : (t.insts i).squashed = true ∨ t.Idle i .executing)
    (twice : (t.insts i).squashed = false → (t.insts i).fired .beginExec = 2) :
    Outcome cfg o e t (t.initiateMemAccess cfg i acc) := by
  unfold Thread.initiateMemAccess
  dsimp only
  split
  · exact .fail _ _ rfl
  · refine .move (.setAccess idle) (.single (.enqueue (i := i) ?_ ?_ (by simp [Request.queue])))
    · simp [Request.isToken, Request.carries, Request.inst]
    · rcases idle with squashed | idle
      · left
        simpa [Thread.update] using squashed
      · right
        have open_ := idle.unsquashed
        refine ⟨⟨idle.mem, ?_, idle.stage, rfl⟩, ?_⟩
        · simpa [Thread.update] using open_
        · have status := idle.status
          have memRef := memRef open_
          have twice := twice open_
          simp only [InflightInst.staticInst] at memRef
          simp [Request.Fits, Thread.update, status, InflightInst.staticInst, memRef, twice]

theorem Inv.serve_delayedCall (inv : Inv cfg t) (ans : Answer)
    (serves : t.Serves (.delayedCall i) before after) (calls : t.calls = [])
    (served : Event.Serves (.serve k ans) t (.delayedCall i)) :
    Outcome cfg t (.serve k ans) t
      (({ t with requests := before ++ after }).serveRequest cfg ans (.delayedCall i)) := by
  have fits := inv.tokens.request_fits _ serves.mem
  let u : Thread := { t with requests := before ++ after }
  have drop : Move cfg t (.serve k ans) t u := .drop serves trivial calls
  have invU : Inv cfg u := inv.move drop
  have idleU : (u.insts i).squashed = false → u.Idle i .executing := fun open_ =>
    inv.toCore.idle_served serves rfl open_ (fits open_).1 (by simp [Status.lt_iff, Status.rank])
  have idle : (u.insts i).squashed = true ∨ u.Idle i .executing := by grind
  have faulty : ∀ f, u.live i = true → FaultCause (.serve k ans) t i f →
      Outcome cfg t (.serve k ans) t (u.markFault cfg i f) := fun f live =>
    inv.faults_served serves calls trivial rfl (live_unsquashed live).2
      (fits (live_unsquashed live).2).1 (Or.inr rfl)
  change Outcome cfg t (.serve k ans) t (u.delayedCall cfg i)
  unfold Thread.delayedCall
  dsimp only
  split
  · rename_i alive
    split
    · rename_i p bad
      exact Or.inl ⟨p, rfl, fun _ => ⟨i, before, after, served, serves, calls, alive, bad⟩⟩
    · rename_i vals operands
      split
      · rename_i memRef
        split
        · rename_i acc _
          exact .move drop (initiateMemAccess_outcome acc (fun _ => memRef) idle fun open_ =>
            (fits open_).2)
        · rename_i f _
          split
          · rename_i live
            exact faulty f live (Or.inr (Or.inr memRef))
          · exact .single drop
      · rename_i plain
        have plain : (u.insts i).staticInst.isMemRef = false := by simpa using plain
        split
        · rename_i results pc value
          refine .move drop (.move (.execResult idle plain operands value) ?_)
          split
          · rename_i live
            have open_ : (u.insts i).squashed = false := by
              simpa [Thread.update, InflightInst.setResults] using (live_unsquashed live).2
            have idle := idleU open_
            refine .single (.complete ?_ (invU.heap.bounded i idle.mem) idle.stage ?_ ?_
              (Or.inl ⟨idle.mem, ?_, ?_, ?_⟩) calls (Or.inl ⟨served, ?_⟩))
            · simpa [Thread.update, InflightInst.setResults] using open_
            · have none := invU.milestones.fired_zero i .completion open_ (by simp) (by
                simp [idle.status, Status.lt_iff, Status.rank, Milestone.status])
              simpa [Thread.update, InflightInst.setResults] using none
            · exact invU.toCore.unsent open_ (by
                simp [idle.status, Status.lt_iff, Status.rank])
            · simpa [Thread.update, InflightInst.setResults] using idle.status
            · have twice : (u.insts i).fired .beginExec = 2 := (fits open_).2
              simpa [Thread.update, InflightInst.setResults] using twice
            · simpa [Thread.update, InflightInst.setResults, InflightInst.staticInst] using plain
            · simpa [Thread.update, InflightInst.setResults] using idle.status
          · exact .refl
        · rename_i f value
          split
          · rename_i live
            exact faulty f live (Or.inr (Or.inl ⟨vals, value⟩))
          · exact .single drop
  · exact .single drop

theorem Core.unpredicted_served (inv : Core cfg t) (serves : t.Serves (.bpred i) before after)
    (unsquashed : (t.insts i).squashed = false) (early : (t.insts i).status < .complete) :
    ({ t with requests := before ++ after }).Unpredicted cfg i := by
  obtain ⟨predictor, isControl, issued, unpredicted, once⟩ :=
    inv.control.asked i serves.mem unsquashed
  have mem := inv.inside (inv.heap.requests_lt _ serves.mem) unsquashed early
  have last : ¬ (t.inflightInsts.getLast? ≠ some i ∨ t.advanceInstNeedsRetry = true) :=
    fun follows => unpredicted
      (inv.control.followed i mem unsquashed isControl issued (Or.inl early) follows)
  have unasked : .bpred i ∉ before ++ after := by
    rw [serves.split, List.count_append, List.count_cons_self] at once
    intro more
    have := List.count_pos_iff.mpr more
    rw [List.count_append] at this
    omega
  exact
    { predictor := predictor
      control := isControl
      issued := issued
      unsquashed := unsquashed
      unpredicted := unpredicted
      unasked := unasked
      back := by aesop
      incomplete := early
      retry := by
        by_contra again
        exact last (Or.inr (by simpa using again)) }

theorem Inv.follow (inv : Inv cfg t) (serves : t.Serves (.bpred i) before after)
    (can : ({ t with requests := before ++ after }).Unpredicted cfg i)
    (active : t.tc.status = .active) (calls : t.calls = []) {pc : PCState}
    (micro : pc.upc = (t.insts i).pcState.upc ∧ pc.nupc = (t.insts i).pcState.nupc) :
    Outcome cfg o e t ((({ t with requests := before ++ after }).holdSlot i).advanceInst cfg pc) := by
  have status : (({ t with requests := before ++ after }).holdSlot i).tc.status = .active := active
  unfold Thread.advanceInst
  rw [if_neg (by simp [status])]
  split
  · rename_i full
    exact .single (.predictStall serves can calls full active micro)
  · rename_i room
    have room : t.bufferFull cfg = false := Bool.eq_false_iff.mpr room
    dsimp only
    split
    · exact .fail _ _ rfl
    · split
      · rename_i macroOp known
        have : t.curMacroOp = some macroOp := known
        rw [inv.noMacroOp] at this
        cases this
      · exact .single (.predictExtend serves can calls room active micro)

theorem Inv.serve_bpred (inv : Inv cfg t) (ans : Answer)
    (serves : t.Serves (.bpred i) before after) (calls : t.calls = []) :
    Outcome cfg t (.serve k ans) t
      (({ t with requests := before ++ after }).serveRequest cfg ans (.bpred i)) := by
  simp only [Thread.serveRequest, Thread.onBranchPredictorAccessed]
  split
  · exact .single (.release serves calls)
  · rename_i pending
    simp only [Bool.or_eq_true, not_or] at pending
    obtain ⟨⟨⟨-, -⟩, unsquashed⟩, incomplete⟩ := pending
    have unsquashed : (t.insts i).squashed = false := by simpa using unsquashed
    have early : (t.insts i).status < .complete :=
      Nat.lt_of_not_le fun done => incomplete (InflightInst.isComplete_iff.mpr done)
    have can := inv.toCore.unpredicted_served serves unsquashed early
    have active : t.tc.status = .active := by
      by_contra inactive
      have := List.mem_of_getLast? can.back
      rw [show t.inflightInsts = [] from inv.buffer.active inactive] at this
      simp at this
    have either : ∀ wrong : Bool, Outcome cfg t (.serve k ans) t
        (if wrong then ({ t with requests := before ++ after }).freeBranchPredDepth
        else (({ t with requests := before ++ after }).holdSlot i).advanceInst cfg
          { (t.insts i).pcState with pc := ans.target, npc := ans.targetNpc }) := by
      intro wrong
      split
      · exact .single (.release serves calls)
      · exact inv.follow serves can active calls ⟨rfl, rfl⟩
    exact either _

theorem Inv.serve_dtb (inv : Inv cfg t) {pending : List Half} (ans : Answer)
    (serves : t.Serves (.dtb i pending) before after) (calls : t.calls = []) :
    Outcome cfg t (.serve k ans) t
      (({ t with requests := before ++ after }).serveRequest cfg ans (.dtb i pending)) := by
  have fits := inv.tokens.request_fits _ serves.mem
  let u : Thread := { t with requests := before ++ after }
  have drop : Move cfg t (.serve k ans) t u := .drop serves trivial calls
  change Outcome cfg t (.serve k ans) t (u.onDataAddrTranslated cfg i pending ans.half ans.fault ans.paddr)
  unfold Thread.onDataAddrTranslated
  split
  · rename_i live
    have unsquashed : (t.insts i).squashed = false := (live_unsquashed live).2
    obtain ⟨status, twice, memRef⟩ := fits unsquashed
    split
    · rename_i f fault
      exact inv.faults_served serves calls trivial rfl unsquashed status (Or.inr rfl)
        (Or.inl ⟨k, ans, rfl, fault⟩)
    · have idle : u.Idle i .executing := inv.toCore.idle_served serves rfl unsquashed status
        (by simp [Status.lt_iff, Status.rank])
      have keeps : ∀ {β : Type} (φ : InflightInst → β),
          (∀ x range, φ { x with accessedSplitPAddrs := range } = φ x) →
          (∀ x range, φ { x with accessedPAddrs := range } = φ x) →
          φ ((u.setPAddrs cfg i ans.half ans.paddr).insts i) = φ (u.insts i) := by
        intro β φ high low
        simp only [Thread.setPAddrs, Thread.update, Function.update_self]
        split
        · exact high ..
        · exact low ..
      have idle' : (u.setPAddrs cfg i ans.half ans.paddr).Idle i .executing :=
        { mem := idle.mem
          unsquashed := (keeps (·.squashed) (fun _ _ => rfl) fun _ _ => rfl).trans idle.unsquashed
          stage := idle.stage
          status := (keeps (·.status) (fun _ _ => rfl) fun _ _ => rfl).trans idle.status }
      have memRef' := (keeps (·.staticInst.isMemRef) (fun _ _ => rfl) fun _ _ => rfl).trans memRef
      have twice' := (keeps (·.fired .beginExec) (fun _ _ => rfl) fun _ _ => rfl).trans twice
      have placed : Move cfg t (.serve k ans) u (u.setPAddrs cfg i ans.half ans.paddr) :=
        .setPAddrs idle memRef calls
      refine .move drop (.move placed ?_)
      split
      · exact .single (.effAddr idle' twice' memRef' calls)
      · refine .single (.enqueue (i := i) ?_ (Or.inr ⟨idle'.status.symm ▸ idle', ?_⟩)
          (by simp [Request.queue]))
        · simp [Request.isToken, Request.carries, Request.inst]
        · exact ⟨idle'.status, twice', memRef'⟩
  · exact .single drop

theorem Inv.serve_mem (inv : Inv cfg t) {p : Packet} (ans : Answer)
    (serves : t.Serves (.mem p) before after) (calls : t.calls = []) :
    Outcome cfg t (.serve k ans) t
      (({ t with requests := before ++ after }).serveRequest cfg ans (.mem p)) := by
  have same : p.write = false →
      t.alive p.inst = ({ t with requests := before ++ after }).alive p.inst := by
    intro read
    simp [Thread.alive, serves.split, Request.holds, read]
  simp only [Thread.serveRequest, Thread.sendPacket]
  split
  · rename_i go
    refine .single (.transmit serves ?_ calls)
    cases write : p.write with
    | true => rfl
    | false => simpa [write, same write] using go
  · rename_i stop
    have stop : p.write = false ∧ ({ t with requests := before ++ after }).alive p.inst = false := by
      simpa using stop
    exact inv.drops serves calls ⟨stop.1, (same stop.1).trans stop.2⟩

theorem Inv.serve_memResp (inv : Inv cfg t) {p : Packet} (ans : Answer)
    (serves : t.Serves (.memResp p) before after) (calls : t.calls = [])
    (served : Event.Serves (.serve k ans) t (.memResp p)) :
    Outcome cfg t (.serve k ans) t
      (({ t with requests := before ++ after }).serveRequest cfg ans (.memResp p)) := by
  have lt : p.inst < t.nextInst := inv.heap.requests_lt _ serves.mem
  have fits := inv.tokens.request_fits _ serves.mem
  let u : Thread := { t with requests := before ++ after }
  have drop : Move cfg t (.serve k ans) t u := .drop serves trivial calls
  have invU : Inv cfg u := inv.move drop
  have late : (t.insts p.inst).squashed = false →
      Status.memorying ≤ (t.insts p.inst).status := fun open_ => by
    rcases (fits open_).2.2.2 with status | ⟨-, status⟩
    · simp [show (t.insts p.inst).status = _ from status, Status.le_iff]
    · simp [show (t.insts p.inst).status = _ from status, Status.le_iff, Status.rank]
  have stage : (t.insts p.inst).squashed = false → stage u.requests u.calls p.inst = 0 :=
    fun open_ => invU.toCore.stage_zero open_ (late open_)
  have single : u.requests.any (awaitsPacket p.inst) = false →
      t.requests.countP (awaitsPacket p.inst) = 1 := fun last => by
    have none : (before ++ after).countP (awaitsPacket p.inst) = 0 :=
      List.countP_eq_zero.mpr fun r mem => by simpa using List.any_eq_false.mp last r mem
    rw [List.countP_append] at none
    rw [serves.split, List.countP_append, List.countP_cons_of_pos (by simp [awaitsPacket])]
    omega
  change Outcome cfg t (.serve k ans) t (u.completeMemAccess cfg p ans.data)
  unfold Thread.completeMemAccess
  dsimp only
  split
  · exact .single drop
  · rename_i last
    have last : u.requests.any (awaitsPacket p.inst) = false := by simpa using last
    split
    · rename_i write
      have open_ := (inv.writes _ serves.mem p rfl write).1
      obtain ⟨pending, memRef, kind, status⟩ := fits open_
      refine .move drop (.single (.complete open_ lt (stage open_) pending last ?_ calls
        (Or.inr ⟨p, served, rfl, calls, single last, rfl⟩)))
      rcases status with status | ⟨store, status⟩
      · exact Or.inr (Or.inl ⟨inv.toCore.inside lt open_ (by
          simp [show (t.insts p.inst).status = _ from status, Status.lt_iff, Status.rank]),
          status, memRef⟩)
      · exact Or.inr (Or.inr ⟨status, store⟩)
    · rename_i read
      have read : p.write = false := by simpa using read
      have memorying : (t.insts p.inst).squashed = false →
          (t.insts p.inst).status = .memorying := fun open_ => by
        obtain ⟨-, -, kind, status | ⟨store, -⟩⟩ := fits open_
        · exact status
        · grind
      have inside : (t.insts p.inst).squashed = false → p.inst ∈ t.inflightInsts := fun open_ =>
        inv.toCore.inside lt open_ (by simp [memorying open_, Status.lt_iff, Status.rank])
      split
      · split
        · rename_i vals _
          have loaded : Move cfg t (.serve k ans) t (u.update p.inst (·.setResults vals)) :=
            .loadResult serves read calls
          refine .move loaded ?_
          have same : ∀ {β : Type} (φ : InflightInst → β),
              (∀ x : InflightInst, φ (x.setResults vals) = φ x) →
              φ ((u.update p.inst (·.setResults vals)).insts p.inst) = φ (t.insts p.inst) := by
            intro β φ keeps
            simp [Thread.update, keeps, u]
          split
          · rename_i live
            have open_ : (t.insts p.inst).squashed = false :=
              (same (·.squashed) fun _ => rfl).symm.trans (live_unsquashed live).2
            obtain ⟨pending, memRef, -, -⟩ := fits open_
            exact .single (.complete ((same (·.squashed) fun _ => rfl).trans open_) lt
              (stage open_) ((same (·.fired .completion) fun _ => rfl).trans pending) last
              (Or.inr (Or.inl ⟨inside open_, (same (·.status) fun _ => rfl).trans (memorying open_),
                (same (·.staticInst.isMemRef) fun _ => rfl).trans memRef⟩)) calls
              (Or.inr ⟨p, served, rfl, calls, single last, (same (·.status) fun _ => rfl).symm⟩))
          · exact .refl
        · rename_i f _
          split
          · rename_i live
            have open_ : (t.insts p.inst).squashed = false := (live_unsquashed live).2
            have idle : u.Idle p.inst (u.insts p.inst).status :=
              ⟨inside open_, open_, stage open_, rfl⟩
            have load : (t.insts p.inst).staticInst.isStore = false :=
              (fits open_).2.2.1.symm.trans read
            exact .move drop (.single (.fault idle (Or.inr (Or.inr ⟨memorying open_, load⟩)) last
              calls (Or.inr (Or.inr (fits open_).2.1))))
          · exact .single drop
      · exact .single drop

theorem Inv.serve (inv : Inv cfg t) {k : Nat} {r : Request} (ans : Answer)
    (serves : t.Serves r before after) (calls : t.calls = [])
    (served : Event.Serves (.serve k ans) t r) :
    Outcome cfg t (.serve k ans) t
      (({ t with requests := before ++ after }).serveRequest cfg ans r) := by
  cases r with
  | itb => exact inv.serve_itb ans serves calls
  | fetch => exact inv.serve_fetch ans serves calls
  | fetchResp => exact inv.serve_fetchResp ans serves calls
  | issue => exact inv.serve_issue ans serves calls served
  | issueTid => exact inv.serve_issueTid ans serves calls
  | exec => exact inv.serve_exec ans serves calls
  | delayedCall => exact inv.serve_delayedCall ans serves calls served
  | bpred => exact inv.serve_bpred ans serves calls
  | dtb => exact inv.serve_dtb ans serves calls
  | mem => exact inv.serve_mem ans serves calls
  | memResp => exact inv.serve_memResp ans serves calls served

theorem Thread.Serves.of_servable {r : Request} {ans : Answer}
    (at_ : t.requests[k]? = some r) (servable : t.servable k r ans = true) :
    t.Serves r (t.requests.take k) (t.requests.drop (k + 1)) where
  split := by grind [List.take_append_drop, List.drop_eq_getElem_cons]
  first := fun fifo q mem => by
    simp only [Thread.servable, Bool.and_eq_true, Bool.or_eq_true] at servable
    have order := servable.1.resolve_left (by
      rw [Option.isNone_iff_eq_none]
      intro none
      rw [none] at fifo
      cases fifo)
    simpa using List.all_eq_true.mp order q mem

theorem Inv.handleEvent (inv : Inv cfg t) (calls : t.calls = []) :
    Outcome cfg t e t (t.handleEvent cfg e) := by
  cases e with
  | activate =>
    change Outcome cfg t .activate t (t.activate cfg)
    unfold Thread.activate
    split
    · exact .refl
    · rename_i inactive
      have wake : Move cfg t .activate t { t with tc := { t.tc with status := .active } } :=
        .wake calls inactive
      refine .move wake ((inv.move wake).advanceEmpty (inv.buffer.active inactive) ?_ ?_)
      · simp [Quiet, calls]
      · simp [calls]
  | serve k ans =>
    simp only [Thread.handleEvent]
    split
    · exact .refl
    · rename_i r at_
      split
      · rename_i servable
        rw [List.eraseIdx_eq_take_drop_succ]
        exact inv.serve ans (.of_servable at_ servable) calls ⟨k, ans, rfl, at_, servable⟩
      · exact .refl

end Serve

end Gem5.FlexCPU
