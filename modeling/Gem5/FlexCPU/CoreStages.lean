import Gem5.FlexCPU.CoreNotify

/-!
# Execution, effective address, completion and commit

The four milestones keep the invariant.
-/

namespace Gem5.FlexCPU

open Thread List

section Facts

variable {cfg : Config} {t : Thread} {i : InstId} {s : Status}

theorem Core.owed_exec_le (inv : Core cfg t) (mem : i ∈ t.inflightInsts)
    (unsquashed : (t.insts i).squashed = false) (zero : (t.insts i).remaining .exec = 0) :
    owed t.insts t.calls .exec i ≤ surplus t.insts .exec i := by
  rcases inv.counters i (Or.inl mem) unsquashed .exec with ⟨-, eq⟩ | ⟨lt, -⟩
  · omega
  · exact lt.le

theorem Core.surplus_mem (inv : Core cfg t) (i : InstId) : surplus t.insts .mem i = 0 :=
  List.countP_eq_zero.mpr fun d mem => by simpa using inv.callbacks.mem_kind i d mem

theorem Core.owed_mem (inv : Core cfg t) (mem : i ∈ t.inflightInsts)
    (unsquashed : (t.insts i).squashed = false) :
    (t.insts i).remaining .mem = owed t.insts t.calls .mem i := by
  have none := inv.surplus_mem i
  rcases inv.counters i (Or.inl mem) unsquashed .mem with ⟨-, eq⟩ | ⟨lt, -⟩
  · omega
  · omega

theorem Core.onReady_mem (inv : Core cfg t) (unsquashed : (t.insts i).squashed = false)
    (early : (t.insts i).status < .effAddred) : (t.insts i).onReady .mem = [] := by
  by_contra ready
  exact absurd early (Nat.not_lt.mpr (inv.tokens.waiting_mem i unsquashed ready).1)

theorem Core.onReady_exec (inv : Core cfg t) (unsquashed : (t.insts i).squashed = false)
    (early : (t.insts i).status < .issuedTid) : (t.insts i).onReady .exec = [] := by
  by_contra ready
  exact absurd early (Nat.not_lt.mpr (inv.tokens.waiting_exec i unsquashed ready).1)

theorem Core.inert_bpred (inv : Core cfg t) (unsquashed : (t.insts i).squashed = false)
    (early : (t.insts i).status < .memorying) {r : Request} (mem : r ∈ t.requests)
    (inst : r.inst = i) (inert : r.carries = false) : r = .bpred i := by
  have fits := inv.tokens.request_fits r mem (by rwa [inst])
  cases r <;> simp_all [Request.carries, Request.inst, Status.lt_iff, Status.rank]
  all_goals rcases fits with ⟨-, -, -, h | h⟩ <;> simp_all

theorem Core.uncommitted (inv : Core cfg t) (mem : i ∈ t.inflightInsts)
    (unsquashed : (t.insts i).squashed = false) (status : (t.insts i).status ≠ .committed) :
    (t.insts i).fired .commit = 0 := by
  have le := inv.milestones.fired_le i .commit
  have ne : (t.insts i).fired .commit ≠ 1 :=
    fun one => status ((inv.milestones.committed_iff i mem unsquashed).mpr one)
  simp only [Milestone.announcements] at le
  omega

end Facts

section Above

variable {i c : InstId} {b : Call}

theorem Call.Above.of_execute (h : Call.Above (.run (.executeInstruction i)) b) :
    Call.Above (.run (.decrement .exec c)) b ∧ Call.Above (.requestExecution i) b := by
  cases b <;> simp_all [Call.Above]

theorem Call.Above.of_requestExecution (h : Call.Above (.requestExecution i) b) :
    Call.Above (.run (.decrement .exec c)) b := by
  cases b <;> simp_all [Call.Above]

end Above

section Stages

variable {cfg : Config} {t : Thread} {i : InstId}

theorem Core.beginExec_callback (inv : Core cfg t) {cb : Callback}
    (mem : cb ∈ (t.insts i).callbacks .beginExec) : ∃ c, cb = .decrement .exec c := by
  obtain ⟨g, c, rfl⟩ := inv.callbacks.plain .beginExec i (by simp) cb mem
  cases g with
  | exec => exact ⟨c, rfl⟩
  | mem =>
    have listed : (.beginExec, i) ∈ (t.insts c).deps .mem := by
      rw [← count_pos_iff, ← inv.callbacks.registered]
      exact List.count_pos_iff.mpr mem
    exact absurd rfl (inv.callbacks.mem_kind c _ listed)

theorem Core.notifyExecuting (inv : Core cfg t) {s : Status} (after : List Call) (idle : t.Idle i s)
    (early : s = .issuedTid ∨ s = .executing) (due_ : (t.insts i).fired .beginExec < 2)
    (after_ : after = [] ∨ after = [.requestExecution i] ∧ (t.insts i).fired .beginExec = 0) (closed
    : (t.insts i).onReady .exec ≠ [] → owed t.insts t.calls .exec i ≤ surplus t.insts .exec i)
    (below : ∀ b ∈ t.calls, Call.Above (.requestExecution i) b) :
    Core cfg (t.notify i .beginExec after) := by
  have lt := inv.heap.bounded i idle.mem
  have late : Status.issuedTid ≤ (t.insts i).status := by
    rcases early with rfl | rfl <;> simp [idle.status, Status.le_iff, Status.rank]
  have soon : (t.insts i).status < .effAddred := by
    rcases early with rfl | rfl <;> simp [idle.status, Status.lt_iff, Status.rank]
  have memReady := inv.onReady_mem idle.unsquashed soon
  have notCommitted : (t.insts i).status ≠ .committed := by grind [Status.lt_iff, Status.rank]
  have onlyRequest : ∀ c ∈ after, c = .requestExecution i ∧ (t.insts i).fired .beginExec = 0 := by
    rcases after_ with rfl | ⟨rfl, zero⟩ <;> simp_all
  have order : (after ++ t.calls).Pairwise Call.Above := by
    rcases after_ with rfl | ⟨rfl, -⟩
    · exact inv.stack.above
    · exact List.pairwise_cons.mpr ⟨below, inv.stack.above⟩
  have needs : Tails.EachTail Call.Needs (after ++ t.calls) := by
    rcases after_ with rfl | ⟨rfl, -⟩
    · exact inv.stack.needs
    · exact ⟨trivial, inv.stack.needs⟩
  have oldResolve : ∀ j, .resolveControl j ∈ after ++ t.calls → .resolveControl j ∈ t.calls := by
    intro j mem
    refine (List.mem_append.mp mem).resolve_left fun added => ?_
    simpa using (onlyRequest _ added).1
  have noPop : Call.commitPop ∉ after := fun mem => by simpa using (onlyRequest _ mem).1
  exact {
    heap := inv.heap.notify lt fun c mem j inst => by
      rw [(onlyRequest c mem).1] at inst
      obtain rfl : i = j := by simpa [Call.inst] using inst
      exact lt
    callbacks := inv.callbacks.congr (pass_callbacks _ _ · _) (pass_deps _ _ · _)
      (pass_onReady _ _ · _)
    counters := inv.counters.notify inv.callbacks due_ fun c mem => by
      rw [(onlyRequest c mem).1]
      rfl
    milestones := inv.milestones.notify due_
      (fun m notCommit later => by
        cases m <;>
          simp_all [Milestone.status, Status.lt_iff, Status.rank]
        omega)
      (Nat.le_trans (by simp [Status.rank]) late) (fun _ _ => notCommitted)
      (fun out => absurd idle.mem out)
    tokens := inv.tokens.notify inv.callbacks due_ idle.stage
      (fun c mem => by
        rw [(onlyRequest c mem).1]
        rfl)
      (fun c mem _ => by
        rw [(onlyRequest c mem).1]
        simp [Call.inst, Call.Fits, InflightInst.passes, Milestone.status, (onlyRequest c mem).2])
      (by rcases after_ with rfl | ⟨rfl, -⟩ <;> simp [Call.carries])
      (fun r mem inst inert unsquashed => by
        rw [inv.inert_bpred unsquashed (Nat.lt_trans soon (by simp [Status.rank])) mem inst inert]
        trivial)
      closed (fun ready => absurd memReady ready)
    stack := inv.stack.notify inv.callbacks
      (fun cb listed b mem => by
        obtain ⟨c, rfl⟩ := inv.beginExec_callback listed
        rcases List.mem_append.mp mem with added | old
        · rw [(onlyRequest b added).1]
          trivial
        · exact (below b old).of_requestExecution)
      order (needs_plain inv.callbacks (by simp) needs)
      (fun c mem _ j inst => by
        rw [(onlyRequest c mem).1] at inst
        obtain rfl : i = j := by simpa [Call.inst] using inst
        exact ⟨idle.mem, idle.unsquashed⟩)
      (fun j mem => by
        have resolving := inv.stack.resolving j (oldResolve j mem)
        have ne : j ≠ i := by grind [Status.lt_iff, Status.rank]
        refine ⟨by rw [pass_of_ne t.insts i _ ne]; exact resolving.1, resolving.2.1, ?_⟩
        simpa [noPop] using resolving.2.2)
    buffer := inv.buffer.notify (by simp) noPop
    control := inv.control.notify inv.callbacks (Nat.le_trans (by simp [Status.rank]) late)
      (fun j mem => by simpa using (onlyRequest _ mem).1)
      (fun _ _ => Nat.lt_trans soon (by simp [Status.rank]))
    stores := inv.stores.notify (Nat.le_trans (by simp [Status.rank]) late) (by simp)
    lasts := inv.lasts.notify
    noMacroOp := inv.noMacroOp }

theorem Core.execute (inv : Core cfg t) (idle : t.Idle i .issuedTid)
    (ready : (t.insts i).remaining .exec = 0)
    (below : ∀ b ∈ t.calls, Call.Above (.run (.executeInstruction i)) b) :
    Core cfg (({ t with executed := t.executed ++ [i] }).notify i .beginExec
      [.requestExecution i]) := by
  have zero : (t.insts i).fired .beginExec = 0 :=
    inv.milestones.fired_zero i .beginExec idle.unsquashed (by simp)
      (by simp [idle.status, Milestone.status, Status.lt_iff, Status.rank])
  have done := inv.notifyExecuting [.requestExecution i] idle (.inl rfl)
    (by omega) (.inr ⟨rfl, zero⟩) (fun _ => inv.owed_exec_le idle.mem idle.unsquashed ready)
    (fun b mem => ((below b mem).of_execute (c := i)).2)
  exact { done with }

theorem Core.requestExecution (inv : Core cfg t) (idle : t.Idle i .executing)
    (once : (t.insts i).fired .beginExec = 1)
    (below : ∀ b ∈ t.calls, Call.Above (.requestExecution i) b) :
    Core cfg (t.requestExecution i) := by
  have closed : (t.insts i).onReady .exec ≠ [] →
      owed t.insts t.calls .exec i ≤ surplus t.insts .exec i := fun ready => by
    by_contra waits
    have := ((inv.tokens.waiting_exec i idle.unsquashed ready).2 (Nat.lt_of_not_le waits)).1
    simp [idle.status] at this
  have done := inv.notifyExecuting [] idle (.inr rfl) (by omega) (.inl rfl) closed below
  have none : stage t.requests (announced (t.insts i) .beginExec [] t.calls) i = 0 := by
    rw [announced, append_nil, stage_push_inert]
    · exact idle.stage
    · intro c mem
      obtain ⟨cb, listed, rfl⟩ := List.mem_map.mp mem
      exact (inv.callbacks.shape listed).1
  have queued := done.enqueue (r := .exec i) (i := i)
    (by simp [Request.isToken, Request.carries, Request.inst])
    (.inr ⟨⟨idle.mem, (pass_squashed ..).trans idle.unsquashed, none, rfl⟩, by
      change (pass t.insts i .beginExec i).status = _ ∧ (pass t.insts i .beginExec i).fired _ = _
      simp [pass_fired_self, once, Milestone.status]⟩)
  exact { queued with }

/-- The overlap tests of an address run before the counters they guard, and before
the rest of `onDataAddrTranslated`. -/
theorem needs_effAddr {insts : Insts} (callbacks : Callbacks insts) :
    Tails.EachTail Call.Needs (announced (insts i) .effAddr [.afterEffAddr i] []) := by
  have general : ∀ cbs : List Callback, Tails.EachTail OverlapFirst cbs →
      (∀ cb ∈ cbs, EffAddrCallback i cb) →
      Tails.EachTail Call.Needs (cbs.map .run ++ [.afterEffAddr i]) := by
    intro cbs
    induction cbs with
    | nil => exact fun _ _ => ⟨trivial, trivial⟩
    | cons cb rest ih =>
      cases cb <;> simp_all [Call.Needs, EffAddrCallback, OverlapFirst]
  rw [announced, append_nil]
  exact general _ (callbacks.overlapFirst i) (callbacks.effAddr i)

theorem Core.effAddr_callback (inv : Core cfg t) {g : Gate} {c : InstId}
    (mem : .decrement g c ∈ (t.insts i).callbacks .effAddr) : g = .mem := by
  cases g with
  | mem => rfl
  | exec =>
    have listed : (.effAddr, i) ∈ (t.insts c).deps .exec := by
      rw [← count_pos_iff, ← inv.callbacks.registered]
      exact List.count_pos_iff.mpr mem
    exact absurd rfl (inv.callbacks.exec_kind c _ listed)

theorem Core.effAddr (inv : Core cfg t) (idle : t.Idle i .executing)
    (memRef : (t.insts i).staticInst.isMemRef = true) (calls : t.calls = []) :
    Core cfg (t.notify i .effAddr [.afterEffAddr i]) := by
  have zero : (t.insts i).fired .effAddr = 0 :=
    inv.milestones.fired_zero i .effAddr idle.unsquashed (by simp)
      (by simp [idle.status, Milestone.status, Status.lt_iff, Status.rank])
  have due_ : (t.insts i).fired .effAddr < Milestone.effAddr.announcements := by
    simp [zero, Milestone.announcements]
  have lt := inv.heap.bounded i idle.mem
  have memReady := inv.onReady_mem idle.unsquashed
    (by simp [idle.status, Status.lt_iff, Status.rank])
  have closed : (t.insts i).onReady .exec ≠ [] →
      owed t.insts t.calls .exec i ≤ surplus t.insts .exec i := fun ready => by
    by_contra waits
    have := ((inv.tokens.waiting_exec i idle.unsquashed ready).2 (Nat.lt_of_not_le waits)).1
    simp [idle.status] at this
  have plain : (t.insts i).staticInst.isControl ≠ true := fun control => by
    simp [((t.insts i).staticInst.control_plain control).1] at memRef
  exact {
    heap := inv.heap.notify lt (by simpa [Call.inst] using lt)
    callbacks := inv.callbacks.congr (pass_callbacks _ _ · _) (pass_deps _ _ · _)
      (pass_onReady _ _ · _)
    counters := inv.counters.notify inv.callbacks due_ (by simp [Call.decrements])
    milestones := inv.milestones.notify due_
      (fun m notCommit later => by
        cases m <;> simp_all [idle.status, Milestone.status, Status.lt_iff, Status.rank])
      (by simp [idle.status, Status.le_iff, Status.rank]) (by simp [idle.status])
      (fun out => absurd idle.mem out)
    tokens := inv.tokens.notify inv.callbacks due_ idle.stage (by simp [Call.decrements])
      (fun c mem _ => by
        obtain rfl : c = .afterEffAddr i := by simpa using mem
        exact ⟨rfl, rfl, memRef, memReady⟩)
      (by simp [Call.carries])
      (fun r mem inst inert unsquashed => by
        rw [inv.inert_bpred unsquashed (by simp [idle.status, Status.lt_iff, Status.rank]) mem
          inst inert]
        trivial)
      closed (fun ready => absurd memReady ready)
    stack := inv.stack.notify inv.callbacks
      (fun cb listed b mem => by
        obtain rfl : b = .afterEffAddr i := by simpa [calls] using mem
        have shape := inv.callbacks.effAddr i cb listed
        cases cb with
        | decrement =>
          obtain rfl := inv.effAddr_callback listed
          exact inv.callbacks.child_lt inv.heap listed
        | _ => simp_all [EffAddrCallback, Call.Above])
      (by simp [calls]) (by rw [calls]; exact needs_effAddr inv.callbacks)
      (fun c mem _ j inst => by
        obtain rfl : c = .afterEffAddr i := by simpa using mem
        obtain rfl : i = j := by simpa [Call.inst] using inst
        exact ⟨idle.mem, idle.unsquashed⟩)
      (fun j mem => by simp [calls] at mem)
    buffer := inv.buffer.notify (by simp) (by simp)
    control := inv.control.notify inv.callbacks
      (by simp [idle.status, Status.le_iff, Status.rank]) (by simp)
      (fun control => absurd control plain)
    stores := inv.stores.notify (by simp [idle.status, Status.le_iff, Status.rank]) (by simp)
    lasts := inv.lasts.notify
    noMacroOp := inv.noMacroOp }

theorem Core.complete (inv : Core cfg t) (unsquashed : (t.insts i).squashed = false)
    (allocated : i < t.nextInst) (none : stage t.requests t.calls i = 0)
    (pending : (t.insts i).fired .completion = 0)
    (packets : t.requests.any (awaitsPacket i) = false) (status : i ∈ t.inflightInsts ∧ (t.insts
    i).status = .executing ∧ (t.insts i).fired .beginExec = 2 ∧ (t.insts i).staticInst.isMemRef =
    false ∨ i ∈ t.inflightInsts ∧ (t.insts i).status = .memorying ∧ (t.insts i).staticInst.isMemRef
    = true ∨ (t.insts i).status = .committed ∧ (t.insts i).staticInst.isStore = true)
    (calls : t.calls = []) : Core cfg (t.onExecutionCompleted cfg i Option.none) := by
  have due_ : (t.insts i).fired .completion < Milestone.completion.announcements := by
    simp [pending, Milestone.announcements]
  have late : Status.executing ≤ (t.insts i).status := by
    rcases status with ⟨-, s, -⟩ | ⟨-, s, -⟩ | ⟨s, -⟩ <;> simp [s, Status.le_iff, Status.rank]
  have noToken : ∀ s, (t.insts i).status = s → s ≠ .issuedTid ∧ s ≠ .effAddred := by grind
  have closedExec : (t.insts i).onReady .exec ≠ [] →
      owed t.insts t.calls .exec i ≤ surplus t.insts .exec i := fun ready => by
    by_contra waits
    exact (noToken _ ((inv.tokens.waiting_exec i unsquashed ready).2
      (Nat.lt_of_not_le waits)).1).1 rfl
  have closedMem : (t.insts i).onReady .mem ≠ [] → owed t.insts t.calls .mem i = 0 :=
    fun ready => by
      by_contra waits
      exact (noToken _ ((inv.tokens.waiting_mem i unsquashed ready).2
        (Nat.pos_of_ne_zero waits)).1).2 rfl
  have settled : Call.commitPop ∉ t.calls := by simp [calls]
  have inside : i ∈ t.inflightInsts → (t.insts i).status ≠ .committed := by
    intro mem committed
    have fired := (inv.milestones.committed_iff i mem unsquashed).mp committed
    have front : t.inflightInsts.head? = some i := by
      by_contra notFront
      simp [inv.buffer.uncommitted i mem notFront] at fired
    exact settled (inv.buffer.popping.mpr ⟨i, front, fired⟩)
  have outside : i ∉ t.inflightInsts → (t.insts i).staticInst.isStore = true := by grind
  have noPackets : ∀ r ∈ t.requests, r.inst = i → r.carries = false → r = .bpred i := by
    intro r mem inst inert
    have notPacket := List.any_eq_false.mp packets r mem
    cases r <;> simp_all [Request.carries, Request.inst, awaitsPacket]
  have after_ : ∀ c ∈ (if (t.insts i).staticInst.isControl then [Call.resolveControl i] else [])
      ++ [.commitAll false],
      c = .commitAll false ∨ c = .resolveControl i ∧ (t.insts i).staticInst.isControl = true := by
    intro c mem
    split at mem <;> simp_all
    exact mem.symm
  have controlStatus : (t.insts i).staticInst.isControl = true →
      i ∈ t.inflightInsts ∧ (t.insts i).status = .executing := by
    intro control
    have plain := ((t.insts i).staticInst.control_plain control).1
    rcases status with ⟨mem, s, -⟩ | ⟨-, -, memRef⟩ | ⟨-, store⟩
    · exact ⟨mem, s⟩
    · simp [plain] at memRef
    · simp [(t.insts i).staticInst.store_memRef store] at plain
  exact {
    heap := inv.heap.notify allocated fun c mem j inst => by
      rcases after_ c mem with rfl | ⟨rfl, -⟩
      · simp [Call.inst] at inst
      · grind [Call.inst]
    callbacks := inv.callbacks.congr (pass_callbacks _ _ · _) (pass_deps _ _ · _)
      (pass_onReady _ _ · _)
    counters := inv.counters.notify inv.callbacks due_ fun c mem => by
      rcases after_ c mem with rfl | ⟨rfl, -⟩ <;> rfl
    milestones := inv.milestones.notify due_
      (fun m notCommit later => by
        cases m <;> simp_all [Milestone.status, Status.lt_iff, Status.rank])
      (Nat.le_trans (by simp [Status.rank]) late) (fun mem _ => inside mem)
      (fun out _ => ⟨rfl, outside out⟩)
    tokens := inv.tokens.notify inv.callbacks due_ none
      (fun c mem => by rcases after_ c mem with rfl | ⟨rfl, -⟩ <;> rfl)
      (fun c mem carries => by rcases after_ c mem with rfl | ⟨rfl, -⟩ <;> simp [Call.carries] at carries)
      (by split <;> simp [Call.carries])
      (fun r mem inst inert _ => by
        rw [noPackets r mem inst inert]
        trivial)
      closedExec (fun ready => ⟨by simp [Milestone.status, Status.le_iff, Status.rank],
        closedMem ready⟩)
    stack := inv.stack.notify inv.callbacks
      (fun cb listed b mem => by
        obtain ⟨g, c, rfl⟩ := inv.callbacks.plain .completion i (by simp) cb listed
        have younger := inv.callbacks.child_lt inv.heap listed
        rw [calls, append_nil] at mem
        rcases after_ b mem with rfl | ⟨rfl, -⟩
        · trivial
        · cases g with
          | exec => trivial
          | mem => exact younger)
      (by
        rw [calls, append_nil]
        split <;> simp [Call.Above])
      (needs_plain inv.callbacks (by simp) (by
        rw [calls, append_nil]
        split <;> simp [Call.Needs]))
      (fun c mem protects j inst => by
        rcases after_ c mem with rfl | ⟨rfl, control⟩
        · simp [Call.protects] at protects
        · obtain rfl : i = j := by simpa [Call.inst] using inst
          exact ⟨(controlStatus control).1, unsquashed⟩)
      (fun j mem => by
        rw [calls, append_nil] at mem ⊢
        rcases after_ _ mem with eq | ⟨eq, control⟩
        · simp at eq
        · obtain rfl : j = i := by simpa using eq
          refine ⟨by simp [Milestone.status], control, fun pop => ?_⟩
          rcases after_ _ pop with eq | ⟨eq, -⟩ <;> simp at eq)
    buffer := inv.buffer.notify (by simp) fun pop => by
      rcases after_ _ pop with eq | ⟨eq, -⟩ <;> simp at eq
    control := inv.control.notify inv.callbacks (Nat.le_trans (by simp [Status.rank]) late)
      (fun j mem => by
        rcases after_ _ mem with eq | ⟨eq, -⟩
        · simp at eq
        · simpa using eq)
      (fun control _ => by
        simp [(controlStatus control).2, Status.lt_iff, Status.rank])
    stores := inv.stores.notify (Nat.le_trans (by simp [Status.rank]) late) (by simp)
    lasts := inv.lasts.notify
    noMacroOp := inv.noMacroOp }

theorem Core.stage_zero (inv : Core cfg t) (unsquashed : (t.insts i).squashed = false)
    (late : Status.memorying ≤ (t.insts i).status) : stage t.requests t.calls i = 0 := by
  have reqs : t.requests.countP (Request.isToken i) = 0 := by
    refine List.countP_eq_zero.mpr fun r mem token => ?_
    obtain ⟨carries, rfl⟩ := Request.isToken_iff.mp token
    have fits := inv.tokens.request_fits r mem unsquashed
    cases r <;>
      simp_all [Request.carries, Request.Fits, Status.le_iff, Status.rank]
  have calls : t.calls.countP (Call.isToken i) = 0 := by
    refine List.countP_eq_zero.mpr fun c mem token => ?_
    obtain ⟨carries, inst⟩ := Call.isToken_iff.mp token
    have fits := inv.tokens.call_fits c mem i inst unsquashed
    unfold Call.Fits at fits
    split at fits <;> simp_all [Call.carries, Status.le_iff, Status.rank]
  simp [stage, reqs, calls]

theorem Heap.head_le {insts : Insts} {buf : List InstId} {reqs : List Request}
    {calls : List Call} {next x p : InstId} (h : Heap insts buf reqs calls next)
    (front : buf.head? = some x) (mem : p ∈ buf) : x ≤ p := by
  obtain ⟨rest, rfl⟩ := List.head?_eq_some_iff.mp front
  rcases List.mem_cons.mp mem with rfl | later
  · exact Nat.le_refl _
  · exact ((List.pairwise_cons.mp h.ordered).1 p later).le

theorem commitToTC_status (inst : InflightInst) (tc : ThreadContext) :
    (commitToTC inst tc).status = tc.status := by
  have general : ∀ (l : List (RegId × Option RegVal)) (tc : ThreadContext),
      (l.foldl (fun tc d => tc.setReg d.1 (d.2.getD 0)) tc).status = tc.status := by
    intro l
    induction l with
    | nil => exact fun _ => rfl
    | cons d rest ih => exact fun tc => (ih _).trans rfl
  exact general _ tc

theorem Core.commit (inv : Core cfg t) (front : t.inflightInsts.head? = some i)
    (unsquashed : (t.insts i).squashed = false) (status : (t.insts i).status = .complete ∨ (t.insts
    i).status = .memorying ∧ (t.insts i).staticInst.isStore = true) (quiet : t.Quiet) :
    Core cfg ((t.commitInstruction i).notify i .commit [.commitPop, .commitAll true]) := by
  have mem : i ∈ t.inflightInsts := List.mem_of_mem_head? front
  have lt := inv.heap.bounded i mem
  have late : Status.memorying ≤ (t.insts i).status := by
    rcases status with s | ⟨s, -⟩ <;> simp [s, Status.le_iff, Status.rank]
  have none := inv.stage_zero unsquashed late
  have notCommitted : (t.insts i).status ≠ .committed := by
    rcases status with s | ⟨s, -⟩ <;> simp [s]
  have zero := inv.uncommitted mem unsquashed notCommitted
  have due_ : (t.insts i).fired .commit < Milestone.commit.announcements := by
    simp [zero, Milestone.announcements]
  have settled : Call.commitPop ∉ t.calls := by
    intro popping
    obtain ⟨x, head, fired⟩ := inv.buffer.popping.mp popping
    obtain rfl : i = x := by rw [front] at head; simpa using head
    omega
  have noToken : (t.insts i).status ≠ .issuedTid ∧ (t.insts i).status ≠ .effAddred := by
    rcases status with s | ⟨s, -⟩ <;> simp [s]
  have after_ : ∀ c ∈ [Call.commitPop, .commitAll true], c.carries = false
      ∧ c.decrements = false ∧ c.protects = false ∧ c.inst = Option.none := by
    simp [Call.carries, Call.decrements, Call.protects, Call.inst]
  have order : ([Call.commitPop, .commitAll true] ++ t.calls).Pairwise Call.Above := by
    refine List.pairwise_cons.mpr ⟨fun b inside => ?_, List.pairwise_cons.mpr
      ⟨fun b inside => ?_, inv.stack.above⟩⟩
    · rcases List.mem_cons.mp inside with rfl | old
      · trivial
      · have := quiet b old
        cases b <;> simp_all [Call.Above, Call.protects]
    · have := quiet b inside
      cases b <;> simp_all [Call.Above, Call.protects]
  exact {
    heap := inv.heap.notify lt fun c inside j inst => by
      simp [(after_ c inside).2.2.2] at inst
    callbacks := inv.callbacks.congr (pass_callbacks _ _ · _) (pass_deps _ _ · _)
      (pass_onReady _ _ · _)
    counters := inv.counters.notify inv.callbacks due_ fun c inside => (after_ c inside).2.1
    milestones := inv.milestones.notify due_
      (fun m notCommit later => by
        cases m <;> simp_all [Milestone.status, Status.lt_iff, Status.rank])
      (Nat.le_trans (by simp [Status.rank]) late) (fun _ other => absurd rfl other)
      (fun out => absurd mem out)
    tokens := inv.tokens.notify inv.callbacks due_ none
      (fun c inside => (after_ c inside).2.1)
      (fun c inside carries => by simp [(after_ c inside).1] at carries)
      (by simp [Call.carries])
      (fun r inside inst inert _ => by
        have fits := inv.tokens.request_fits r inside (by rwa [inst])
        cases r <;>
          simp_all [Request.Fits, InflightInst.passes, Milestone.status, InflightInst.staticInst])
      (fun ready => by
        by_contra waits
        exact noToken.1 ((inv.tokens.waiting_exec i unsquashed ready).2
          (Nat.lt_of_not_le waits)).1)
      (fun ready => ⟨by simp [Milestone.status, Status.le_iff, Status.rank], by
        by_contra waits
        exact noToken.2 ((inv.tokens.waiting_mem i unsquashed ready).2
          (Nat.pos_of_ne_zero waits)).1⟩)
    stack := inv.stack.notify inv.callbacks
      (fun cb listed b inside => by
        rcases List.mem_append.mp inside with added | old
        · simp only [List.mem_cons, not_mem_nil, or_false] at added
          rcases added with rfl | rfl <;> simp [Call.Above]
        · have := quiet b old
          cases b <;> simp_all [Call.Above, Call.protects])
      order (needs_plain inv.callbacks (by simp) ⟨trivial, trivial, inv.stack.needs⟩)
      (fun c inside protects => by simp [(after_ c inside).2.2.1] at protects)
      (fun j inside => by
        have old : .resolveControl j ∈ t.calls := by simpa using inside
        simpa [Call.protects] using quiet _ old)
    buffer :=
      { issued := fun j inside notLast => issued_pass (inv.buffer.issued j inside notLast)
        squashed := fun j inside squashed => by
          have old : (t.insts j).squashed = true := (pass_squashed ..).symm.trans squashed
          have ne : j ≠ i := by grind
          have := inv.buffer.squashed j inside old
          change _ ∧ (pass t.insts i .commit j).fault.isSome = true
            ∧ (pass t.insts i .commit j).fired .commit = 0
          rw [pass_of_ne t.insts i .commit ne]
          exact this
        size := inv.buffer.size
        numbered := fun k j at_k => by
          have first := inv.buffer.numbered 0 i (by simpa [List.head?_eq_getElem?] using front)
          have old := inv.buffer.numbered k j at_k
          have popping : Call.commitPop
              ∈ announced (t.insts i) .commit [.commitPop, .commitAll true] t.calls := by
            simp [commitPop_mem_announced]
          change (pass t.insts i .commit j).seqNum + (if Call.commitPop
              ∈ announced (t.insts i) .commit [.commitPop, .commitAll true] t.calls then 1 else 0)
            = (t.insts i).seqNum + k + 1
          rw [if_pos popping, pass_seqNum]
          omega
        active := fun inactive => inv.buffer.active (by
          rwa [← commitToTC_status (t.insts i) t.tc])
        popping := by
          refine iff_of_true (commitPop_mem_announced.mpr (by simp)) ⟨i, front, ?_⟩
          change (pass t.insts i .commit i).fired .commit = 1
          rw [pass_fired_self, zero]
        uncommitted := fun j inside notFront => by
          have ne : j ≠ i := by
            rintro rfl
            exact notFront front
          change (pass t.insts i .commit j).fired .commit = 0
          rw [pass_of_ne t.insts i .commit ne]
          exact inv.buffer.uncommitted j inside notFront }
    control := inv.control.notify inv.callbacks (Nat.le_trans (by simp [Status.rank]) late)
      (by simp) (by simp [Milestone.status, Status.lt_iff, Status.rank])
    stores := by
      intro c inside unsq store late' p insideP younger uncommitted
      have ne : p ≠ i := by
        rintro rfl
        change (pass t.insts p .commit p).fired .commit = 0 at uncommitted
        rw [pass_fired_self] at uncommitted
        omega
      have old : Status.issued ≤ (t.insts c).status := by
        by_cases at_i : c = i
        · subst at_i
          exact Nat.le_trans (by simp [Status.rank]) late
        · change Status.issued ≤ (pass t.insts i .commit c).status at late'
          rwa [pass_of_ne t.insts i .commit at_i] at late'
      change (pass t.insts i .commit p).fired .commit = 0 at uncommitted
      rw [pass_of_ne t.insts i .commit ne] at uncommitted
      obtain ⟨q, le, dep, open_⟩ := inv.stores c inside ((pass_squashed ..).symm.trans unsq)
        ((congrArg (·.isStore) (pass_staticInst ..)).symm.trans store) old p insideP younger
        uncommitted
      have other : q ≠ i := by
        rintro rfl
        exact ne (Nat.le_antisymm le (inv.heap.head_le front insideP))
      refine ⟨q, le, ?_, ?_⟩
      · change _ ∈ (pass t.insts i .commit c).deps .mem
        rwa [pass_deps]
      · change (pass t.insts i .commit q).fired .commit = 0
        rwa [pass_of_ne t.insts i .commit other]
    lasts := inv.lasts.notify
    noMacroOp := inv.noMacroOp }

theorem Core.popFront (inv : Core cfg t) {rest : List Call}
    (calls : t.calls = .commitPop :: rest) :
    Core cfg { t with calls := rest, inflightInsts := t.inflightInsts.tail } := by
  have stack : Stack t.insts t.inflightInsts (.commitPop :: rest) := calls ▸ inv.stack
  have quiet : ∀ b ∈ rest, b.protects = false := stack.quiet_below fun b protects above => by
    cases b <;> simp_all [Call.Above, Call.protects]
  obtain ⟨x, front, fired⟩ := inv.buffer.popping.mp (by simp [calls])
  obtain ⟨tail, split⟩ := List.head?_eq_some_iff.mp front
  have settled : Call.commitPop ∉ rest := by
    intro inside
    have := (List.pairwise_cons.mp stack.above).1 _ inside
    simp [Call.Above] at this
  have mem : x ∈ t.inflightInsts := by simp [split]
  have unsquashed : (t.insts x).squashed = false := by
    by_contra squashed
    have := (inv.buffer.squashed x mem (by simpa using squashed)).2.2
    omega
  have status := (inv.milestones.committed_iff x mem unsquashed).mpr fired
  have sub : ∀ j, j ∈ t.inflightInsts.tail → j ∈ t.inflightInsts := fun j => mem_of_mem_tail
  have last : ∀ j, j ∈ t.inflightInsts.tail →
      t.inflightInsts.tail.getLast? = t.inflightInsts.getLast? := by
    intro j inside
    rw [split] at inside ⊢
    cases tail with
    | nil => simp at inside
    | cons => simp
  have notFront : ∀ j, j ∈ t.inflightInsts.tail → t.inflightInsts.head? ≠ some j := by
    intro j inside head
    obtain rfl : x = j := by rw [front] at head; simpa using head
    have ordered := inv.heap.ordered
    rw [split] at ordered inside
    exact Nat.lt_irrefl _ ((List.pairwise_cons.mp ordered).1 x inside)
  exact {
    heap :=
      { inv.heap with
        ordered := inv.heap.ordered.tail
        bounded := fun j inside => inv.heap.bounded j (sub j inside)
        calls_lt := fun c inside => inv.heap.calls_lt c (by simp [calls, inside])
        newest := fun j inside => inv.heap.newest j (sub j inside) }
    callbacks := inv.callbacks
    counters := fun c inside unsq g => (inv.counters c (inside.imp_left (sub c)) unsq g).congr rfl rfl
      (fun _ => rfl) (by rw [calls, List.count_cons_of_ne (by simp)])
    milestones :=
      { inv.milestones with
        committed_iff := fun j inside => inv.milestones.committed_iff j (sub j inside)
        left := fun j lt gone unsq => by
          by_cases at_x : j = x
          · grind
          · refine inv.milestones.left j lt (fun inside => gone ?_) unsq
            rw [split] at inside ⊢
            exact (List.mem_cons.mp inside).resolve_left at_x }
    tokens := (calls ▸ inv.tokens).pop rfl
    stack :=
      { above := stack.pop.above
        needs := stack.pop.needs
        protects := fun c inside protects => by simp [quiet c inside] at protects
        resolving := fun j inside => by simpa [Call.protects] using quiet _ inside }
    buffer :=
      { issued := fun j inside notLast =>
          inv.buffer.issued j (sub j inside) (last j inside ▸ notLast)
        squashed := fun j inside squashed => by
          have := inv.buffer.squashed j (sub j inside) squashed
          exact ⟨(last j inside).trans this.1, this.2⟩
        size := fun bounded => by
          have := inv.buffer.size bounded
          simp only [length_tail]
          omega
        numbered := fun k j at_k => by
          have old := inv.buffer.numbered (k + 1) j (by
            simpa [split] using at_k)
          rw [if_pos (by simp [calls])] at old
          change (t.insts j).seqNum + (if Call.commitPop ∈ rest then 1 else 0)
            = t.lastCommittedInstNum + k + 1
          rw [if_neg settled]
          omega
        active := fun inactive => by simp [inv.buffer.active inactive]
        popping := by
          refine iff_of_false settled ?_
          rintro ⟨j, head, fired'⟩
          have inside : j ∈ t.inflightInsts.tail := List.mem_of_mem_head? head
          simp [inv.buffer.uncommitted j (sub j inside) (notFront j inside)] at fired'
        uncommitted := fun j inside _ => inv.buffer.uncommitted j (sub j inside) (notFront j inside) }
    control :=
      { inv.control with
        followed := fun j inside unsq control issued pending notLast =>
          inv.control.followed j (sub j inside) unsq control issued
            (pending.imp_right fun resolve => by simp [calls, resolve])
            (notLast.imp_left fun ne => last j inside ▸ ne)
        retrying := fun on j isLast => inv.control.retrying on j
          (last j (List.mem_of_getLast? isLast) ▸ isLast) }
    stores := fun c inside unsq store issued p insideP =>
      inv.stores c (sub c inside) unsq store issued p (sub p insideP)
    lasts := inv.lasts
    noMacroOp := inv.noMacroOp }

end Stages

end Gem5.FlexCPU
