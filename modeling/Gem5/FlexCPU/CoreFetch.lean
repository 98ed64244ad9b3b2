import Gem5.FlexCPU.CoreIssue

/-!
# Allocation and decoding keep the invariant

`advanceInst` puts an `Empty` instruction at the end of the buffer, and
`onInstDataFetched` gives it a static instruction.
-/

namespace Gem5.FlexCPU

open Thread List Function

section Allocate

variable {cfg : Config} {t : Thread} {pc : PCState}

/-- The instructions after `push_back`. -/
def allocated (t : Thread) (pc : PCState) : Insts :=
  Function.update t.insts t.nextInst (t.freshInst pc)

theorem allocated_self : allocated t pc t.nextInst = t.freshInst pc := by
  simp [allocated]

theorem allocated_of_ne {j : InstId} (ne : j ≠ t.nextInst) : allocated t pc j = t.insts j := by
  simp [allocated, ne]

/-- Apart from its status, number and program counter the new instruction is as blank
as the unused one it replaces. -/
theorem Core.keepFresh (inv : Core cfg t) {β : Sort*} (φ : InflightInst → β)
    (blank : φ (t.freshInst pc) = φ {}) (j : InstId) : φ (allocated t pc j) = φ (t.insts j) := by
  refine keep φ ?_ j
  rw [blank, inv.heap.fresh t.nextInst (Nat.le_refl _)]

theorem Core.blank_calls (inv : Core cfg t) {c : Call} (mem : c ∈ t.calls) :
    c.inst ≠ some t.nextInst := fun eq => Nat.lt_irrefl _ (inv.heap.calls_lt c mem _ eq)

theorem Core.blank_requests (inv : Core cfg t) {r : Request} (mem : r ∈ t.requests) :
    r.inst ≠ t.nextInst := fun eq => Nat.lt_irrefl _ (eq ▸ inv.heap.requests_lt r mem)

theorem Core.blank_buffer (inv : Core cfg t) {j : InstId} (mem : j ∈ t.inflightInsts) :
    j ≠ t.nextInst := fun eq => Nat.lt_irrefl _ (eq ▸ inv.heap.bounded j mem)

theorem Core.all_issued (inv : Core cfg t) (can : t.CanAdvance) {j : InstId}
    (mem : j ∈ t.inflightInsts) :
    Status.issued ≤ (t.insts j).status ∧ (t.insts j).squashed = false := by
  by_cases last : t.back = some j
  · exact ⟨can.issued j last, can.unsquashed j last⟩
  · refine ⟨inv.buffer.issued j mem last, ?_⟩
    by_contra squashed
    exact last (inv.buffer.squashed j mem (by simpa using squashed)).1

theorem Core.heapAllocated (inv : Core cfg t) (can : t.CanAdvance) :
    Heap (allocated t pc) (t.inflightInsts ++ [t.nextInst]) t.requests t.calls (t.nextInst + 1)  where
  ordered := by
    refine List.pairwise_append.mpr ⟨inv.heap.ordered, by simp, fun j mem k new => ?_⟩
    obtain rfl : k = t.nextInst := by simpa using new
    exact inv.heap.bounded j mem
  bounded := fun j mem => by
    rcases List.mem_append.mp mem with old | new
    · exact Nat.lt_succ_of_lt (inv.heap.bounded j old)
    · grind
  fresh := fun j old => by
    rw [allocated_of_ne (Nat.lt_of_succ_le old).ne']
    exact inv.heap.fresh j (Nat.le_of_succ_le old)
  allocated := fun j new => by
    by_cases self : j = t.nextInst
    · rw [self, allocated_self]
      simp [freshInst]
    · rw [allocated_of_ne self]
      exact inv.heap.allocated j (Nat.lt_of_le_of_ne (Nat.le_of_lt_succ new) self)
  requests_lt := fun r mem => Nat.lt_succ_of_lt (inv.heap.requests_lt r mem)
  calls_lt := fun c mem j target => Nat.lt_succ_of_lt (inv.heap.calls_lt c mem j target)
  callbacks_lt := fun p m cb mem j target => by
    rw [inv.keepFresh (·.callbacks) rfl] at mem
    exact Nat.lt_succ_of_lt (inv.heap.callbacks_lt p m cb mem j target)
  parents_lt := fun c g d mem => by
    rw [inv.keepFresh (·.deps) rfl] at mem
    exact inv.heap.parents_lt c g d mem
  newest := fun j mem early => by
    rcases List.mem_append.mp mem with old | new
    · rw [allocated_of_ne (inv.blank_buffer old)] at early
      exact absurd (inv.all_issued can old).1 (Nat.not_le.mpr early)
    · grind

theorem Core.countersAllocated (inv : Core cfg t) :
    Counters (allocated t pc) (t.inflightInsts ++ [t.nextInst]) t.requests t.calls := by
  have deps : ∀ j, (allocated t pc j).deps = (t.insts j).deps := inv.keepFresh (·.deps) rfl
  have remaining : ∀ j, (allocated t pc j).remaining = (t.insts j).remaining := inv.keepFresh (·.remaining) rfl
  have fired : ∀ j, (allocated t pc j).fired = (t.insts j).fired := inv.keepFresh (·.fired) rfl
  intro c held unsquashed g
  rw [inv.keepFresh (·.squashed) rfl] at unsquashed
  by_cases self : c = t.nextInst
  · subst self
    have blank := inv.heap.fresh t.nextInst (Nat.le_refl _)
    have quiet : t.calls.count (.run (.decrement g t.nextInst)) = 0 := by
      refine List.count_eq_zero.mpr fun mem => inv.blank_calls mem ?_
      simp [Call.inst, Callback.inst]
    have none : Exact t.insts t.calls g t.nextInst := by
      left
      simp [surplus, owed, due, quiet, blank]
    exact none.congr (deps _) (remaining _) fired rfl
  · have old : Held t.inflightInsts t.requests c :=
      held.imp_left fun mem => (List.mem_append.mp mem).resolve_right (by simpa using self)
    exact (inv.counters c old unsquashed g).congr (deps c) (remaining c) fired rfl

theorem Core.milestonesAllocated (inv : Core cfg t) :
    Milestones (allocated t pc) (t.inflightInsts ++ [t.nextInst]) (t.nextInst + 1) where
  fired_le := fun j m => by
    rw [inv.keepFresh (·.fired) rfl]
    exact inv.milestones.fired_le j m
  fired_zero := fun j m unsquashed other early => by
    by_cases self : j = t.nextInst
    · rw [self, allocated_self]
      rfl
    · rw [allocated_of_ne self] at unsquashed early ⊢
      exact inv.milestones.fired_zero j m unsquashed other early
  committed_iff := fun j mem unsquashed => by
    rcases List.mem_append.mp mem with old | new
    · rw [allocated_of_ne (inv.blank_buffer old)] at unsquashed ⊢
      exact inv.milestones.committed_iff j old unsquashed
    · grind [allocated_self, freshInst]
  left := fun j lt outside unsquashed => by
    have ne : j ≠ t.nextInst := fun eq => outside (by simp [eq])
    rw [allocated_of_ne ne] at unsquashed ⊢
    exact inv.milestones.left j (Nat.lt_of_le_of_ne (Nat.le_of_lt_succ lt) ne)
      (fun mem => outside (mem_append_left _ mem)) unsquashed
  unissued := fun j early => by
    by_cases self : j = t.nextInst
    · rw [self, allocated_self]
      simp [freshInst]
    · rw [allocated_of_ne self] at early ⊢
      exact inv.milestones.unissued j early
  decoded := fun j => by
    by_cases self : j = t.nextInst
    · rw [self, allocated_self]
      simp [freshInst, Status.le_iff, Status.rank]
    · rw [allocated_of_ne self]
      exact inv.milestones.decoded j

theorem Core.tokensAllocated (inv : Core cfg t) : Tokens (allocated t pc) t.requests t.calls  where
  single := fun j unsquashed => by
    rw [inv.keepFresh (·.squashed) rfl] at unsquashed
    exact inv.tokens.single j unsquashed
  request_fits := fun r mem unsquashed => by
    rw [allocated_of_ne (inv.blank_requests mem)] at unsquashed ⊢
    exact inv.tokens.request_fits r mem unsquashed
  call_fits := fun c mem j target unsquashed => by
    have ne : j ≠ t.nextInst := fun eq => inv.blank_calls mem (eq ▸ target)
    rw [allocated_of_ne ne] at unsquashed ⊢
    exact inv.tokens.call_fits c mem j target unsquashed
  waiting_exec := fun j unsquashed waits => by
    have ne : j ≠ t.nextInst := by
      rintro rfl
      exact waits (by rw [allocated_self]; rfl)
    rw [owed_congr (inv.keepFresh (·.deps) rfl j) (inv.keepFresh (·.fired) rfl) rfl,
      surplus_congr (inv.keepFresh (·.deps) rfl j)]
    rw [allocated_of_ne ne] at unsquashed waits ⊢
    exact inv.tokens.waiting_exec j unsquashed waits
  waiting_mem := fun j unsquashed waits => by
    have ne : j ≠ t.nextInst := by
      rintro rfl
      exact waits (by rw [allocated_self]; rfl)
    rw [owed_congr (inv.keepFresh (·.deps) rfl j) (inv.keepFresh (·.fired) rfl) rfl]
    rw [allocated_of_ne ne] at unsquashed waits ⊢
    exact inv.tokens.waiting_mem j unsquashed waits

theorem Core.bufferAllocated (inv : Core cfg t) (can : t.CanAdvance)
    (room : t.bufferFull cfg = false) (active : t.tc.status = .active) :
    Buffer (allocated t pc) (t.inflightInsts ++ [t.nextInst]) t.calls t.lastCommittedInstNum
      cfg.inflightInstsMaxSize t.tc.status where
  issued := fun j mem notLast => by
    have old : j ∈ t.inflightInsts :=
      (List.mem_append.mp mem).resolve_right (by simpa [eq_comm] using notLast)
    rw [allocated_of_ne (inv.blank_buffer old)]
    exact (inv.all_issued can old).1
  squashed := fun j mem squashed => by
    rw [inv.keepFresh (·.squashed) rfl] at squashed
    rcases List.mem_append.mp mem with old | new
    · rw [(inv.all_issued can old).2] at squashed
      cases squashed
    · obtain rfl : j = t.nextInst := by simpa using new
      rw [inv.heap.fresh t.nextInst (Nat.le_refl _)] at squashed
      cases squashed
  size := fun bounded => by
    simp only [bufferFull, Bool.and_eq_false_iff, bne_eq_false_iff_eq, decide_eq_false_iff_not,
      Nat.not_le] at room
    rw [length_append, length_singleton]
    exact room.resolve_left bounded
  numbered := fun k j at_ => by
    have settled := can.settled
    rw [if_neg settled, Nat.add_zero]
    by_cases inside : k < t.inflightInsts.length
    · rw [List.getElem?_append_left inside] at at_
      have old := inv.buffer.numbered k j at_
      rw [if_neg settled, Nat.add_zero] at old
      rwa [allocated_of_ne (inv.blank_buffer (mem_of_getElem? at_))]
    · grind [allocated_self, freshInst]
  active := fun inactive => absurd active inactive
  popping := by
    refine ⟨fun pop => absurd pop can.settled, fun ⟨j, front, one⟩ => ?_⟩
    rw [inv.keepFresh (·.fired) rfl] at one
    cases buffer : t.inflightInsts with
    | nil =>
      obtain rfl : t.nextInst = j := by simpa [buffer] using front
      rw [inv.heap.fresh t.nextInst (Nat.le_refl _)] at one
      cases one
    | cons =>
      refine inv.buffer.popping.mpr ⟨j, ?_, one⟩
      simpa [buffer] using front
  uncommitted := fun j mem notFront => by
    rw [inv.keepFresh (·.fired) rfl]
    rcases List.mem_append.mp mem with old | new
    · refine inv.buffer.uncommitted j old fun front => notFront ?_
      rw [List.head?_append, front]
      rfl
    · obtain rfl : j = t.nextInst := by simpa using new
      rw [inv.heap.fresh t.nextInst (Nat.le_refl _)]

theorem Core.controlAllocated (inv : Core cfg t) (can : t.CanAdvance) :
    Control (allocated t pc) (t.inflightInsts ++ [t.nextInst]) t.requests t.calls false
      t.unpredictedBranch cfg.hasBranchPredictor where
  followed := fun j mem unsquashed isControl issued pending _ => by
    have old : j ∈ t.inflightInsts := by grind
    rw [allocated_of_ne (inv.blank_buffer old)] at unsquashed isControl issued pending ⊢
    by_cases last : t.back = some j
    · refine (can.control j last isControl).resolve_left fun complete => ?_
      rcases pending with early | resolving
      · exact absurd complete (Nat.not_le.mpr early)
      · exact absurd (can.quiet _ resolving) (by simp [Call.protects])
    · exact inv.control.followed j old unsquashed isControl issued pending (Or.inl last)
  asked := fun j mem unsquashed => by
    have ne : j ≠ t.nextInst := inv.blank_requests mem
    rw [allocated_of_ne ne] at unsquashed ⊢
    exact inv.control.asked j mem unsquashed
  predicted := fun j predicted => by
    unfold Predicted at predicted
    rw [inv.keepFresh (·.squashCallbacks) rfl] at predicted
    exact inv.control.predicted j predicted
  squashCallbacks := fun j => by
    rw [inv.keepFresh (·.squashCallbacks) rfl]
    exact inv.control.squashCallbacks j
  waiting := fun u eq => by
    have old := inv.control.waiting u eq
    have ne : u ≠ t.nextInst := by
      rintro rfl
      have := old.2.2.1
      rw [inv.heap.fresh t.nextInst (Nat.le_refl _)] at this
      simp [Status.le_iff, Status.rank] at this
    rw [allocated_of_ne ne]
    exact old
  retrying := by simp

theorem Core.storesAllocated (inv : Core cfg t) :
    Stores (allocated t pc) (t.inflightInsts ++ [t.nextInst]) := by
  intro c mem unsquashed store issued p older before uncommitted
  have ne : c ≠ t.nextInst := by grind [allocated_self, freshInst, Status.le_iff, Status.rank]
  have old : c ∈ t.inflightInsts := (List.mem_append.mp mem).resolve_right (by simpa using ne)
  have lt : p < t.nextInst := Nat.lt_trans before (inv.heap.bounded c old)
  have oldP : p ∈ t.inflightInsts :=
    (List.mem_append.mp older).resolve_right (by simpa using lt.ne)
  rw [inv.keepFresh (·.fired) rfl] at uncommitted
  rw [allocated_of_ne ne] at unsquashed store issued ⊢
  obtain ⟨q, le, dep, open_⟩ :=
    inv.stores c old unsquashed store issued p oldP before uncommitted
  exact ⟨q, le, dep, (congrFun (inv.keepFresh (·.fired) rfl q) _).trans open_⟩

theorem Core.lastsAllocated (inv : Core cfg t) :
    Lasts (allocated t pc) t.lastSerializingInstruction t.lastMemBarrier t.lastUses
      (t.nextInst + 1) := by
  have carry : ∀ j, j < t.nextInst ∧ Status.issued ≤ (t.insts j).status →
      j < t.nextInst + 1 ∧ Status.issued ≤ (allocated t pc j).status := by
    rintro j ⟨lt, issued⟩
    rw [allocated_of_ne (Nat.ne_of_lt lt)]
    exact ⟨Nat.lt_succ_of_lt lt, issued⟩
  exact
    { serializing := fun j eq => carry j (inv.lasts.serializing j eq)
      barrier := fun j eq => carry j (inv.lasts.barrier j eq)
      uses := fun r j eq => carry j (inv.lasts.uses r j eq) }

theorem Core.allocate (inv : Core cfg t) (can : t.CanAdvance) (room : t.bufferFull cfg = false)
    (active : t.tc.status = .active) :
    Core cfg { t.allocate (t.freshInst pc) with
      advanceInstNeedsRetry := false
      fetchOffset := 0 } where
  heap := inv.heapAllocated can
  callbacks := inv.callbacks.congr (inv.keepFresh (·.callbacks) rfl) (inv.keepFresh (·.deps) rfl)
    (inv.keepFresh (·.onReady) rfl)
  counters := inv.countersAllocated
  milestones := inv.milestonesAllocated
  tokens := inv.tokensAllocated
  stack := inv.stack.quiet can.quiet
  buffer := inv.bufferAllocated can room active
  control := inv.controlAllocated can
  stores := inv.storesAllocated
  lasts := inv.lastsAllocated
  noMacroOp := inv.noMacroOp

theorem Core.extend (inv : Core cfg t) (can : t.CanAdvance) (room : t.bufferFull cfg = false)
    (active : t.tc.status = .active) : Core cfg (t.extend pc) := by
  have grown : Core cfg { t.allocate (t.freshInst pc) with
      advanceInstNeedsRetry := false
      fetchOffset := 0 } := inv.allocate can room active
  refine { grown.pushFetch (i := t.nextInst) ?_ can.quiet with }
  exact
    { mem := by simp [Thread.allocate]
      unsquashed := by simp [Thread.allocate, freshInst]
      stage := by
        have none : stage t.requests t.calls t.nextInst = 0 := by
          unfold stage
          rw [List.countP_eq_zero.mpr, List.countP_eq_zero.mpr]
          · intro c mem token
            exact inv.blank_calls mem (Call.isToken_iff.mp token).2
          · intro r mem token
            exact inv.blank_requests mem (Request.isToken_iff.mp token).2
        exact none
      status := by simp [Thread.allocate, freshInst] }

end Allocate

section Decode

variable {cfg : Config} {t : Thread} {i : InstId}

/-- What is needed of the object that replaces an `Empty` instruction. -/
structure Decodes (old new : InflightInst) : Prop where
  status : new.status = .decoded
  known : new.instRef.isSome = true
  squashed : new.squashed = old.squashed
  fired : new.fired = old.fired
  deps : new.deps = old.deps
  remaining : new.remaining = old.remaining
  callbacks : new.callbacks = old.callbacks
  onReady : new.onReady = old.onReady
  squashCallbacks : new.squashCallbacks = old.squashCallbacks
  fault : new.fault = old.fault
  seqNum : new.seqNum = old.seqNum

theorem Core.decode (inv : Core cfg t) (idle : t.Idle i .empty) {x : InflightInst}
    (decodes : Decodes (t.insts i) x) :
    Core cfg { t with insts := Function.update t.insts i x } := by
  have squashed := keep (·.squashed) decodes.squashed
  have fired := keep (·.fired) decodes.fired
  have deps := keep (·.deps) decodes.deps
  have remaining := keep (·.remaining) decodes.remaining
  have callbacks := keep (·.callbacks) decodes.callbacks
  have onReady := keep (·.onReady) decodes.onReady
  have squashCallbacks := keep (·.squashCallbacks) decodes.squashCallbacks
  have fault := keep (·.fault) decodes.fault
  have seqNum := keep (·.seqNum) decodes.seqNum
  have self : Function.update t.insts i x i = x := update_self ..
  have others : ∀ {j}, j ≠ i → Function.update t.insts i x j = t.insts j :=
    fun ne => update_of_ne ne ..
  have early : (t.insts i).status < .issued := by
    simp [idle.status, Status.lt_iff, Status.rank]
  have unissued : ∀ {j}, Status.issued ≤ (t.insts j).status → j ≠ i := by
    rintro j issued rfl
    exact absurd issued (Nat.not_le.mpr early)
  have unissued' : ∀ {j}, Status.issued ≤ (Function.update t.insts i x j).status → j ≠ i := by
    rintro j issued rfl
    rw [self, decodes.status] at issued
    simp [Status.le_iff, Status.rank] at issued
  have keepIssued : ∀ {j}, Status.issued ≤ (t.insts j).status →
      Status.issued ≤ (Function.update t.insts i x j).status := by
    intro j issued
    rw [others (unissued issued)]
    exact issued
  have heap : Heap (Function.update t.insts i x) t.inflightInsts t.requests t.calls t.nextInst :=
    { inv.heap with
      fresh := fun j old => by
        rw [others (Nat.lt_of_lt_of_le (inv.heap.bounded i idle.mem) old).ne']
        exact inv.heap.fresh j old
      allocated := fun j new => by
        by_cases eq : j = i
        · rw [eq, self, decodes.status]
          simp
        · rw [others eq]
          exact inv.heap.allocated j new
      callbacks_lt := by simpa only [callbacks] using inv.heap.callbacks_lt
      parents_lt := by simpa only [deps] using inv.heap.parents_lt
      newest := fun j mem low => by
        by_cases eq : j = i
        · rw [eq]
          exact inv.heap.newest i idle.mem early
        · rw [others eq] at low
          exact inv.heap.newest j mem low }
  have milestones : Milestones (Function.update t.insts i x) t.inflightInsts t.nextInst :=
    { fired_le := by simpa only [fired] using inv.milestones.fired_le
      fired_zero := fun j m unsquashed other low => by
        rw [squashed] at unsquashed
        rw [fired]
        refine inv.milestones.fired_zero j m unsquashed other ?_
        by_cases eq : j = i
        · rw [eq, idle.status]
          cases m <;> simp [Status.lt_iff, Status.rank, Milestone.status]
        · rwa [others eq] at low
      committed_iff := fun j mem unsquashed => by
        rw [squashed] at unsquashed
        rw [fired, ← inv.milestones.committed_iff j mem unsquashed]
        by_cases eq : j = i
        · rw [eq, self, decodes.status, idle.status]
          simp
        · rw [others eq]
      left := fun j lt outside unsquashed => by
        have ne : j ≠ i := fun eq => outside (eq ▸ idle.mem)
        rw [others ne] at unsquashed ⊢
        exact inv.milestones.left j lt outside unsquashed
      unissued := fun j low => by
        rw [deps, squashCallbacks]
        by_cases eq : j = i
        · rw [eq]
          exact inv.milestones.unissued i early
        · rw [others eq] at low
          exact inv.milestones.unissued j low
      decoded := fun j => by
        by_cases eq : j = i
        · rw [eq, self, decodes.status]
          simp [decodes.known, Status.le_iff]
        · rw [others eq]
          exact inv.milestones.decoded j }
  have noExec := inv.onReady_exec idle.unsquashed (Nat.lt_trans early (by simp [Status.rank]))
  have noMem := inv.onReady_mem idle.unsquashed (Nat.lt_trans early (by simp [Status.rank]))
  have tokens : Tokens (Function.update t.insts i x) t.requests t.calls :=
    { single := by simpa only [squashed] using inv.tokens.single
      request_fits := fun r mem unsquashed => by
        rw [squashed] at unsquashed
        by_cases eq : r.inst = i
        · have carries : r.carries = false := by
            simpa [Request.isToken, eq] using (not_token_of_stage idle.stage).1 r mem
          obtain rfl := inv.inert_bpred idle.unsquashed
            (Nat.lt_trans early (by simp [Status.rank])) mem eq carries
          trivial
        · rw [others eq]
          exact inv.tokens.request_fits r mem unsquashed
      call_fits := fun c mem j target unsquashed => by
        rw [squashed] at unsquashed
        by_cases eq : j = i
        · have carries : c.carries = false := by
            simpa [Call.isToken, target, eq] using (not_token_of_stage idle.stage).2 c mem
          cases c <;> try trivial
          case run cb => cases cb <;> trivial
        · rw [others eq]
          exact inv.tokens.call_fits c mem j target unsquashed
      waiting_exec := fun j unsquashed waits => by
        rw [squashed] at unsquashed
        rw [onReady] at waits
        have ne : j ≠ i := by grind
        rw [owed_congr (deps j) fired rfl, surplus_congr (deps j), others ne]
        exact inv.tokens.waiting_exec j unsquashed waits
      waiting_mem := fun j unsquashed waits => by
        rw [squashed] at unsquashed
        rw [onReady] at waits
        have ne : j ≠ i := by grind
        rw [owed_congr (deps j) fired rfl, others ne]
        exact inv.tokens.waiting_mem j unsquashed waits }
  have stack : Stack (Function.update t.insts i x) t.inflightInsts t.calls :=
    { inv.stack with
      protects := by simpa only [squashed] using inv.stack.protects
      resolving := fun j mem => by
        have old := inv.stack.resolving j mem
        have ne : j ≠ i := by grind [idle.status]
        rw [others ne]
        exact old }
  have buffer : Buffer (Function.update t.insts i x) t.inflightInsts t.calls
      t.lastCommittedInstNum cfg.inflightInstsMaxSize t.tc.status :=
    { inv.buffer with
      issued := fun j mem notLast => keepIssued (inv.buffer.issued j mem notLast)
      squashed := by simpa only [squashed, fault, fired] using inv.buffer.squashed
      numbered := by simpa only [seqNum] using inv.buffer.numbered
      popping := by simpa only [fired] using inv.buffer.popping
      uncommitted := by simpa only [fired] using inv.buffer.uncommitted }
  have control : Control (Function.update t.insts i x) t.inflightInsts t.requests t.calls
      t.advanceInstNeedsRetry t.unpredictedBranch cfg.hasBranchPredictor :=
    { followed := fun j mem unsquashed isControl issued pending follows => by
        have ne := unissued' issued
        rw [others ne] at unsquashed isControl issued pending ⊢
        exact inv.control.followed j mem unsquashed isControl issued pending follows
      asked := fun j mem unsquashed => by
        rw [squashed] at unsquashed
        have old := inv.control.asked j mem unsquashed
        rw [others (unissued old.2.2.1)]
        exact old
      predicted := fun j predicted => by
        unfold Predicted at predicted
        rw [squashCallbacks] at predicted
        exact inv.control.predicted j predicted
      squashCallbacks := by simpa only [squashCallbacks] using inv.control.squashCallbacks
      waiting := fun u eq => by
        have old := inv.control.waiting u eq
        rw [others (unissued old.2.2.1)]
        exact old
      retrying := fun again j last => by
        have old := inv.control.retrying again j last
        rw [others (unissued old.1)]
        exact old }
  have stores : Stores (Function.update t.insts i x) t.inflightInsts := by
    intro c mem unsquashed store issued p older before uncommitted
    rw [fired] at uncommitted
    have ne := unissued' issued
    rw [others ne] at unsquashed store issued ⊢
    simpa only [fired] using inv.stores c mem unsquashed store issued p older before uncommitted
  exact
    { heap := heap
      callbacks := inv.callbacks.congr callbacks deps onReady
      counters := inv.counters.congr squashed deps remaining fired fun _ _ => rfl
      milestones := milestones
      tokens := tokens
      stack := stack
      buffer := buffer
      control := control
      stores := stores
      lasts := inv.lasts.congr fun _ => keepIssued
      noMacroOp := inv.noMacroOp }

end Decode

end Gem5.FlexCPU
