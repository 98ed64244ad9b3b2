import Gem5.FlexCPU.Effects

/-!
# Requests come and go

Serving a request removes it, and a handler may queue new ones. The invariant only
bounds what is queued, so removal never breaks it, and a new token is harmless when
its instruction has none.
-/

namespace Gem5.FlexCPU

open Thread List

section Tokens

variable {insts : Insts} {reqs before after : List Request} {calls : List Call} {i : InstId}
  {r : Request}

theorem stage_remove_le : stage (before ++ after) calls i ≤ stage (before ++ r :: after) calls i := by
  simp only [stage, countP_append, List.countP_cons]
  omega

theorem stage_append (r : Request) :
    stage (reqs ++ [r]) calls i = stage reqs calls i + if r.isToken i then 1 else 0 := by
  simp only [stage, countP_append, List.countP_cons, countP_nil]
  omega

theorem stage_remove_token (token : r.isToken i = true)
    (single : stage (before ++ r :: after) calls i ≤ 1) : stage (before ++ after) calls i = 0 := by
  simp only [stage, countP_append, List.countP_cons, token, if_true] at single ⊢
  omega

theorem not_token_of_stage (none : stage reqs calls i = 0) :
    (∀ q ∈ reqs, q.isToken i = false) ∧ ∀ c ∈ calls, c.isToken i = false := by
  have parts : reqs.countP (Request.isToken i) = 0 ∧ calls.countP (Call.isToken i) = 0 := by
    unfold stage at none
    omega
  exact ⟨fun q mem => by simpa using List.countP_eq_zero.mp parts.1 q mem,
    fun c mem => by simpa using List.countP_eq_zero.mp parts.2 c mem⟩

theorem Request.isToken_iff : r.isToken i = true ↔ r.carries = true ∧ r.inst = i := by
  simp [Request.isToken]

theorem Tokens.remove (h : Tokens insts (before ++ r :: after) calls) :
    Tokens insts (before ++ after) calls where
  single j unsquashed := stage_remove_le.trans (h.single j unsquashed)
  request_fits q mem := h.request_fits q (by
    rcases List.mem_append.mp mem with front | back
    · exact mem_append_left _ front
    · exact mem_append_right _ (List.mem_cons_of_mem r back))
  call_fits := h.call_fits
  waiting_exec j unsquashed ready := by
    obtain ⟨late, waits⟩ := h.waiting_exec j unsquashed ready
    refine ⟨late, fun closed => ⟨(waits closed).1, ?_⟩⟩
    exact Nat.le_zero.mp ((waits closed).2 ▸ stage_remove_le)
  waiting_mem j unsquashed ready := by
    obtain ⟨late, waits⟩ := h.waiting_mem j unsquashed ready
    refine ⟨late, fun closed => ⟨(waits closed).1, ?_, (waits closed).2.2⟩⟩
    exact Nat.le_zero.mp ((waits closed).2.1 ▸ stage_remove_le)

/-- The statuses in which a request carries an instruction are not those in which
it waits for its counters. -/
theorem Request.Fits.not_waiting {x : InflightInst} (fits : r.Fits x) (token : r.carries = true) :
    x.status ≠ .issuedTid ∧ x.status ≠ .effAddred := by
  cases r <;> simp_all [Request.Fits, Request.carries]

theorem Tokens.add (h : Tokens insts reqs calls) (token : r.isToken i = true)
    (fits : (insts i).squashed = true ∨ stage reqs calls i = 0 ∧ r.Fits (insts i)) :
    Tokens insts (reqs ++ [r]) calls := by
  obtain ⟨carries, rfl⟩ := Request.isToken_iff.mp token
  have other : ∀ j, j ≠ r.inst → stage (reqs ++ [r]) calls j = stage reqs calls j := by
    intro j ne
    have : r.isToken j = false := by simpa [Request.isToken] using fun _ => Ne.symm ne
    simp [stage_append, this]
  refine ⟨fun j unsquashed => ?_, fun q mem unsquashed => ?_, h.call_fits, ?_, ?_⟩
  · by_cases at_i : j = r.inst
    · grind [stage_append]
    · rw [other j at_i]
      exact h.single j unsquashed
  · rcases List.mem_append.mp mem with old | new
    · exact h.request_fits q old unsquashed
    · grind
  · intro j unsquashed ready
    obtain ⟨late, waits⟩ := h.waiting_exec j unsquashed ready
    refine ⟨late, fun closed => ⟨(waits closed).1, ?_⟩⟩
    by_cases at_i : j = r.inst
    · subst at_i
      rcases fits with squashed | ⟨-, fits⟩
      · simp [squashed] at unsquashed
      · exact absurd (waits closed).1 (fits.not_waiting carries).1
    · rw [other j at_i]
      exact (waits closed).2
  · intro j unsquashed ready
    obtain ⟨late, waits⟩ := h.waiting_mem j unsquashed ready
    refine ⟨late, fun closed => ⟨(waits closed).1, ?_⟩⟩
    by_cases at_i : j = r.inst
    · subst at_i
      rcases fits with squashed | ⟨-, fits⟩
      · simp [squashed] at unsquashed
      · exact absurd (waits closed).1 (fits.not_waiting carries).2
    · rw [other j at_i]
      exact (waits closed).2

theorem Tokens.addInert (h : Tokens insts reqs calls) (new : List Request)
    (inert : ∀ r ∈ new, r.carries = false)
    (fits : ∀ r ∈ new, (insts r.inst).squashed = false → r.Fits (insts r.inst)) :
    Tokens insts (reqs ++ new) calls := by
  have same : ∀ j, stage (reqs ++ new) calls j = stage reqs calls j := by
    intro j
    have none : new.countP (Request.isToken j) = 0 :=
      List.countP_eq_zero.mpr fun r mem => by simp [Request.isToken, inert r mem]
    simp [stage, none]
  refine ⟨fun j => ?_, fun q mem unsquashed => ?_, h.call_fits, fun j => ?_, fun j => ?_⟩
  · rw [same]
    exact h.single j
  · rcases List.mem_append.mp mem with old | added
    · exact h.request_fits q old unsquashed
    · exact fits q added unsquashed
  · rw [same]
    exact h.waiting_exec j
  · rw [same]
    exact h.waiting_mem j

end Tokens

section Groups

variable {insts : Insts} {buf : List InstId} {reqs reqs' before after : List Request}
  {calls calls' : List Call} {next : InstId} {r : Request}

theorem Heap.withRequests (h : Heap insts buf reqs calls next)
    (lt : ∀ q ∈ reqs', q.inst < next) : Heap insts buf reqs' calls next :=
  { h with requests_lt := lt }

theorem Heap.withCalls (h : Heap insts buf reqs calls next)
    (lt : ∀ c ∈ calls', ∀ i, c.inst = some i → i < next) : Heap insts buf reqs calls' next :=
  { h with calls_lt := lt }

theorem Heap.lt_of_squashed (h : Heap insts buf reqs calls next) {i : InstId}
    (squashed : (insts i).squashed = true) : i < next := by
  by_contra old
  rw [h.fresh i (Nat.le_of_not_lt old)] at squashed
  simp at squashed

theorem Heap.lt_of_status (h : Heap insts buf reqs calls next) {i : InstId}
    (status : (insts i).status ≠ .invalid) : i < next := by
  by_contra old
  rw [h.fresh i (Nat.le_of_not_lt old)] at status
  simp at status

theorem Held.remove {c : InstId} (h : Held buf (before ++ after) c) :
    Held buf (before ++ r :: after) c := by
  rcases h with inside | ⟨q, mem, holds⟩
  · exact Or.inl inside
  · refine Or.inr ⟨q, ?_, holds⟩
    rcases List.mem_append.mp mem with front | back
    · exact mem_append_left _ front
    · exact mem_append_right _ (List.mem_cons_of_mem r back)

theorem Held.add {new : List Request} {c : InstId} (h : Held buf (reqs ++ new) c)
    (inside : ∀ q ∈ new, q.holds c = true → c ∈ buf) : Held buf reqs c := by
  rcases h with old | ⟨q, mem, holds⟩
  · exact Or.inl old
  · rcases List.mem_append.mp mem with old | added
    · exact Or.inr ⟨q, old, holds⟩
    · exact Or.inl (inside q added holds)

theorem Request.inst_of_holds {c : InstId} (holds : r.holds c = true) : r.inst = c := by
  cases r <;> simp_all [Request.holds, Request.inst]

theorem Control.remove {retry hasPredictor : Bool} {unpredicted : Option InstId}
    (h : Control insts buf (before ++ r :: after) calls retry unpredicted hasPredictor) :
    Control insts buf (before ++ after) calls retry unpredicted hasPredictor where
  followed := h.followed
  asked i mem unsquashed := by
    have old : Request.bpred i ∈ before ++ r :: after := by grind
    obtain ⟨predictor, control, issued, unpredicted, once⟩ := h.asked i old unsquashed
    refine ⟨predictor, control, issued, unpredicted, ?_⟩
    have positive := List.count_pos_iff.mpr mem
    simp only [count_append, List.count_cons] at once positive ⊢
    omega
  predicted := h.predicted
  squashCallbacks := h.squashCallbacks
  waiting u ptr := by
    obtain ⟨predictor, control, issued, free⟩ := h.waiting u ptr
    refine ⟨predictor, control, issued, fun unsquashed => ⟨(free unsquashed).1, ?_⟩⟩
    intro mem
    refine (free unsquashed).2 ?_
    rcases List.mem_append.mp mem with front | back
    · exact mem_append_left _ front
    · exact mem_append_right _ (List.mem_cons_of_mem r back)
  retrying := h.retrying

theorem Control.addOther {retry hasPredictor : Bool} {unpredicted : Option InstId}
    {new : List Request} (h : Control insts buf reqs calls retry unpredicted hasPredictor)
    (other : ∀ i, Request.bpred i ∉ new) :
    Control insts buf (reqs ++ new) calls retry unpredicted hasPredictor where
  followed := h.followed
  asked i mem unsquashed := by
    have old : Request.bpred i ∈ reqs :=
      (List.mem_append.mp mem).resolve_right (other i)
    have none : new.count (Request.bpred i) = 0 := List.count_eq_zero.mpr (other i)
    simpa [none] using h.asked i old unsquashed
  predicted := h.predicted
  squashCallbacks := h.squashCallbacks
  waiting u ptr := by
    obtain ⟨predictor, control, issued, free⟩ := h.waiting u ptr
    refine ⟨predictor, control, issued, fun unsquashed => ⟨(free unsquashed).1, fun mem => ?_⟩⟩
    exact (free unsquashed).2 ((List.mem_append.mp mem).resolve_right (other u))
  retrying := h.retrying

end Groups

section Core

variable {cfg : Config} {t : Thread} {before after : List Request} {r : Request} {i : InstId}

theorem Core.removeRequest (inv : Core cfg t) (split : t.requests = before ++ r :: after) :
    Core cfg { t with requests := before ++ after } where
  heap := inv.heap.withRequests fun q mem => inv.heap.requests_lt q (by
    rw [split]
    rcases List.mem_append.mp mem with front | back
    · exact mem_append_left _ front
    · exact mem_append_right _ (List.mem_cons_of_mem r back))
  callbacks := inv.callbacks
  counters := inv.counters.mono fun c held _ => split ▸ held.remove
  milestones := inv.milestones
  tokens := (split ▸ inv.tokens).remove
  stack := inv.stack
  buffer := inv.buffer
  control := (split ▸ inv.control).remove
  stores := inv.stores
  lasts := inv.lasts
  noMacroOp := inv.noMacroOp

theorem Core.enqueue (inv : Core cfg t) (token : r.isToken i = true)
    (fits : (t.insts i).squashed = true ∨ t.Idle i (t.insts i).status ∧ r.Fits (t.insts i)) :
    Core cfg (t.request r) where
  heap := inv.heap.withRequests fun q mem => by
    rcases List.mem_append.mp mem with old | new
    · exact inv.heap.requests_lt q old
    · obtain rfl : q = r := by simpa using new
      obtain ⟨-, rfl⟩ := Request.isToken_iff.mp token
      rcases fits with squashed | ⟨idle, -⟩
      · exact inv.heap.lt_of_squashed squashed
      · exact inv.heap.bounded _ idle.mem
  callbacks := inv.callbacks
  counters := inv.counters.mono fun c held unsquashed => held.add fun q mem holds => by
    obtain rfl : q = r := by simpa using mem
    obtain ⟨-, rfl⟩ := Request.isToken_iff.mp token
    obtain rfl := Request.inst_of_holds holds
    rcases fits with squashed | ⟨idle, -⟩
    · rw [squashed] at unsquashed
      cases unsquashed
    · exact idle.mem
  milestones := inv.milestones
  tokens := inv.tokens.add token (fits.imp_right fun ⟨idle, fits⟩ => ⟨idle.stage, fits⟩)
  stack := inv.stack
  buffer := inv.buffer
  control := inv.control.addOther fun j mem => by
    obtain rfl : Request.bpred j = r := by simpa using mem
    simp [Request.isToken, Request.carries] at token
  stores := inv.stores
  lasts := inv.lasts
  noMacroOp := inv.noMacroOp

theorem Core.transmit (inv : Core cfg t) {p : Packet}
    (split : t.requests = before ++ .mem p :: after) :
    Core cfg { t with
      requests := before ++ after ++ [.memResp p]
      sent := t.sent ++ [p] } := by
  have fewer := inv.removeRequest split
  have lt : p.inst < t.nextInst :=
    inv.heap.requests_lt (.mem p) (by simp [split])
  have fits : (t.insts p.inst).squashed = false → (Request.memResp p).Fits (t.insts p.inst) :=
    inv.tokens.request_fits (.mem p) (by simp [split])
  exact
    { fewer with
      heap := fewer.heap.withRequests fun q mem => by
        rcases List.mem_append.mp mem with old | new
        · exact fewer.heap.requests_lt q old
        · aesop
      counters := inv.counters.mono fun c held _ => by
        rcases held with inside | ⟨q, mem, holds⟩
        · exact Or.inl inside
        · simp only [mem_append, List.mem_singleton] at mem
          rcases mem with (front | back) | rfl
          · exact Or.inr ⟨q, by simp [split, front], holds⟩
          · exact Or.inr ⟨q, by simp [split, back], holds⟩
          · exact Or.inr ⟨.mem p, by simp [split], holds⟩
      tokens := fewer.tokens.addInert [.memResp p] (by simp [Request.carries]) fun r mem => by
        obtain rfl : r = .memResp p := by simpa using mem
        exact fits
      control := fewer.control.addOther (by simp) }

theorem Core.data (inv : Core cfg t) {x : InflightInst} (exists_ : i < t.nextInst)
    (same : x = { t.insts i with
      issueSeqNum := x.issueSeqNum, pcState := x.pcState, sources := x.sources,
      results := x.results, access := x.access, isSplitMemReq := x.isSplitMemReq,
      accessedPAddrs := x.accessedPAddrs, accessedSplitPAddrs := x.accessedSplitPAddrs }) :
    Core cfg { t with insts := Function.update t.insts i x } := by
  have squashed := keep (·.squashed) (congrArg (·.squashed) same)
  have status := keep (·.status) (congrArg (·.status) same)
  have fired := keep (·.fired) (congrArg (·.fired) same)
  have instRef := keep (·.instRef) (congrArg (·.instRef) same)
  have deps := keep (·.deps) (congrArg (·.deps) same)
  have remaining := keep (·.remaining) (congrArg (·.remaining) same)
  have callbacks := keep (·.callbacks) (congrArg (·.callbacks) same)
  have onReady := keep (·.onReady) (congrArg (·.onReady) same)
  have squashCallbacks := keep (·.squashCallbacks) (congrArg (·.squashCallbacks) same)
  exact {
    heap := inv.heap.congr status callbacks deps fun j old => by
      have ne : j ≠ i := (Nat.lt_of_lt_of_le exists_ old).ne'
      simp [ne]
    callbacks := inv.callbacks.congr callbacks deps onReady
    counters := inv.counters.congr squashed deps remaining fired fun _ _ => rfl
    milestones := inv.milestones.congr squashed status fired instRef deps
      fun j _ => squashCallbacks j
    tokens := inv.tokens.congr squashed status fired instRef deps onReady
    stack := inv.stack.congr squashed status instRef
    buffer := inv.buffer.congr squashed status (keep (·.fault) (congrArg (·.fault) same))
      (keep (·.seqNum) (congrArg (·.seqNum) same)) (fun j => congrFun (fired j) _) Iff.rfl
    control := inv.control.congr squashed status instRef squashCallbacks fun _ => id
    stores := inv.stores.congr squashed status instRef deps fun j => congrFun (fired j) _
    lasts := inv.lasts.congr fun j issued => (status j).symm ▸ issued
    noMacroOp := inv.noMacroOp }

theorem Core.stall (inv : Core cfg t) {pc : PCState} (can : t.CanAdvance) : Core cfg (t.stall pc) :=
  { inv with
    control :=
      { inv.control with
        followed := fun i mem unsquashed control issued pending _ => by
          by_cases last : t.back = some i
          · rcases can.control i last control with complete | predicted
            · rcases pending with incomplete | resolving
              · exact absurd incomplete (Nat.not_lt.mpr complete)
              · exact absurd (can.quiet _ resolving) (by simp [Call.protects])
            · exact predicted
          · exact inv.control.followed i mem unsquashed control issued pending (.inl last)
        retrying := fun _ i last => ⟨can.issued i last, can.unsquashed i last⟩ } }

theorem Core.defer (inv : Core cfg t) (can : t.Unpredicted cfg i) :
    Core cfg { t with unpredictedBranch := some i } :=
  { inv with
    control :=
      { inv.control with
        waiting := fun u ptr => by
          obtain rfl : i = u := by simpa using ptr
          exact ⟨can.predictor, can.control, can.issued, fun _ => ⟨can.unpredicted, can.unasked⟩⟩ } }

theorem Core.wake (inv : Core cfg t) :
    Core cfg { t with tc := { t.tc with status := .active } } :=
  { inv with buffer := { inv.buffer with active := fun inactive => by simp at inactive } }

end Core

end Gem5.FlexCPU
