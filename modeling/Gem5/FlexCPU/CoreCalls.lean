import Gem5.FlexCPU.CoreRequests

/-!
# The call stack

Popping calls and pushing new ones, and the loop over the callbacks of a milestone.
An announcement moves decrements from the future onto the stack, so what is owed to
every counter stays the same.
-/

namespace Gem5.FlexCPU

open Thread

variable {g : Gate} {j : InstId}

section Calls

variable {insts : Insts} {buf : List InstId} {reqs : List Request} {calls rest new : List Call}
  {next i : InstId} {c : Call}

theorem Call.isToken_iff : c.isToken i = true ↔ c.carries = true ∧ c.inst = some i := by
  simp [Call.isToken]

theorem stage_cons (c : Call) :
    stage reqs (c :: rest) i = stage reqs rest i + if c.isToken i then 1 else 0 := by
  simp only [stage, List.countP_cons]
  omega

theorem stage_push (new : List Call) :
    stage reqs (new ++ rest) i = stage reqs rest i + new.countP (Call.isToken i) := by
  simp only [stage, List.countP_append]
  omega

theorem stage_push_inert (inert : ∀ c ∈ new, c.carries = false) :
    stage reqs (new ++ rest) i = stage reqs rest i := by
  have none : new.countP (Call.isToken i) = 0 :=
    List.countP_eq_zero.mpr fun c mem => by simp [Call.isToken, inert c mem]
  rw [stage_push, none, Nat.add_zero]

/-- The calls that decrement a counter. -/
def Call.decrements : Call → Bool
  | run (.decrement _ _) => true
  | _ => false

theorem Call.ne_decrement (other : c.decrements = false) : c ≠ .run (.decrement g j):= by
  rintro rfl
  simp [Call.decrements] at other

theorem count_push_other (other : ∀ c ∈ new, c.decrements = false) :
    (new ++ rest).count (.run (.decrement g j)) = rest.count (.run (.decrement g j)) := by
  have none : new.count (.run (.decrement g j)) = 0 :=
    List.count_eq_zero.mpr fun mem => absurd rfl (Call.ne_decrement (other _ mem))
  rw [List.count_append, none, Nat.zero_add]

theorem owed_cons_other (other : c.decrements = false) :
    owed insts (c :: rest) g j = owed insts rest g j := by
  rw [owed, owed, List.count_cons_of_ne (Call.ne_decrement other)]

theorem owed_push_other (other : ∀ c ∈ new, c.decrements = false) :
    owed insts (new ++ rest) g j = owed insts rest g j := by
  rw [owed, owed, count_push_other other]

theorem Tokens.pop (h : Tokens insts reqs (c :: rest)) (other : c.decrements = false) :
    Tokens insts reqs rest where
  single j unsquashed := by
    have := h.single j unsquashed
    rw [stage_cons] at this
    omega
  request_fits := h.request_fits
  call_fits d mem := h.call_fits d (List.mem_cons_of_mem c mem)
  waiting_exec j unsquashed ready := by
    have := h.waiting_exec j unsquashed ready
    rw [owed_cons_other other, stage_cons] at this
    exact ⟨this.1, fun closed => ⟨(this.2 closed).1, by have := (this.2 closed).2; omega⟩⟩
  waiting_mem j unsquashed ready := by
    have := h.waiting_mem j unsquashed ready
    rw [owed_cons_other other, stage_cons] at this
    refine ⟨this.1, fun closed => ⟨(this.2 closed).1, ?_, (this.2 closed).2.2⟩⟩
    omega

theorem Stack.pop (h : Stack insts buf (c :: rest)) : Stack insts buf rest where
  above := (List.pairwise_cons.mp h.above).2
  needs := h.needs.2
  protects d mem := h.protects d (List.mem_cons_of_mem c mem)
  resolving j mem := by
    obtain ⟨status, control, pop⟩ := h.resolving j (List.mem_cons_of_mem c mem)
    exact ⟨status, control, fun inside => pop (List.mem_cons_of_mem c inside)⟩

theorem Stack.quiet_below (h : Stack insts buf (c :: rest))
    (heavy : ∀ b : Call, b.protects = true → ¬ c.Above b) : ∀ b ∈ rest, b.protects = false := by
  intro b mem
  by_contra protects
  exact heavy b (by simpa using protects) ((List.pairwise_cons.mp h.above).1 b mem)

theorem Tokens.pushInert (h : Tokens insts reqs calls) (inert : ∀ c ∈ new, c.carries = false)
    (other : ∀ c ∈ new, c.decrements = false) : Tokens insts reqs (new ++ calls) where
  single j := by
    rw [stage_push_inert inert]
    exact h.single j
  request_fits := h.request_fits
  call_fits c mem j inst unsquashed := by
    rcases List.mem_append.mp mem with added | old
    · have := inert c added
      unfold Call.Fits
      split <;> simp_all [Call.carries]
    · exact h.call_fits c old j inst unsquashed
  waiting_exec j := by
    rw [owed_push_other other, stage_push_inert inert]
    exact h.waiting_exec j
  waiting_mem j := by
    rw [owed_push_other other, stage_push_inert inert]
    exact h.waiting_mem j

theorem Tokens.pushToken (h : Tokens insts reqs calls) (token : c.isToken i = true)
    (none : stage reqs calls i = 0) (fits : c.Fits (insts i))
    (exec : (insts i).onReady .exec ≠ [] → owed insts calls .exec i ≤ surplus insts .exec i)
    (mem : (insts i).onReady .mem ≠ [] → owed insts calls .mem i = 0) :
    Tokens insts reqs (c :: calls) := by
  obtain ⟨carries, inst⟩ := Call.isToken_iff.mp token
  have other : c.decrements = false := by
    unfold Call.carries at carries
    unfold Call.decrements
    split <;> simp_all
  have elsewhere : ∀ j, j ≠ i → stage reqs (c :: calls) j = stage reqs calls j := by
    intro j ne
    have : c.isToken j = false := by simp [Call.isToken, inst, Ne.symm ne]
    simp [stage_cons, this]
  refine ⟨fun j unsquashed => ?_, h.request_fits, fun d inside j inst' unsquashed => ?_,
    fun j unsquashed ready => ?_, fun j unsquashed ready => ?_⟩
  · by_cases at_i : j = i
    · subst at_i
      simp [stage_cons, none, token]
    · rw [elsewhere j at_i]
      exact h.single j unsquashed
  · rcases List.mem_cons.mp inside with rfl | old
    · grind
    · exact h.call_fits d old j inst' unsquashed
  · obtain ⟨late, waits⟩ := h.waiting_exec j unsquashed ready
    rw [owed_cons_other other]
    refine ⟨late, fun closed => ?_⟩
    by_cases at_i : j = i
    · grind
    · rw [elsewhere j at_i]
      exact waits closed
  · obtain ⟨late, waits⟩ := h.waiting_mem j unsquashed ready
    rw [owed_cons_other other]
    refine ⟨late, fun closed => ?_⟩
    by_cases at_i : j = i
    · grind
    · rw [elsewhere j at_i]
      exact waits closed

end Calls

section Core

variable {cfg : Config} {t : Thread} {c : Call} {rest : List Call} {i : InstId}

theorem Core.pop (inv : Core cfg t) (calls : t.calls = c :: rest) (other : c.decrements = false)
    (stays : c ≠ .commitPop) : Core cfg { t with calls := rest } := by
  have popIff : Call.commitPop ∈ rest ↔ Call.commitPop ∈ t.calls := by
    simp [calls, Ne.symm stays]
  exact
    { inv with
      heap := inv.heap.withCalls fun d mem => inv.heap.calls_lt d (by simp [calls, mem])
      counters := inv.counters.congr (fun _ => rfl) (fun _ => rfl) (fun _ => rfl) (fun _ => rfl)
        fun g j => by rw [calls, List.count_cons_of_ne (Call.ne_decrement other)]
      tokens := (calls ▸ inv.tokens).pop other
      stack := (calls ▸ inv.stack).pop
      buffer := inv.buffer.congr (fun _ => rfl) (fun _ => rfl) (fun _ => rfl) (fun _ => rfl)
        (fun _ => rfl) popIff
      control := inv.control.congr (fun _ => rfl) (fun _ => rfl) (fun _ => rfl) (fun _ => rfl)
        fun j mem => by simp [calls, mem] }

theorem Core.pushFetch (inv : Core cfg t) (idle : t.Idle i .empty) (quiet : t.Quiet) :
    Core cfg { t with calls := .attemptFetch i :: t.calls } := by
  have token : (Call.attemptFetch i).isToken i = true := by
    simp [Call.isToken, Call.carries, Call.inst]
  have waitsExec : (t.insts i).onReady .exec ≠ [] →
      owed t.insts t.calls .exec i ≤ surplus t.insts .exec i := fun ready => by
    have := (inv.tokens.waiting_exec i idle.unsquashed ready).1
    simp [idle.status, Status.le_iff, Status.rank] at this
  have waitsMem : (t.insts i).onReady .mem ≠ [] → owed t.insts t.calls .mem i = 0 := fun ready => by
    have := (inv.tokens.waiting_mem i idle.unsquashed ready).1
    simp [idle.status, Status.le_iff, Status.rank] at this
  exact
    { inv with
      heap := inv.heap.withCalls fun d mem j inst => by
        rcases List.mem_cons.mp mem with rfl | old
        · obtain rfl : i = j := by simpa [Call.inst] using inst
          exact inv.heap.bounded _ idle.mem
        · exact inv.heap.calls_lt d old j inst
      counters := inv.counters.congr (fun _ => rfl) (fun _ => rfl) (fun _ => rfl) (fun _ => rfl)
        fun g j => by rw [List.count_cons_of_ne (by simp)]
      tokens := inv.tokens.pushToken token idle.stage idle.status waitsExec waitsMem
      stack :=
        { above := List.pairwise_cons.mpr ⟨fun b mem => by
            have := quiet b mem
            unfold Call.Above
            split <;> simp_all [Call.protects], inv.stack.above⟩
          needs := ⟨trivial, inv.stack.needs⟩
          protects := fun d mem protects j inst => by
            rcases List.mem_cons.mp mem with rfl | old
            · obtain rfl : i = j := by simpa [Call.inst] using inst
              exact ⟨idle.mem, idle.unsquashed⟩
            · exact inv.stack.protects d old protects j inst
          resolving := fun j mem => by
            have old : Call.resolveControl j ∈ t.calls := by simpa using mem
            simpa using inv.stack.resolving j old }
      buffer := inv.buffer.congr (fun _ => rfl) (fun _ => rfl) (fun _ => rfl) (fun _ => rfl)
        (fun _ => rfl) (by simp)
      control := inv.control.congr (fun _ => rfl) (fun _ => rfl) (fun _ => rfl) (fun _ => rfl)
        fun j mem => by simpa using mem }

theorem Core.pushCommitAll (inv : Core cfg t) (quiet : t.Quiet) :
    Core cfg (t.push [.commitAll false]) :=
  { inv with
    heap := inv.heap.withCalls fun d mem j inst => by
      rcases List.mem_cons.mp mem with rfl | old
      · simp [Call.inst] at inst
      · exact inv.heap.calls_lt d old j inst
    counters := inv.counters.congr (fun _ => rfl) (fun _ => rfl) (fun _ => rfl) (fun _ => rfl)
      fun g j => count_push_other (by simp [Call.decrements])
    tokens := inv.tokens.pushInert (by simp [Call.carries]) (by simp [Call.decrements])
    stack :=
      { above := List.pairwise_cons.mpr ⟨fun b mem => by
          have := quiet b mem
          unfold Call.Above
          split <;> simp_all [Call.protects], inv.stack.above⟩
        needs := ⟨trivial, inv.stack.needs⟩
        protects := fun d mem protects j inst => by
          rcases List.mem_cons.mp mem with rfl | old
          · simp [Call.inst] at inst
          · exact inv.stack.protects d old protects j inst
        resolving := fun j mem => by
          have old : Call.resolveControl j ∈ t.calls := by simpa [push] using mem
          simpa [push] using inv.stack.resolving j old }
    buffer := inv.buffer.congr (fun _ => rfl) (fun _ => rfl) (fun _ => rfl) (fun _ => rfl)
      (fun _ => rfl) (by simp [push])
    control := inv.control.congr (fun _ => rfl) (fun _ => rfl) (fun _ => rfl) (fun _ => rfl)
      fun j mem => by simpa [push] using mem }

end Core

end Gem5.FlexCPU
