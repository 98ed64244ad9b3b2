import Gem5.Minor.Buffers

/-!
# The input buffer is a bounded queue

An element that is set while the queue is empty is only pointed to, and may be popped before it is
pushed. Its reservation is given back by the push or by that pop, so a buffer whose elements were
each reserved for has one reservation for each outstanding reserve and one for the element that is
pointed to.
-/

namespace Gem5.Minor.InputBuffer

open List Option

universe u

variable {α : Type u}

inductive Call (α : Type u) where
  /-- A bubble is no element. -/
  | setTail (new_element : Option α)
  | pushTail
  | front
  | pop
  | empty
  | reserve
  | canReserve

inductive Result (α : Type u) where
  | done
  | element (x : α)
  | flag (b : Bool)

/-- A buffer after a call, what the call returned, and whether a push warned of the capacity. -/
structure Return (σ α : Type u) where
  state : σ
  result : Result α
  warned : Bool := false

/-- `Queue::push` warns if it has gone over the capacity. -/
def pushWarns (q : Queue α) (data : α) : Bool := (q.push data).capacity < (q.push data).queue.length

/-- A call, with `none` for a failed assertion and for the front of an empty queue. -/
def call (b : InputBuffer α) : Call α → Option (Return (InputBuffer α) α)
  | .setTail new_element =>
    if b.elementPtr.isSome then none
    else some ⟨b.receive new_element, .done,
      new_element.any fun x => !b.queue.queue.isEmpty && pushWarns b.queue x⟩
  | .pushTail => some ⟨b.pushTail, .done, b.elementPtr.any (pushWarns b.queue)⟩
  | .front => b.front.map fun x => ⟨b, .element x, false⟩
  | .pop =>
    if b.elementPtr.isNone && b.queue.queue.isEmpty then none else some ⟨b.pop, .done, false⟩
  | .empty => some ⟨b, .flag b.empty, false⟩
  | .reserve => some ⟨b.reserve, .done, false⟩
  | .canReserve => some ⟨b, .flag b.canReserve, false⟩

/-- Elements and reserves that no element has used yet. `tailSet` tells whether a `setTail` has not
been followed by its `pushTail`. -/
structure Fifo (α : Type u) where
  capacity : Nat
  elements : List α := []
  outstanding : Nat := 0
  tailSet : Bool := false

namespace Fifo

/-- The space left as the source computes it. -/
def canReserve (f : Fifo α) : Bool :=
  (Queue.toInt32 ((f.capacity : Int) - (f.elements.length + f.outstanding))).toNat != 0

/-- Within the capacity, a positive `int`, this is that there is room. -/
theorem canReserve_iff {f : Fifo α} (small : f.capacity < 2 ^ 31)
    (fits : f.elements.length + f.outstanding ≤ f.capacity) :
    f.canReserve = true ↔ f.elements.length + f.outstanding < f.capacity := by
  let q : Queue α := { capacity := f.capacity, queue := f.elements, numReservedSlots := f.outstanding }
  exact ⟨fun can => Queue.room_of_canReserve (q := q) can fits,
    fun room => Queue.canReserve_of_room (q := q) small room⟩

/-- An element takes the place that was reserved for it as soon as it is set. -/
def enqueue (f : Fifo α) (x : α) : Fifo α :=
  { f with elements := f.elements ++ [x], outstanding := f.outstanding - 1 }

def call (f : Fifo α) : Call α → Option (Return (Fifo α) α)
  | .setTail none => some ⟨{ f with tailSet := true }, .done, false⟩
  | .setTail (some x) => some ⟨{ f.enqueue x with tailSet := true }, .done, false⟩
  | .pushTail => some ⟨{ f with tailSet := false }, .done, false⟩
  | .front => f.elements.head?.map fun x => ⟨f, .element x, false⟩
  | .pop =>
    if f.elements.isEmpty then none
    else some ⟨{ f with elements := f.elements.tail }, .done, false⟩
  | .empty => some ⟨f, .flag f.elements.isEmpty, false⟩
  | .reserve => some ⟨{ f with outstanding := f.outstanding + 1 }, .done, false⟩
  | .canReserve => some ⟨f, .flag f.canReserve, false⟩

/-- An element is set only after its own reserve, and after the `pushTail` of the one before; a
reserve is made only while `canReserve` holds; the front is used only while there is one. -/
def Admissible (f : Fifo α) : Call α → Prop
  | .setTail new_element => f.tailSet = false ∧ (new_element.isSome → 0 < f.outstanding)
  | .front => f.elements ≠ []
  | .pop => f.elements ≠ []
  | .reserve => f.canReserve = true
  | _ => True

end Fifo

/-- A run of a buffer and of the queue beside it. -/
inductive Run (capacity : Nat) : InputBuffer α → Fifo α → Prop where
  | start : Run capacity ⟨{ capacity := capacity }, none⟩ { capacity := capacity }
  | call {b : InputBuffer α} {f : Fifo α} {r : Return (InputBuffer α) α} {r' : Return (Fifo α) α}
      (c : Call α) : Run capacity b f → f.Admissible c → b.call c = some r → f.call c = some r' →
      Run capacity r.state r'.state

/-- The buffer holds the elements of the queue, with a reservation for each outstanding reserve and
for the element that is pointed to. -/
structure Refines (capacity : Nat) (b : InputBuffer α) (f : Fifo α) : Prop where
  ordered : b.Ordered
  contents : b.contents = f.elements
  capacity_eq : b.queue.capacity = capacity
  capacity_eq' : f.capacity = capacity
  settled : f.tailSet = false → b.Settled
  reserved : b.queue.numReservedSlots = f.outstanding + b.elementPtr.toList.length
  fits : b.queue.queue.length + b.elementPtr.toList.length + f.outstanding ≤ capacity

section Refinement

variable {capacity : Nat} {b : InputBuffer α} {f : Fifo α}

theorem contents_length (b : InputBuffer α) :
    b.contents.length = b.elementPtr.toList.length + b.queue.queue.length := by
  rw [contents, length_append]

theorem Refines.canReserve_eq (refines : Refines capacity b f) : b.canReserve = f.canReserve := by
  have length : f.elements.length = b.elementPtr.toList.length + b.queue.queue.length := by
    rw [← refines.contents, contents_length]
  have sums : ((b.queue.queue.length : Int) + b.queue.numReservedSlots)
      = f.elements.length + f.outstanding := by
    rw [refines.reserved, length]
    omega
  rw [canReserve, Queue.canReserve, Queue.unreservedRemainingSpace, sums, refines.capacity_eq,
    ← refines.capacity_eq']
  rfl

theorem pushWarns_of_fits {q : Queue α} {x : α} (room : q.queue.length < q.capacity) :
    pushWarns q x = false := by
  rw [pushWarns, Queue.push, Queue.freeReservation]
  dsimp only
  rw [length_append, length_singleton]
  exact decide_eq_false (by omega)

theorem Refines.setTail (refines : Refines capacity b f) (x : α) (pushed : f.tailSet = false)
    (reserved : 0 < f.outstanding) : b.call (.setTail (some x)) = some ⟨b.setTail x, .done, false⟩ ∧
      Refines capacity (b.setTail x) { f.enqueue x with tailSet := true } := by
  have settled := refines.settled pushed
  have vacant : b.elementPtr = none := settled
  have slots := refines.reserved
  have fits := refines.fits
  have room : b.queue.queue.length < b.queue.capacity := by
    rw [refines.capacity_eq]
    omega
  constructor
  · rw [call, vacant, any_some, pushWarns_of_fits room, Bool.and_false]
    rfl
  · refine ⟨settled.setTail_ordered x, ?_, ?_, refines.capacity_eq',
      (fun h => nomatch h), ?_, ?_⟩
    · rw [contents_setTail settled, refines.contents]
      rfl
    · rw [InputBuffer.setTail]
      split
      · exact refines.capacity_eq
      · exact refines.capacity_eq
    · rw [InputBuffer.setTail, Fifo.enqueue]
      split
      · grind
      · grind [Queue.push, Queue.freeReservation]
    · rw [InputBuffer.setTail, Fifo.enqueue]
      split
      · grind
      · grind [Queue.push]

theorem Refines.pushTail (refines : Refines capacity b f) :
    b.call .pushTail = some ⟨b.pushTail, .done, false⟩ ∧
      Refines capacity b.pushTail { f with tailSet := false } := by
  have slots := refines.reserved
  have fits := refines.fits
  cases pointed : b.elementPtr with
  | none =>
    have settled : b.Settled := pointed
    constructor
    · rw [call, pointed]
      rfl
    · rw [settled.pushTail_eq]
      exact ⟨refines.ordered, refines.contents, refines.capacity_eq, refines.capacity_eq',
        fun _ => settled, slots, fits⟩
  | some x =>
    rw [pointed] at slots fits
    dsimp only [Option.toList, List.length] at slots fits
    have pushed : b.pushTail = { queue := b.queue.push x, elementPtr := none } := by
      rw [InputBuffer.pushTail, pointed]
    have room : b.queue.queue.length < b.queue.capacity := by
      rw [refines.capacity_eq]
      omega
    constructor
    · rw [call, pointed, any_some, pushWarns_of_fits room]
    · refine ⟨(settled_pushTail b).ordered, ?_, ?_, refines.capacity_eq',
        fun _ => settled_pushTail b, ?_, ?_⟩
      · rw [refines.ordered.contents_pushTail]
        exact refines.contents
      · rw [pushed]
        exact refines.capacity_eq
      · grind [Queue.push, Queue.freeReservation]
      · grind [Queue.push]

theorem Refines.pop (refines : Refines capacity b f) (some_ : f.elements ≠ []) :
    b.call .pop = some ⟨b.pop, .done, false⟩ ∧
      Refines capacity b.pop { f with elements := f.elements.tail } := by
  have slots := refines.reserved
  have fits := refines.fits
  have filled : b.empty = false :=
    Bool.eq_false_iff.mpr fun e => some_ (refines.contents ▸ (empty_iff b).mp e)
  constructor
  · have test : (b.elementPtr.isNone && b.queue.queue.isEmpty) = false := filled
    rw [call, test]
    rfl
  · refine ⟨(settled_pop b).ordered, ?_, ?_, refines.capacity_eq', fun _ => settled_pop b, ?_, ?_⟩
    · rw [contents_pop, refines.contents]
    · rw [InputBuffer.pop]
      split <;> exact refines.capacity_eq
    · cases pointed : b.elementPtr with
      | none =>
        rw [pointed] at slots
        rw [InputBuffer.pop, pointed]
        exact slots
      | some x => grind [InputBuffer.pop, Queue.freeReservation]
    · cases pointed : b.elementPtr with
      | none => grind [InputBuffer.pop, Queue.pop]
      | some x => grind [InputBuffer.pop, Queue.freeReservation]

theorem Refines.reserve (refines : Refines capacity b f) (can : f.canReserve = true) :
    Refines capacity b.reserve { f with outstanding := f.outstanding + 1 } := by
  have slots := refines.reserved
  have fits := refines.fits
  have same := refines.capacity_eq
  have room := Queue.room_of_canReserve (refines.canReserve_eq.trans can) (by omega)
  refine ⟨refines.ordered, refines.contents, refines.capacity_eq, refines.capacity_eq',
    refines.settled, ?_, ?_⟩
  · rw [InputBuffer.reserve, Queue.reserve]
    dsimp only
    omega
  · rw [InputBuffer.reserve, Queue.reserve]
    dsimp only
    omega

theorem Refines.call (refines : Refines capacity b f) (c : Call α) (admissible : f.Admissible c) :
    ∃ b' f' result, b.call c = some ⟨b', result, false⟩ ∧ f.call c = some ⟨f', result, false⟩ ∧
      Refines capacity b' f' := by
  cases c with
  | setTail new_element =>
    obtain ⟨pushed, reserved⟩ := admissible
    cases new_element with
    | none =>
      refine ⟨b, { f with tailSet := true }, .done, ?_, rfl, refines.ordered, refines.contents,
        refines.capacity_eq, refines.capacity_eq', (fun h => nomatch h), refines.reserved,
        refines.fits⟩
      have vacant : b.elementPtr = none := refines.settled pushed
      rw [InputBuffer.call, vacant]
      rfl
    | some x =>
      obtain ⟨returned, kept⟩ := refines.setTail x pushed (reserved rfl)
      exact ⟨_, _, _, returned, rfl, kept⟩
  | pushTail =>
    obtain ⟨returned, kept⟩ := refines.pushTail
    exact ⟨_, _, _, returned, rfl, kept⟩
  | front =>
    obtain ⟨x, rest, eq⟩ := exists_cons_of_ne_nil admissible
    refine ⟨b, f, .element x, ?_, ?_, refines⟩
    · rw [InputBuffer.call, front_eq, refines.contents, eq]
      rfl
    · rw [Fifo.call, eq]
      rfl
  | pop =>
    obtain ⟨returned, kept⟩ := refines.pop admissible
    refine ⟨_, _, .done, returned, ?_, kept⟩
    rw [Fifo.call, if_neg fun e => admissible (List.isEmpty_iff.mp e)]
  | empty =>
    have same : b.empty = f.elements.isEmpty := by
      rw [Bool.eq_iff_iff, empty_iff, refines.contents, List.isEmpty_iff]
    refine ⟨b, f, .flag b.empty, rfl, ?_, refines⟩
    rw [Fifo.call, same]
  | reserve => exact ⟨_, _, .done, rfl, rfl, refines.reserve admissible⟩
  | canReserve =>
    refine ⟨b, f, .flag b.canReserve, rfl, ?_, refines⟩
    rw [Fifo.call, refines.canReserve_eq]

theorem Run.refines (run : Run capacity b f) : Refines capacity b f := by
  induction run with
  | start => exact ⟨.inl rfl, rfl, rfl, rfl, fun _ => rfl, rfl, Nat.zero_le _⟩
  | call c _ admissible returned returned' ih =>
    obtain ⟨b', f', result, eq, eq', kept⟩ := ih.call c admissible
    cases eq.symm.trans returned
    cases eq'.symm.trans returned'
    exact kept

/-- In every run the buffer stays within its capacity, reservations included, and the next call
returns what it returns of the bounded queue, without the warning. -/
theorem run_refines (run : Run capacity b f) :
    (b.queue.queue.length + b.elementPtr.toList.length + f.outstanding ≤ capacity ∧
      b.queue.numReservedSlots = f.outstanding + b.elementPtr.toList.length ∧
      b.contents = f.elements) ∧
    ∀ c, f.Admissible c → ∃ b' f' result, b.call c = some ⟨b', result, false⟩ ∧
      f.call c = some ⟨f', result, false⟩ := by
  have refines := run.refines
  refine ⟨⟨refines.fits, refines.reserved, refines.contents⟩, fun c admissible => ?_⟩
  obtain ⟨b', f', result, eq, eq', -⟩ := refines.call c admissible
  exact ⟨b', f', result, eq, eq'⟩

end Refinement

/-- A reserved element is set. -/
theorem run_refines_set :
    ((⟨{ capacity := 1, numReservedSlots := 1, made := 1 }, some 7⟩ : InputBuffer Nat).queue.queue.length
          + 1 + 0 ≤ 1 ∧ 1 = 0 + 1 ∧
      (⟨{ capacity := 1, numReservedSlots := 1, made := 1 }, some 7⟩ : InputBuffer Nat).contents
        = [7]) ∧
    ∀ c, Fifo.Admissible ⟨1, [7], 0, true⟩ c → ∃ b' f' result,
      call ⟨{ capacity := 1, numReservedSlots := 1, made := 1 }, some 7⟩ c = some ⟨b', result, false⟩ ∧
        Fifo.call ⟨1, [7], 0, true⟩ c = some ⟨f', result, false⟩ :=
  run_refines (.call (.setTail (some 7)) (.call .reserve .start (show Fifo.canReserve _ = true by decide) rfl rfl)
    ⟨rfl, fun _ => Nat.one_pos⟩ rfl rfl)

end Gem5.Minor.InputBuffer
