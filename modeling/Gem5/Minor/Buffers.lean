import Mathlib.Algebra.GroupWithZero.Nat
import Mathlib.Data.List.Infix
import Mathlib.Data.Int.Basic

/-!
# Queues with reservations

`Minor::Queue` and `Minor::InputBuffer` of `buffers.hh`. A bubble is the absence of an
element. `made` and `freed` count the calls of `reserve` and `freeReservation`; the
source keeps only their saturating difference `numReservedSlots`.
-/

namespace Gem5.Minor

universe u

variable {α : Type u}

/-- `Minor::Queue`. -/
structure Queue (α : Type u) where
  capacity : Nat
  queue : List α := []
  numReservedSlots : Nat := 0
  made : Nat := 0
  freed : Nat := 0

namespace Queue

/-- Conversion to the 32-bit `int`. -/
def toInt32 (x : Int) : Int := x.bmod (2 ^ 32)

def occupiedSpace (q : Queue α) : Nat := q.queue.length

/-- The difference is unsigned and is converted to `int` before it is tested. -/
def unreservedRemainingSpace (q : Queue α) : Nat :=
  (toInt32 ((q.capacity : Int) - (q.queue.length + q.numReservedSlots))).toNat

def canReserve (q : Queue α) : Bool := q.unreservedRemainingSpace != 0

def reserve (q : Queue α) : Queue α :=
  { q with numReservedSlots := q.numReservedSlots + 1, made := q.made + 1 }

def freeReservation (q : Queue α) : Queue α :=
  { q with numReservedSlots := q.numReservedSlots - 1, freed := q.freed + 1 }

/-- A push takes a reserved slot, if there is one, and never fails. -/
def push (q : Queue α) (data : α) : Queue α :=
  { q.freeReservation with queue := q.queue ++ [data] }

def pop (q : Queue α) : Queue α := { q with queue := q.queue.tail }

theorem room_of_canReserve {q : Queue α} (can : q.canReserve = true)
    (fits : q.queue.length + q.numReservedSlots ≤ q.capacity) :
    q.queue.length + q.numReservedSlots < q.capacity := by
  rcases Nat.lt_or_eq_of_le fits with less | full
  · exact less
  · grind [canReserve, unreservedRemainingSpace, toInt32]

theorem canReserve_of_room {q : Queue α} (small : q.capacity < 2 ^ 31)
    (room : q.queue.length + q.numReservedSlots < q.capacity) : q.canReserve = true := by
  have same : toInt32 ((q.capacity : Int) - (q.queue.length + q.numReservedSlots))
      = (q.capacity : Int) - (q.queue.length + q.numReservedSlots) := by
    apply Int.bmod_eq_of_le
    · omega
    · omega
  simp only [canReserve, unreservedRemainingSpace, bne_iff_ne]
  omega

end Queue

/-- `Minor::InputBuffer`. Until `pushTail`, `elementPtr` points to the element of this
cycle in the latch. -/
structure InputBuffer (α : Type u) where
  queue : Queue α
  elementPtr : Option α := none

variable {b c : InputBuffer α}

namespace InputBuffer

/-- Everything that `front` and `pop` will deliver, in order. -/
def contents (b : InputBuffer α) : List α := b.elementPtr.toList ++ b.queue.queue

def empty (b : InputBuffer α) : Bool := b.elementPtr.isNone && b.queue.queue.isEmpty

def front (b : InputBuffer α) : Option α := b.elementPtr.or b.queue.queue.head?

/-- An element that comes to an empty queue stays in the latch for this cycle. -/
def setTail (b : InputBuffer α) (newElement : α) : InputBuffer α :=
  if b.queue.queue.isEmpty then { b with elementPtr := some newElement }
  else { b with queue := b.queue.push newElement }

/-- An element popped from the latch gives back the slot that its push would have taken. -/
def pop (b : InputBuffer α) : InputBuffer α :=
  match b.elementPtr with
  | some _ => { queue := b.queue.freeReservation, elementPtr := none }
  | none => { b with queue := b.queue.pop }

def pushTail (b : InputBuffer α) : InputBuffer α :=
  match b.elementPtr with
  | some element => { queue := b.queue.push element, elementPtr := none }
  | none => b

def canReserve (b : InputBuffer α) : Bool := b.queue.canReserve

def reserve (b : InputBuffer α) : InputBuffer α := { b with queue := b.queue.reserve }

def freeReservation (b : InputBuffer α) : InputBuffer α :=
  { b with queue := b.queue.freeReservation }

/-- Between two cycles nothing is left in the latch. -/
def Settled (b : InputBuffer α) : Prop := b.elementPtr = none

theorem front_eq (b : InputBuffer α) : b.front = b.contents.head? := by
  cases h : b.elementPtr <;> simp [front, contents]

theorem empty_iff (b : InputBuffer α) : b.empty = true ↔ b.contents = [] := by
  cases h : b.elementPtr <;> simp [empty, contents]

theorem contents_of_settled (settled : b.Settled) : b.contents = b.queue.queue:= by
  simp [contents, show b.elementPtr = none from settled]

theorem contents_setTail (settled : b.Settled) (x : α) :
    (b.setTail x).contents = b.contents ++ [x] := by
  have none : b.elementPtr = none := settled
  simp only [setTail]
  split
  next h => simp [contents, none, List.isEmpty_iff.mp h]
  next => simp [contents, Queue.push]

theorem contents_pop (b : InputBuffer α) : b.pop.contents = b.contents.tail := by
  cases h : b.elementPtr <;> simp [pop, contents, h, Queue.freeReservation, Queue.pop]

/-- What `pop` needs to find: the latch is used only while the queue is empty. -/
def Ordered (b : InputBuffer α) : Prop := b.elementPtr = none ∨ b.queue.queue = []

theorem Settled.ordered (settled : b.Settled) : b.Ordered := .inl settled

theorem Settled.setTail_ordered (settled : b.Settled) (x : α) : (b.setTail x).Ordered:= by
  simp only [setTail]
  split
  next h => exact .inr (List.isEmpty_iff.mp h)
  next => exact .inl settled

theorem settled_pop (b : InputBuffer α) : b.pop.Settled := by
  cases h : b.elementPtr <;> simp [pop, h, Settled]

theorem Ordered.contents_pushTail (ordered : b.Ordered) : b.pushTail.contents = b.contents:= by
  rcases ordered with none | nil
  · simp [pushTail, none]
  · cases h : b.elementPtr <;> simp [pushTail, contents, h, nil, Queue.push]

theorem Settled.pushTail_eq (settled : b.Settled) : b.pushTail = b := by
  simp [pushTail, show b.elementPtr = none from settled]

theorem settled_pushTail (b : InputBuffer α) : b.pushTail.Settled := by
  cases h : b.elementPtr <;> simp [pushTail, h, Settled]

/-- `Popped b c`: some pops lead from `b` to `c`. -/
inductive Popped (b : InputBuffer α) : InputBuffer α → Prop where
  | refl : Popped b b
  | pop {c : InputBuffer α} : Popped b c → Popped b c.pop

theorem Popped.trans {d : InputBuffer α} (first : Popped b c) (second : Popped c d) :
    Popped b d := by
  induction second with
  | refl => exact first
  | pop _ ih => exact ih.pop

theorem Popped.contents (popped : Popped b c) : c.contents <:+ b.contents:= by
  induction popped with
  | refl => exact List.suffix_refl _
  | pop _ ih => exact contents_pop _ ▸ (List.tail_suffix _).trans ih

theorem Settled.popped (settled : b.Settled) (popped : Popped b c) : c.Settled:= by
  cases popped with
  | refl => exact settled
  | pop => exact settled_pop _

/-- The buffer once the latch has shown it the element of this cycle, if any. -/
def receive (b : InputBuffer α) (incoming : Option α) : InputBuffer α :=
  match incoming with
  | some element => b.setTail element
  | none => b

/-- What a cycle of the reading stage does to its buffer: the element of this cycle comes
in and gives back its slot, and elements leave at the front. -/
structure Served (b : InputBuffer α) (incoming : Option α) (c : InputBuffer α) : Prop where
  settled : c.Settled
  contents : c.contents <:+ b.contents ++ incoming.toList
  capacity : c.queue.capacity = b.queue.capacity
  made : c.queue.made = b.queue.made
  freed : c.queue.freed = b.queue.freed + incoming.toList.length
  reserved : c.queue.numReservedSlots = b.queue.numReservedSlots - incoming.toList.length

/-- The same before `pushTail`: an element still in the latch holds its slot. -/
structure Serving (b : InputBuffer α) (incoming : Option α) (c : InputBuffer α) : Prop where
  ordered : c.Ordered
  contents : c.contents <:+ b.contents ++ incoming.toList
  capacity : c.queue.capacity = b.queue.capacity
  made : c.queue.made = b.queue.made
  freed : c.queue.freed + c.elementPtr.toList.length
    = b.queue.freed + incoming.toList.length
  reserved : c.queue.numReservedSlots - c.elementPtr.toList.length
    = b.queue.numReservedSlots - incoming.toList.length

theorem Settled.receive (settled : b.Settled) (incoming : Option α) :
    Serving b incoming (b.receive incoming) := by
  have vacant : b.elementPtr = none := settled
  cases incoming with
  | none => exact ⟨settled.ordered, by simp [InputBuffer.receive], rfl, rfl, by
      simp [InputBuffer.receive, vacant], by simp [InputBuffer.receive, vacant]⟩
  | some x =>
    refine ⟨settled.setTail_ordered x, ?_, ?_, ?_, ?_, ?_⟩
    · exact (contents_setTail settled x).symm ▸ List.suffix_refl _
    all_goals
      simp only [InputBuffer.receive, setTail]
      split
    all_goals simp [Queue.push, Queue.freeReservation, vacant]

theorem Serving.pop {b c : InputBuffer α} {incoming : Option α}
    (serving : Serving b incoming c) : Serving b incoming c.pop := by
  obtain ⟨-, contents, capacity, made, freed, reserved⟩ := serving
  have suffix : c.pop.contents <:+ b.contents ++ incoming.toList :=
    contents_pop c ▸ (List.tail_suffix _).trans contents
  cases h : c.elementPtr with
  | none =>
    refine ⟨(settled_pop c).ordered, suffix, ?_, ?_, ?_, ?_⟩
    all_goals simp_all [InputBuffer.pop, Queue.pop]
  | some x =>
    refine ⟨(settled_pop c).ordered, suffix, ?_, ?_, ?_, ?_⟩
    all_goals simp_all [InputBuffer.pop, Queue.freeReservation]

theorem Serving.popped {d : InputBuffer α} {incoming : Option α}
    (serving : Serving b incoming c) (popped : Popped c d) : Serving b incoming d := by
  induction popped with
  | refl => exact serving
  | pop _ ih => exact ih.pop

theorem Serving.pushTail {incoming : Option α}
    (serving : Serving b incoming c) : Served b incoming c.pushTail := by
  obtain ⟨ordered, contents, capacity, made, freed, reserved⟩ := serving
  have suffix : c.pushTail.contents <:+ b.contents ++ incoming.toList :=
    ordered.contents_pushTail ▸ contents
  cases h : c.elementPtr with
  | none =>
    refine ⟨settled_pushTail c, suffix, ?_, ?_, ?_, ?_⟩
    all_goals simp_all [InputBuffer.pushTail]
  | some x =>
    refine ⟨settled_pushTail c, suffix, ?_, ?_, ?_, ?_⟩
    all_goals simp_all [InputBuffer.pushTail, Queue.push, Queue.freeReservation]

theorem Settled.served (settled : b.Settled) (incoming : Option α)
    (popped : Popped (b.receive incoming) c) : Served b incoming c.pushTail :=
  ((settled.receive incoming).popped popped).pushTail

end InputBuffer

/-- A `Latch` between two stages: one slot for each cycle of delay, the next output in
front. -/
abbrev Latch (α : Type u) := List (Option α)

namespace Latch

def output (l : Latch α) : Option α := l.head?.join

/-- The latch after its `evaluate`, when `input` was written in this cycle. -/
def advance (l : Latch α) (input : Option α) : Latch α := l.tail ++ [input]

end Latch

end Gem5.Minor
