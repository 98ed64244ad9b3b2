import Gem5.Base.CircularQueue
import Mathlib.Data.List.Basic

/-!
# Circular queues and buffers as bounded lists

The contents of a queue are the cells at the places from a first one on, as many as there are
elements; the tail is at the last of these places. Pushing onto a full queue moves the first place
as well, so the queue shows a list that drops its oldest element.
-/

namespace Gem5.Base

open Loops List Function Option

universe u

structure CircularQueue (α : Type u) where
  capacity : Nat
  head : Nat
  tail : Nat
  empty : Bool
  round : Nat
  data : Nat → α

namespace CircularQueue

variable {α : Type u}

def create [Inhabited α] (size : Nat) : CircularQueue α := ⟨size, 1, 0, true, 0, fun _ => default⟩

def flush (q : CircularQueue α) : CircularQueue α :=
  { q with head := 1, round := 0, tail := 0, empty := true }

/-- `operator[]`, with `none` for an index outside of the vector. -/
def at? (q : CircularQueue α) (idx : Nat) : Option α :=
  if idx < q.capacity then some (q.data idx) else none

def store (q : CircularQueue α) (idx : Nat) (val : α) : Option (CircularQueue α) :=
  if idx < q.capacity then some { q with data := Function.update q.data idx val } else none

def front (q : CircularQueue α) : Option α := q.at? q.head

def back (q : CircularQueue α) : Option α := q.at? q.tail

def size (q : CircularQueue α) : Nat :=
  if q.empty then 0
  else if q.head ≤ q.tail then uint32 (q.tail - q.head + 1)
  else uint32 (q.capacity - q.head + q.tail + 1)

def full (q : CircularQueue α) : Bool :=
  !q.empty && (uint32 (q.tail + 1) == q.head || (uint32 (q.tail + 1) == q.capacity && q.head == 0))

def end_ (q : CircularQueue α) : Iterator :=
  let poi := moduloAdd q.tail 1 q.capacity
  ⟨poi, if poi = 0 then uint32 (q.round + 1) else q.round⟩

def begin (q : CircularQueue α) : Iterator :=
  if q.empty then q.end_
  else if q.tail < q.head then ⟨q.head, uint32 (q.round - 1)⟩
  else ⟨q.head, q.round⟩

/-- Increases the tail by one. -/
def advanceTail (q : CircularQueue α) : CircularQueue α :=
  let tail := increase q.capacity q.tail
  { q with
    tail := tail
    round := if tail = 0 then uint32 (q.round + 1) else q.round
    head := if tail = q.head ∧ q.empty = false then increase q.capacity q.head else q.head
    empty := false }

/-- Increases the tail by a number of steps, counted by an `int`. -/
def advanceTailBy (q : CircularQueue α) (len : Nat) : Option (CircularQueue α) :=
  if len < 2 ^ 31 then some (advanceTail^[len] q) else none

def pushBack (q : CircularQueue α) (val : α) : Option (CircularQueue α) :=
  let q := q.advanceTail
  q.store q.tail val

def popFront (q : CircularQueue α) (num_elem : Nat) : Option (CircularQueue α) :=
  if num_elem = 0 then some q
  else
    let hIt := q.begin.add q.capacity num_elem
    if hIt.Le q.end_ then some { q with empty := decide (hIt = q.end_), head := hIt.idx } else none

def popBack (q : CircularQueue α) : Option (CircularQueue α) :=
  if q.empty then none
  else some { q with
    empty := decide (q.head = q.tail)
    round := if q.tail = 0 then uint32 (q.round - 1) else q.round
    tail := decrease q.capacity q.tail }

/-- Copies so many elements from an iterator on. -/
def copyOut (q : CircularQueue α) : Nat → Iterator → Option (List α)
  | 0, _ => some []
  | n + 1, it =>
    (q.at? it.idx).bind fun x => (q.copyOut n (it.next q.capacity)).map fun rest => x :: rest

/-- Copies elements to where an iterator stands. -/
def copyIn (q : CircularQueue α) : List α → Iterator → Option (CircularQueue α)
  | [], _ => some q
  | x :: rest, it => (q.store it.idx x).bind fun q => q.copyIn rest (it.next q.capacity)

/-- `CircleBuf::peek`; a copy makes as many assignments as its ends are apart. -/
def peek (q : CircularQueue α) (offset len : Nat) : Option (List α) :=
  if q.size < offset + len then none
  else
    let first := q.begin.add q.capacity offset
    let last := first.add q.capacity len
    q.copyOut (last.difference q.capacity first).toNat first

/-- `CircleBuf::read` -/
def read (q : CircularQueue α) (len : Nat) : Option (CircularQueue α × List α) :=
  (q.peek 0 len).bind fun out => (q.popFront len).map fun q => (q, out)

/-- `CircleBuf::write`; only the last part of a long input is written. -/
def write (q : CircularQueue α) (input : List α) : Option (CircularQueue α) :=
  let input := if q.capacity < input.length then input.drop (input.length - q.capacity) else input
  (q.copyIn input q.end_).bind fun q => q.advanceTailBy input.length

/-- One round of a loop from `begin` to `end`. -/
def traverseRound (q : CircularQueue α) (s : Iterator × List α) :
    (Iterator × List α) ⊕ Option (List α) :=
  if s.1 = q.end_ then .inr (some s.2)
  else
    match q.at? s.1.idx with
    | none => .inr none
    | some x => .inl (s.1.next q.capacity, s.2 ++ [x])

inductive Op (α : Type u) where
  | pushBack (val : α)
  | popFront (num_elem : Nat)
  | popBack
  | flush
  | write (input : List α)
  | read (len : Nat)

/-- An operation, and the data that a read returns. -/
def step (q : CircularQueue α) : Op α → Option (CircularQueue α × List α)
  | .pushBack val => (q.pushBack val).map fun q => (q, [])
  | .popFront num_elem => (q.popFront num_elem).map fun q => (q, [])
  | .popBack => q.popBack.map fun q => (q, [])
  | .flush => some (q.flush, [])
  | .write input => (q.write input).map fun q => (q, [])
  | .read len => q.read len

/-- An element pushed onto a list of at most `c`. -/
def pushed (c : Nat) (l : List α) (val : α) : List α :=
  if l.length = c then l.tail ++ [val] else l ++ [val]

/-- The operation on the list, and the data it returns. -/
def listStep (c : Nat) (l : List α) : Op α → List α × List α
  | .pushBack val => (pushed c l val, [])
  | .popFront num_elem => (l.drop num_elem, [])
  | .popBack => (l.dropLast, [])
  | .flush => ([], [])
  | .write input => (input.foldl (pushed c) l, [])
  | .read len => (l.drop len, l.take len)

/-- What a caller must keep to. -/
def Admissible (l : List α) : Op α → Prop
  | .popFront num_elem => num_elem ≤ l.length
  | .popBack => l ≠ []
  | .read len => len ≤ l.length
  | _ => True

/-- The sums of indices stay below 2^32 and the distance below 2^31. -/
def Peeks (q : CircularQueue α) (offset len : Nat) : Prop :=
  len = 0 ∨ q.head + offset < 2 ^ 32 ∧ (q.head + offset) % q.capacity + len < 2 ^ 32 ∧ len < 2 ^ 31

/-- The sum of indices stays below 2^32, and the rounds do not wrap between the new head and the
end. -/
def Pops (q : CircularQueue α) (num_elem : Nat) : Prop :=
  num_elem = 0 ∨ q.head + num_elem < 2 ^ 32 ∧
    (q.end_.round ≠ 0 ∨ q.size - num_elem ≤ q.end_.idx)

/-- Elements are added only behind a head within the vector, and fewer than 2^31 at once. -/
def Meets (q : CircularQueue α) : Op α → Prop
  | .pushBack _ => q.head < q.capacity
  | .popFront num_elem => q.Pops num_elem
  | .write input => input = [] ∨ q.head < q.capacity ∧ min input.length q.capacity < 2 ^ 31
  | .read len => q.Peeks 0 len ∧ q.Pops len
  | _ => True

/-- A run of a queue and of the list beside it. -/
inductive Run [Inhabited α] (c : Nat) : CircularQueue α → List α → Prop where
  | start : Run c (create c) []
  | step {q q' : CircularQueue α} {l out : List α} (op : Op α) : Run c q l → Admissible l op →
      q.Meets op → q.step op = some (q', out) → Run c q' (listStep c l op).1

/-- The queue looks like the list. -/
structure Agrees (c : Nat) (q : CircularQueue α) (l : List α) : Prop where
  size : q.size = l.length
  empty : q.empty = true ↔ l = []
  full : q.full = true ↔ l.length = c
  front : ∀ x, l.head? = some x → q.front = some x
  back : ∀ x, l.getLast? = some x → q.back = some x
  traversal : Returns q.traverseRound (q.begin, []) (some l)
  peek : ∀ offset len, offset + len ≤ l.length → q.Peeks offset len →
    q.peek offset len = some ((l.drop offset).take len)

/-- The queue holds the places from `first` on, `len` of them. The head of an empty queue is not
looked at. -/
structure Shape (q : CircularQueue α) (first len : Nat) : Prop where
  small : q.capacity < 2 ^ 32
  positive : 0 < first
  bound : len ≤ q.capacity
  some_cell : 0 < q.capacity
  tail : (⟨q.tail, q.round⟩ : Iterator) = place q.capacity (first + len - 1)
  empty : q.empty = true ↔ len = 0
  head : q.head = first % q.capacity ∨ len = 0 ∧ q.capacity ≤ q.head

section Indices

variable {q : CircularQueue α} {first len : Nat}

/-- Two places less than a turn apart are in the same round, or in two rounds that follow each
other with the later index below the earlier one. -/
theorem rounds_of_lt {c p r : Nat} (le : p ≤ r) (near : r < p + c) :
    r / c = p / c ∧ p % c ≤ r % c ∧ r = p + (r % c - p % c) ∨
      r / c = p / c + 1 ∧ r % c < p % c ∧ r = p + (c - p % c + r % c) := by
  have positive : 0 < c := by omega
  have above : p / c ≤ r / c := Nat.div_le_div_right le
  have next : r / c ≤ p / c + 1 := by
    rw [← Nat.add_div_right p positive]
    exact Nat.div_le_div_right near.le
  have split := Nat.div_add_mod p c
  have split' := Nat.div_add_mod r c
  have inside := Nat.mod_lt p positive
  rcases show r / c = p / c ∨ r / c = p / c + 1 by omega with same | one
  · grind
  · rw [one, Nat.mul_add, Nat.mul_one] at split'
    exact .inr ⟨one, by omega, by omega⟩

theorem Shape.tail_eq (shape : Shape q first len) :
    q.tail = (first + len - 1) % q.capacity ∧ q.round = (first + len - 1) / q.capacity % 2 ^ 32 :=
  Iterator.mk.inj shape.tail

theorem Shape.last_succ (shape : Shape q first len) : first + len - 1 + 1 = first + len := by
  have := shape.positive
  omega

theorem Shape.end_eq (shape : Shape q first len) : q.end_ = place q.capacity (first + len) := by
  have next := place_next (p := first + len - 1) shape.some_cell shape.small
  rw [← shape.tail, shape.last_succ] at next
  exact next

theorem Shape.head_eq (shape : Shape q first len) (some_ : 0 < len) :
    q.head = first % q.capacity := by
  rcases shape.head with eq | ⟨none, -⟩
  · exact eq
  · omega

theorem Shape.begin_eq (shape : Shape q first len) : q.begin = place q.capacity first := by
  rw [begin]
  by_cases none : len = 0
  · rw [if_pos (shape.empty.mpr none), shape.end_eq, none, Nat.add_zero]
  · have head := shape.head_eq (Nat.pos_of_ne_zero none)
    obtain ⟨tail, round⟩ := shape.tail_eq
    have bound := shape.bound
    rw [if_neg (fun e => none (shape.empty.mp e)), head, tail, round, place]
    rcases rounds_of_lt (p := first) (r := first + len - 1) (c := q.capacity) (by omega) (by omega)
      with ⟨same, le, -⟩ | ⟨one, lt, -⟩
    · rw [if_neg (Nat.not_lt.mpr le), same]
    · rw [if_pos lt, one, uint32]
      congr 1
      omega

theorem Shape.size_eq (shape : Shape q first len) : q.size = len := by
  rw [size]
  by_cases none : len = 0
  · rw [if_pos (shape.empty.mpr none), none]
  · have head := shape.head_eq (Nat.pos_of_ne_zero none)
    obtain ⟨tail, -⟩ := shape.tail_eq
    have bound := shape.bound
    have small := shape.small
    have inside := Nat.mod_lt first shape.some_cell
    rw [if_neg (fun e => none (shape.empty.mp e)), head, tail]
    rcases rounds_of_lt (p := first) (r := first + len - 1) (c := q.capacity) (by omega) (by omega)
      with ⟨-, le, eq⟩ | ⟨-, lt, eq⟩
    · rw [if_pos le, uint32]
      omega
    · rw [if_neg (Nat.not_le.mpr lt), uint32]
      omega

theorem Shape.full_iff_index (shape : Shape q first len) (some_ : 0 < len) :
    (first + len) % q.capacity = first % q.capacity ↔ len = q.capacity := by
  have bound := shape.bound
  constructor
  · intro same
    by_contra other
    rcases rounds_of_lt (p := first) (r := first + len) (c := q.capacity) (by omega) (by omega)
      with ⟨-, -, eq⟩ | ⟨-, -, eq⟩ <;> omega
  · intro full
    rw [full, Nat.add_mod_right]

theorem Shape.full_eq (shape : Shape q first len) : q.full = true ↔ len = q.capacity := by
  rw [full]
  by_cases none : len = 0
  · have some_cell := shape.some_cell
    rw [shape.empty.mpr none]
    exact iff_of_false (by simp) (by omega)
  · have head := shape.head_eq (Nat.pos_of_ne_zero none)
    have small := shape.small
    have inside := Nat.mod_lt first shape.some_cell
    have filled : q.empty = false := Bool.eq_false_iff.mpr fun e => none (shape.empty.mp e)
    have next : (first + len) % q.capacity = (q.tail + 1) % q.capacity := by
      rw [shape.tail_eq.1, Nat.mod_add_mod, shape.last_succ]
    have low : q.tail < q.capacity := by
      rw [shape.tail_eq.1]
      exact Nat.mod_lt _ shape.some_cell
    rw [← shape.full_iff_index (Nat.pos_of_ne_zero none), next, filled, head]
    have exact_ : uint32 ((q.tail : Int) + 1) = q.tail + 1 := by
      rw [uint32]
      omega
    simp only [Bool.not_false, Bool.true_and, Bool.or_eq_true, beq_iff_eq, Bool.and_eq_true]
    rcases Nat.eq_or_lt_of_le low with last | before
    · grind [Nat.mod_self]
    · rw [Nat.mod_eq_of_lt before]
      omega

theorem shape_flushed (small : q.capacity < 2 ^ 32) (some_cell : 0 < q.capacity) (head : q.head = 1)
    (tail : q.tail = 0) (round : q.round = 0) (empty : q.empty = true) : Shape q 1 0 := by
  refine ⟨small, Nat.one_pos, Nat.zero_le _, some_cell, ?_, iff_of_true empty rfl, ?_⟩
  · rw [tail, round, place, Nat.zero_mod, Nat.zero_div]
    rfl
  · rw [head]
    rcases Nat.eq_or_lt_of_le some_cell with one | more
    · exact .inr ⟨rfl, by omega⟩
    · exact .inl (Nat.mod_eq_of_lt more).symm

theorem Shape.advance (shape : Shape q first len) (ready : q.head < q.capacity) :
    Shape q.advanceTail (first + (len + 1 - q.capacity)) (min (len + 1) q.capacity) ∧
      q.advanceTail.head < q.capacity := by
  have bound := shape.bound
  have some_cell := shape.some_cell
  have head : q.head = first % q.capacity := by
    rcases shape.head with eq | ⟨-, out⟩
    · exact eq
    · omega
  have next : increase q.capacity q.tail = (first + len) % q.capacity := by
    rw [shape.tail_eq.1, increase_mod some_cell shape.small, shape.last_succ]
  have moved : q.advanceTail.head = (first + (len + 1 - q.capacity)) % q.capacity := by
    rw [advanceTail]
    dsimp only
    rw [next, head]
    by_cases full : len = q.capacity
    · have filled : q.empty = false :=
        Bool.eq_false_iff.mpr fun e => by have := shape.empty.mp e; omega
      rw [if_pos ⟨(shape.full_iff_index (by omega)).mpr full, filled⟩,
        increase_mod some_cell shape.small]
      congr 1
      omega
    · rw [if_neg, show len + 1 - q.capacity = 0 by omega, Nat.add_zero]
      rintro ⟨same, filled⟩
      have nonempty : len ≠ 0 := fun none => by
        rw [shape.empty.mpr none] at filled
        cases filled
      exact full ((shape.full_iff_index (Nat.pos_of_ne_zero nonempty)).mp same)
  refine ⟨⟨shape.small, ?_, Nat.min_le_right _ _, some_cell, ?_, ?_, .inl moved⟩, ?_⟩
  · have := shape.positive
    omega
  · have same : first + (len + 1 - q.capacity) + min (len + 1) q.capacity - 1 = first + len := by
      omega
    rw [same]
    exact shape.end_eq
  · exact iff_of_false Bool.false_ne_true (by omega)
  · rw [moved]
    exact Nat.mod_lt _ some_cell

theorem Shape.advance_iterate (shape : Shape q first len) (n : Nat)
    (ready : 0 < n → q.head < q.capacity) :
    Shape (advanceTail^[n] q) (first + (len + n - q.capacity)) (min (len + n) q.capacity) := by
  have bound := shape.bound
  induction n generalizing q first len with
  | zero => simp_all
  | succ n ih =>
    obtain ⟨moved, inside⟩ := shape.advance (ready n.succ_pos)
    have all := ih moved (fun _ => inside) (Nat.min_le_right _ _)
    change Shape _ (first + (len + 1 - q.capacity) + (min (len + 1) q.capacity + n - q.capacity))
      (min (min (len + 1) q.capacity + n) q.capacity) at all
    rw [iterate_succ_apply]
    convert all using 1 <;> omega

theorem advanceTail_data (q : CircularQueue α) (n : Nat) :
    (advanceTail^[n] q).data = q.data ∧ (advanceTail^[n] q).capacity = q.capacity := by
  induction n generalizing q with
  | zero => exact ⟨rfl, rfl⟩
  | succ n ih => aesop

theorem Shape.popFront (shape : Shape q first len) {n : Nat} (le : n ≤ len) (pops : q.Pops n) :
    ∃ q', q.popFront n = some q' ∧ Shape q' (first + n) (len - n) ∧ q'.data = q.data ∧
      q'.capacity = q.capacity := by
  rw [CircularQueue.popFront]
  by_cases none : n = 0
  · grind
  · obtain ⟨fits, rounds⟩ := pops.resolve_left none
    have bound := shape.bound
    have some_cell := shape.some_cell
    have head := shape.head_eq (by omega)
    have target : q.begin.add q.capacity n = place q.capacity (first + n) := by
      rw [shape.begin_eq]
      exact place_add some_cell (by rw [← head]; exact fits)
    have reached : place q.capacity (first + n) = place q.capacity (first + len) ↔ len - n = 0 := by
      constructor
      · intro same
        by_contra before
        exact place_ne some_cell (by omega) (by omega) same
      · intro all
        rw [show n = len by omega]
    have before : (place q.capacity (first + n)).Le (place q.capacity (first + len)) := by
      rw [shape.end_eq, shape.size_eq, place] at rounds
      rw [Iterator.Le, Iterator.Lt, place, place]
      have inside := Nat.mod_lt (first + n) some_cell
      rcases Nat.eq_or_lt_of_le le with rfl | less
      · omega
      · grind [Nat.lt_or_ge, rounds_of_lt]
    rw [if_neg none, target, shape.end_eq, if_pos before]
    refine ⟨_, rfl, ⟨shape.small, ?_, ?_, some_cell, ?_, ?_, .inl rfl⟩, rfl, rfl⟩
    · have := shape.positive
      omega
    · exact (Nat.sub_le len n).trans bound
    · rw [show first + n + (len - n) - 1 = first + len - 1 by omega]
      exact shape.tail
    · rw [decide_eq_true_iff, reached]

theorem Shape.popBack (shape : Shape q first len) (some_ : 0 < len) :
    ∃ q', q.popBack = some q' ∧ Shape q' first (len - 1) ∧ q'.data = q.data ∧
      q'.capacity = q.capacity := by
  have bound := shape.bound
  have positive := shape.positive
  have head := shape.head_eq some_
  obtain ⟨tail, round⟩ := shape.tail_eq
  have filled : q.empty = false := Bool.eq_false_iff.mpr fun e => by have := shape.empty.mp e; omega
  rw [CircularQueue.popBack, if_neg (by rw [filled]; exact Bool.false_ne_true)]
  refine ⟨_, rfl, ⟨shape.small, positive, ?_, shape.some_cell, ?_, ?_, .inl head⟩, rfl, rfl⟩
  · exact (Nat.sub_le len 1).trans bound
  · have before := place_prev (p := first + (len - 1) - 1) shape.some_cell
    rw [show first + (len - 1) - 1 + 1 = first + len - 1 by omega, ← shape.tail] at before
    exact before
  · rw [decide_eq_true_iff, head, tail]
    rcases Nat.eq_or_lt_of_le some_ with one | more
    · rw [← one]
      exact iff_of_true rfl rfl
    · have apart : first % q.capacity ≠ (first + len - 1) % q.capacity := by
        rcases rounds_of_lt (p := first) (r := first + len - 1) (c := q.capacity) (by omega)
          (by omega) with ⟨-, -, eq⟩ | ⟨-, lt, -⟩ <;> omega
      exact iff_of_false apart (by omega)

end Indices

/-- The cells from the place `first` on hold the elements of the list. -/
def Cells (c : Nat) (data : Nat → α) (first : Nat) (l : List α) : Prop :=
  ∀ i, (inside : i < l.length) → data ((first + i) % c) = l.get ⟨i, inside⟩

/-- The queue shows the list from the place `first` on. -/
structure Holds (c : Nat) (q : CircularQueue α) (first : Nat) (l : List α) : Prop where
  capacity : q.capacity = c
  shape : Shape q first l.length
  cells : Cells c q.data first l

section Contents

variable {c first : Nat} {q : CircularQueue α} {data data' : Nat → α} {l : List α}

theorem mod_ne {p r : Nat} (positive : 0 < c) (less : p < r) (near : r < p + c) :
    r % c ≠ p % c := by
  rcases rounds_of_lt (p := p) (r := r) (c := c) (by omega) near with ⟨-, -, eq⟩ | ⟨-, -, eq⟩ <;>
    omega

theorem Cells.drop (cells : Cells c data first l) (n : Nat) :
    Cells c data (first + n) (l.drop n) := by
  intro i inside
  rw [length_drop] at inside
  rw [Nat.add_assoc, cells (n + i) (by omega)]
  simp

theorem Cells.dropLast (cells : Cells c data first l) : Cells c data first l.dropLast := by
  intro i inside
  rw [length_dropLast] at inside
  rw [cells i (by omega)]
  simp

theorem foldl_pushed (positive : 0 < c) (input : List α) (bound : l.length ≤ c) :
    input.foldl (pushed c) l = (l ++ input).drop (l.length + input.length - c) := by
  induction input generalizing l with
  | nil => simp_all
  | cons x rest ih =>
    rw [List.foldl_cons, pushed]
    split
    · rename_i full
      have tail : (l.tail ++ [x]).length = c := by grind
      obtain ⟨y, more, rfl⟩ := exists_cons_of_length_pos (l := l) (by omega)
      rw [ih (by omega), tail, full, length_cons,
        show c + (rest.length + 1) - c = rest.length + 1 by omega, Nat.add_sub_cancel_left]
      simp
    · have longer : (l ++ [x]).length = l.length + 1 := length_append
      rw [ih (by omega), longer, List.append_assoc, length_cons, singleton_append]
      congr 1
      omega

theorem foldl_pushed_last (positive : 0 < c) {input : List α} (bound : l.length ≤ c)
    (long : c ≤ input.length) :
    (input.drop (input.length - c)).foldl (pushed c) l = input.foldl (pushed c) l := by
  rw [foldl_pushed positive _ bound, foldl_pushed positive _ bound, length_drop,
    show l.length + (input.length - (input.length - c)) - c = l.length + 0 by omega,
    show l.length + input.length - c = l.length + (input.length - c) by omega,
    drop_length_add_append, drop_length_add_append, drop_zero]

theorem Cells.extend (positive : 0 < c) {input : List α} (cells : Cells c data first l)
    (new : Cells c data' (first + l.length) input)
    (old : ∀ k, (∀ j < input.length, k ≠ (first + l.length + j) % c) → data' k = data k) :
    Cells c data' (first + (l.length + input.length - c))
      ((l ++ input).drop (l.length + input.length - c)) := by
  intro i inside
  rw [get_eq_getElem, getElem_drop, Nat.add_assoc]
  rw [length_drop, length_append] at inside
  dsimp only
  by_cases kept : l.length + input.length - c + i < l.length
  · -- The new elements reach less than a turn past an element that stays.
    rw [getElem_append_left kept, old]
    · exact cells _ kept
    · intro j less same
      exact mod_ne positive (by omega) (by omega) same.symm
  · rw [getElem_append_right (by omega)]
    have there := new (l.length + input.length - c + i - l.length) (by omega)
    rw [show first + l.length + (l.length + input.length - c + i - l.length)
      = first + (l.length + input.length - c + i) by omega] at there
    exact there

theorem copyIn_eq (some_cell : 0 < q.capacity) (small : q.capacity < 2 ^ 32) (p : Nat)
    (input : List α) (short : input.length ≤ q.capacity) :
    ∃ data', q.copyIn input (place q.capacity p) = some { q with data := data' } ∧
      Cells q.capacity data' p input ∧
      ∀ k, (∀ j < input.length, k ≠ (p + j) % q.capacity) → data' k = q.data k := by
  induction input generalizing q p with
  | nil => exact ⟨q.data, rfl, fun i inside => absurd inside (Nat.not_lt_zero i), fun _ _ => rfl⟩
  | cons x rest ih =>
    have stored : q.store (place q.capacity p).idx x
        = some { q with data := Function.update q.data (p % q.capacity) x } :=
      if_pos (Nat.mod_lt p some_cell)
    obtain ⟨data', copied, new, old⟩ :=
      ih (q := { q with data := Function.update q.data (p % q.capacity) x }) some_cell small (p + 1)
        (by rw [length_cons] at short; exact (Nat.le_succ _).trans short)
    rw [length_cons] at short
    refine ⟨data', ?_, ?_, ?_⟩
    · grind [copyIn, place_next]
    · intro i inside
      cases i with
      | zero =>
        have first_kept := old (p % q.capacity) fun j less same =>
          mod_ne (p := p) some_cell (by omega) (by omega) same.symm
        exact first_kept.trans (update_self ..)
      | succ i =>
        have there := new i (by rw [length_cons] at inside; omega)
        rw [show p + (i + 1) = p + 1 + i by omega]
        exact there
    · intro k other
      rw [old k fun j less => by
        have := other (j + 1) (by rw [length_cons]; omega)
        rwa [show p + (j + 1) = p + 1 + j by omega] at this]
      exact update_of_ne (other 0 (by rw [length_cons]; omega)) _ _

theorem copyOut_eq (some_cell : 0 < q.capacity) (small : q.capacity < 2 ^ 32) (p : Nat)
    (cells : Cells q.capacity q.data p l) : q.copyOut l.length (place q.capacity p) = some l := by
  induction l generalizing p with
  | nil => rfl
  | cons x rest ih =>
    have head : q.at? (place q.capacity p).idx = some x := by
      rw [at?, place, if_pos (Nat.mod_lt p some_cell)]
      exact congrArg some (cells 0 (Nat.succ_pos _))
    have later : Cells q.capacity q.data (p + 1) rest := cells.drop 1
    rw [length_cons, copyOut, head, bind_some, place_next some_cell small,
      ih (p + 1) later]
    rfl

theorem create_holds [Inhabited α] (positive : 0 < c) (small : c < 2 ^ 32) :
    Holds c (create c : CircularQueue α) 1 [] :=
  ⟨rfl, shape_flushed small positive rfl rfl rfl rfl,
    fun i inside => absurd inside (Nat.not_lt_zero i)⟩

theorem Holds.filled (holds : Holds c q first l) (input : List α) (short : input.length ≤ c)
    (ready : 0 < input.length → q.head < c) (new : Cells c data' (first + l.length) input)
    (old : ∀ k, (∀ j < input.length, k ≠ (first + l.length + j) % c) → data' k = q.data k) :
    Holds c (advanceTail^[input.length] { q with data := data' })
      (first + (l.length + input.length - c)) (input.foldl (pushed c) l) := by
  obtain ⟨rfl, shape, cells⟩ := holds
  have bound := shape.bound
  have filled : Shape { q with data := data' } first l.length := ⟨shape.small, shape.positive,
    shape.bound, shape.some_cell, shape.tail, shape.empty, shape.head⟩
  obtain ⟨same, capacity⟩ := advanceTail_data { q with data := data' } input.length
  rw [foldl_pushed shape.some_cell input bound]
  refine ⟨capacity, ?_, ?_⟩
  · have all := filled.advance_iterate input.length ready
    have length : ((l ++ input).drop (l.length + input.length - q.capacity)).length
        = min (l.length + input.length) q.capacity := by
      rw [length_drop, length_append]
      omega
    rw [length]
    exact all
  · rw [same]
    exact cells.extend shape.some_cell new old

theorem Holds.pushBack (holds : Holds c q first l) (ready : q.head < q.capacity) (val : α) :
    ∃ q' first', q.pushBack val = some q' ∧ Holds c q' first' (pushed c l val) := by
  have shape := holds.shape
  have next : q.advanceTail.tail = (first + l.length) % q.capacity := by
    rw [advanceTail]
    rw [shape.tail_eq.1, increase_mod shape.some_cell shape.small, shape.last_succ]
  have inside := Nat.mod_lt (first + l.length) shape.some_cell
  have stored : q.pushBack val = some (advanceTail^[1]
      { q with data := Function.update q.data ((first + l.length) % q.capacity) val }) := by
    rw [CircularQueue.pushBack, next]
    exact if_pos inside
  have capacity := holds.capacity
  refine ⟨_, _, stored, holds.filled [val] ?_ ?_ ?_ ?_⟩
  · rw [length_singleton]
    omega
  · rw [← capacity]
    exact fun _ => ready
  · intro i less
    obtain rfl : i = 0 := by grind
    rw [← capacity]
    exact update_self ..
  · simp_all

theorem Holds.write (holds : Holds c q first l) {input : List α} (meets : q.Meets (.write input)) :
    ∃ q' first', q.write input = some q' ∧ Holds c q' first' (input.foldl (pushed c) l) := by
  have shape := holds.shape
  have some_cell := shape.some_cell
  -- What is written is the last part of the input, and pushing it is pushing all.
  obtain ⟨part, part_eq, short, count, same⟩ : ∃ part, part = (if q.capacity < input.length
      then input.drop (input.length - q.capacity) else input) ∧ part.length ≤ q.capacity ∧
      part.length = min input.length q.capacity ∧
      part.foldl (pushed q.capacity) l = input.foldl (pushed q.capacity) l := by
    refine ⟨_, rfl, ?_⟩
    split
    · rename_i long
      rw [length_drop]
      exact ⟨by omega, by omega, foldl_pushed_last some_cell shape.bound long.le⟩
    · exact ⟨by omega, by omega, rfl⟩
  obtain ⟨data', copied, new, old⟩ :=
    copyIn_eq some_cell shape.small (first + l.length) part short
  have few : part.length < 2 ^ 31 := by
    rcases meets with rfl | ⟨-, few⟩
    · grind
    · rwa [count]
  have ready : 0 < part.length → q.head < q.capacity := by
    rcases meets with rfl | ⟨ready, -⟩
    · simp [count]
    · exact fun _ => ready
  have written : q.write input = some (advanceTail^[part.length] { q with data := data' }) := by
    rw [CircularQueue.write, ← part_eq, shape.end_eq, copied, bind_some, advanceTailBy, if_pos few]
  obtain ⟨rfl, -, -⟩ := id holds
  rw [← same]
  exact ⟨_, _, written, holds.filled part short ready new old⟩

theorem Holds.popFront (holds : Holds c q first l) {n : Nat} (le : n ≤ l.length)
    (pops : q.Pops n) : ∃ q' first', q.popFront n = some q' ∧ Holds c q' first' (l.drop n) := by
  obtain ⟨q', popped, shape, same, capacity⟩ := holds.shape.popFront le pops
  refine ⟨q', first + n, popped, capacity.trans holds.capacity, ?_, ?_⟩
  · rw [length_drop]
    exact shape
  · rw [same]
    exact holds.cells.drop n

theorem Holds.popBack (holds : Holds c q first l) (some_ : l ≠ []) :
    ∃ q' first', q.popBack = some q' ∧ Holds c q' first' l.dropLast := by
  obtain ⟨q', popped, shape, same, capacity⟩ :=
    holds.shape.popBack (List.length_pos_iff.mpr some_)
  refine ⟨q', first, popped, capacity.trans holds.capacity, ?_, ?_⟩
  · rw [length_dropLast]
    exact shape
  · rw [same]
    exact holds.cells.dropLast

theorem Holds.flush (holds : Holds c q first l) : Holds c q.flush 1 [] :=
  ⟨holds.capacity, shape_flushed holds.shape.small holds.shape.some_cell rfl rfl rfl rfl,
    fun i inside => absurd inside (Nat.not_lt_zero i)⟩

theorem Holds.peek (holds : Holds c q first l) {offset len : Nat} (le : offset + len ≤ l.length)
    (peeks : q.Peeks offset len) : q.peek offset len = some ((l.drop offset).take len) := by
  have shape := holds.shape
  have some_cell := shape.some_cell
  rw [CircularQueue.peek, shape.size_eq, if_neg (Nat.not_lt.mpr le)]
  dsimp only
  by_cases none : len = 0
  · -- No assignment is made, wherever the two equal ends stand.
    have inside : (q.begin.add q.capacity offset).idx < q.capacity := Nat.mod_lt _ some_cell
    rw [none, take_zero, Iterator.add_zero inside shape.small (Iterator.add_round_lt _ _),
      Iterator.difference_self]
    rfl
  · obtain ⟨fits, fits', near⟩ := peeks.resolve_left none
    rw [shape.head_eq (by omega)] at fits fits'
    rw [Nat.mod_add_mod] at fits'
    have start : q.begin.add q.capacity offset = place q.capacity (first + offset) := by
      rw [shape.begin_eq]
      exact place_add some_cell fits
    rw [start, place_add some_cell fits', difference_place some_cell, Nat.cast_add (first + offset),
      add_sub_cancel_left, int32_of_fits (by omega) (by omega), Int.toNat_natCast]
    have shown : Cells q.capacity q.data (first + offset) ((l.drop offset).take len) := by
      rw [holds.capacity]
      intro i inside
      rw [length_take, length_drop] at inside
      have there := holds.cells.drop offset i (by rw [length_drop]; omega)
      rw [there]
      simp
    have count : ((l.drop offset).take len).length = len := by grind
    have copied := copyOut_eq some_cell shape.small (first + offset) shown
    rwa [count] at copied

theorem traverse_from {p : Nat} (some_cell : 0 < q.capacity) (small : q.capacity < 2 ^ 32)
    (cells : Cells q.capacity q.data p l) (bound : l.length ≤ q.capacity)
    (ends : q.end_ = place q.capacity (p + l.length)) (sofar : List α) :
    Returns q.traverseRound (place q.capacity p, sofar) (some (sofar ++ l)) := by
  induction l generalizing p sofar with
  | nil =>
    apply returns_of_exit
    exact (if_pos ends.symm).trans (by rw [append_nil])
  | cons x rest ih =>
    rw [length_cons] at bound ends
    have before : place q.capacity p ≠ q.end_ := by grind [place_ne]
    have head : q.at? (place q.capacity p).idx = some x := by
      rw [at?, place, if_pos (Nat.mod_lt p some_cell)]
      exact congrArg some (cells 0 (Nat.succ_pos _))
    have goes : q.traverseRound (place q.capacity p, sofar)
        = .inl (place q.capacity (p + 1), sofar ++ [x]) := by
      rw [traverseRound, if_neg before]
      rw [head, place_next some_cell small]
    rw [returns_continue_iff goes, show sofar ++ x :: rest = sofar ++ [x] ++ rest by simp]
    exact ih (cells.drop 1) (by omega) (by rw [ends, Nat.add_right_comm, Nat.add_assoc]) _

theorem Holds.agrees (holds : Holds c q first l) : Agrees c q l := by
  have shape := holds.shape
  have cells := holds.cells
  obtain ⟨rfl, -, -⟩ := id holds
  refine ⟨shape.size_eq, shape.empty.trans length_eq_zero_iff, shape.full_eq, ?_, ?_, ?_,
    fun offset len le peeks => holds.peek le peeks⟩
  · intro x first_
    obtain ⟨rest, rfl⟩ := List.head?_eq_some_iff.mp first_
    rw [front, shape.head_eq (Nat.succ_pos _), at?, if_pos (Nat.mod_lt _ shape.some_cell)]
    exact congrArg some (cells 0 (Nat.succ_pos _))
  · intro x last
    obtain ⟨before, rfl⟩ := List.getLast?_eq_some_iff.mp last
    have there := cells before.length (by simp)
    rw [get_eq_getElem, getElem_concat_length] at there
    · have place_eq : first + (before ++ [x]).length - 1 = first + before.length := by
        rw [length_append, length_singleton]
        omega
      rw [back, shape.tail_eq.1, at?, if_pos (Nat.mod_lt _ shape.some_cell), place_eq]
      exact congrArg some there
    · rfl
  · have collected := traverse_from (l := l) (p := first) shape.some_cell shape.small cells
      shape.bound shape.end_eq []
    rwa [← shape.begin_eq] at collected

theorem Holds.step (holds : Holds c q first l) (op : Op α) (admissible : Admissible l op)
    (meets : q.Meets op) : ∃ q' first', q.step op = some (q', (listStep c l op).2) ∧
      Holds c q' first' (listStep c l op).1 := by
  cases op with
  | pushBack val =>
    obtain ⟨q', first', pushed, kept⟩ := holds.pushBack meets val
    refine ⟨q', first', ?_, kept⟩
    rw [CircularQueue.step, pushed]
    rfl
  | popFront =>
    obtain ⟨q', first', popped, kept⟩ := holds.popFront admissible meets
    refine ⟨q', first', ?_, kept⟩
    rw [CircularQueue.step, popped]
    rfl
  | popBack =>
    obtain ⟨q', first', popped, kept⟩ := holds.popBack admissible
    refine ⟨q', first', ?_, kept⟩
    rw [CircularQueue.step, popped]
    rfl
  | flush => exact ⟨q.flush, 1, rfl, holds.flush⟩
  | write =>
    obtain ⟨q', first', written, kept⟩ := holds.write meets
    refine ⟨q', first', ?_, kept⟩
    rw [CircularQueue.step, written]
    rfl
  | read len =>
    obtain ⟨q', first', popped, kept⟩ := holds.popFront admissible meets.2
    have inside : 0 + len ≤ l.length := by aesop
    have peeked := holds.peek inside meets.1
    refine ⟨q', first', ?_, kept⟩
    rw [CircularQueue.step, read, peeked, bind_some, popped]
    rfl

end Contents

theorem Run.holds [Inhabited α] {c : Nat} (positive : 0 < c) (small : c < 2 ^ 32)
    {q : CircularQueue α} {l : List α} (run : Run c q l) : ∃ first, Holds c q first l := by
  induction run with
  | start => exact ⟨1, create_holds positive small⟩
  | step op _ admissible meets eq ih =>
    obtain ⟨first, holds⟩ := ih
    obtain ⟨q', first', eq', kept⟩ := holds.step op admissible meets
    cases eq.symm.trans eq'
    exact ⟨first', kept⟩

/-- In every run whose operations are within their conditions the queue is the list that drops its
oldest element, and the next such operation succeeds with the data of the list. -/
theorem queue_agrees [Inhabited α] (c : Nat) (positive : 0 < c) (small : c < 2 ^ 32)
    (q : CircularQueue α) (l : List α) (run : Run c q l) : Agrees c q l ∧
      ∀ op, Admissible l op → q.Meets op → ∃ q', q.step op = some (q', (listStep c l op).2) := by
  obtain ⟨first, holds⟩ := run.holds positive small
  refine ⟨holds.agrees, fun op admissible meets => ?_⟩
  obtain ⟨q', -, eq, -⟩ := holds.step op admissible meets
  exact ⟨q', eq⟩

theorem queue_agrees_pushed :
    Agrees 2 ⟨2, 1, 1, false, 0, Function.update (fun _ => 0) 1 7⟩ [7] ∧
      ∀ op, Admissible [7] op → Meets ⟨2, 1, 1, false, 0, Function.update (fun _ => 0) 1 7⟩ op →
        ∃ q', step ⟨2, 1, 1, false, 0, Function.update (fun _ => 0) 1 7⟩ op
          = some (q', (listStep 2 [7] op).2) :=
  queue_agrees 2 (by decide) (by decide) ⟨2, 1, 1, false, 0, Function.update (fun _ => 0) 1 7⟩ [7]
    (.step (.pushBack 7) .start trivial (show 1 < 2 by decide) rfl)

/-- A queue of one cell starts with the head at index 1, which is not in the vector. -/
theorem front_of_one_cell : ∃ q, (create 1).step (.pushBack 7) = some (q, []) ∧
    (listStep 1 [] (.pushBack 7)).1 = [7] ∧ ¬Agrees 1 q [7] := by
  refine ⟨⟨1, 1, 0, false, 1, Function.update (fun _ => 0) 0 7⟩, rfl, rfl, fun agrees => ?_⟩
  have outside : front ⟨1, 1, 0, false, 1, Function.update (fun _ => 0) 0 7⟩ = none := rfl
  cases outside.symm.trans (agrees.front 7 rfl)

end CircularQueue

end Gem5.Base
