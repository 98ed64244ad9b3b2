import Mathlib.Data.List.Basic
import Mathlib.Logic.Function.Basic

/-!
# Doubly linked lists

Nodes carry a pointer to the node before them and one to the node after them. `Segment` reads
the pointers of consecutive nodes as a list; a write to one pointer changes the end of a
segment, or does not touch it.
-/

namespace Chains

universe u

variable {α : Type u} [DecidableEq α]

structure Links (α : Type u) where
  head : α
  tail : α
  prev : α → Option α
  next : α → Option α

variable {lk : Links α} {before after : Option α} {x y : α} {xs ys : List α}

def Links.setPrev (lk : Links α) (x : α) (ptr : Option α) : Links α :=
  { lk with prev := Function.update lk.prev x ptr }

def Links.setNext (lk : Links α) (x : α) (ptr : Option α) : Links α :=
  { lk with next := Function.update lk.next x ptr }

@[simp]
theorem setPrev_prev (lk : Links α) (x : α) (ptr : Option α) (y : α) :
    (lk.setPrev x ptr).prev y = if y = x then ptr else lk.prev y := by
  simp [Links.setPrev, Function.update_apply]

@[simp]
theorem setNext_next (lk : Links α) (x : α) (ptr : Option α) (y : α) :
    (lk.setNext x ptr).next y = if y = x then ptr else lk.next y := by
  simp [Links.setNext, Function.update_apply]

@[simp]
theorem setPrev_next (lk : Links α) (x : α) (ptr : Option α) : (lk.setPrev x ptr).next = lk.next :=
  rfl

@[simp]
theorem setNext_prev (lk : Links α) (x : α) (ptr : Option α) : (lk.setNext x ptr).prev = lk.prev :=
  rfl

@[simp]
theorem setPrev_ends (lk : Links α) (x : α) (ptr : Option α) :
    (lk.setPrev x ptr).head = lk.head ∧ (lk.setPrev x ptr).tail = lk.tail := ⟨rfl, rfl⟩

@[simp]
theorem setNext_ends (lk : Links α) (x : α) (ptr : Option α) :
    (lk.setNext x ptr).head = lk.head ∧ (lk.setNext x ptr).tail = lk.tail := ⟨rfl, rfl⟩

/-- The nodes of the list follow one another, after `before` and in front of `after`. -/
def Segment (lk : Links α) : Option α → List α → Option α → Prop
  | _, [], _ => True
  | before, x :: xs, after =>
    lk.prev x = before ∧ lk.next x = xs.head?.or after ∧ Segment lk (some x) xs after

omit [DecidableEq α] in
theorem segment_append :
    Segment lk before (xs ++ ys) after ↔
      Segment lk before xs (ys.head?.or after) ∧ Segment lk (xs.getLast?.or before) ys after := by
  induction xs generalizing before with
  | nil => simp [Segment]
  | cons x xs ih =>
    have last : (x :: xs).getLast?.or before = xs.getLast?.or (some x) := by
      cases xs with
      | nil => rfl
      | cons => simp [List.getLast?_cons]
    have first : (xs ++ ys).head?.or after = xs.head?.or (ys.head?.or after) := by
      cases xs <;> simp
    rw [List.cons_append, Segment, Segment, ih, last, first]
    constructor
    · rintro ⟨p, n, l, r⟩
      exact ⟨⟨p, n, l⟩, r⟩
    · rintro ⟨⟨p, n, l⟩, r⟩
      exact ⟨p, n, l, r⟩

omit [DecidableEq α] in
theorem Segment.congr {lk' : Links α} (h : Segment lk before xs after)
    (prevs : ∀ x ∈ xs, lk'.prev x = lk.prev x) (nexts : ∀ x ∈ xs, lk'.next x = lk.next x) :
    Segment lk' before xs after := by
  induction xs generalizing before with
  | nil => trivial
  | cons x xs ih =>
    obtain ⟨p, n, rest⟩ := h
    refine ⟨(prevs x (by simp)).trans p, (nexts x (by simp)).trans n, ?_⟩
    exact ih rest (fun y hy => prevs y (by simp [hy])) (fun y hy => nexts y (by simp [hy]))

theorem Segment.setPrev (h : Segment lk before xs after) (outside : x ∉ xs) {ptr : Option α} :
    Segment (lk.setPrev x ptr) before xs after := by
  refine h.congr (fun y hy => ?_) (fun _ _ => rfl)
  have other : y ≠ x := fun same => outside (same ▸ hy)
  simp [other]

theorem Segment.setNext (h : Segment lk before xs after) (outside : x ∉ xs) {ptr : Option α} :
    Segment (lk.setNext x ptr) before xs after := by
  refine h.congr (fun _ _ => rfl) (fun y hy => ?_)
  have other : y ≠ x := fun same => outside (same ▸ hy)
  simp [other]

theorem Segment.setPrev_first (h : Segment lk before xs after) (first : xs.head? = some x)
    (once : xs.Nodup) {ptr : Option α} : Segment (lk.setPrev x ptr) ptr xs after := by
  cases xs with
  | nil => cases first
  | cons y ys =>
    obtain rfl : y = x := by simpa using first
    obtain ⟨_, n, rest⟩ := h
    exact ⟨by simp, n, rest.setPrev (List.nodup_cons.mp once).1⟩

theorem Segment.setNext_last (h : Segment lk before xs after) (last : xs.getLast? = some x)
    (once : xs.Nodup) {ptr : Option α} : Segment (lk.setNext x ptr) before xs ptr := by
  obtain ⟨front, rfl⟩ := List.getLast?_eq_some_iff.mp last
  obtain ⟨left, p, _, _⟩ := segment_append.mp h
  have apart : x ∉ front := fun mem =>
    (List.nodup_append.mp once).2.2 x mem x (List.mem_singleton_self x) rfl
  refine segment_append.mpr ⟨left.setNext apart, p, ?_, trivial⟩
  simp

omit [DecidableEq α] in
theorem segment_singleton : Segment lk before [x] after ↔ lk.prev x = before ∧ lk.next x = after := by
  simp [Segment]

omit [DecidableEq α] in
theorem Segment.next_of_getElem? (h : Segment lk before xs none) {i : Nat} (at_ : xs[i]? = some x) :
    lk.next x = xs[i + 1]? := by
  induction xs generalizing before i with
  | nil => simp at at_
  | cons y ys ih =>
    obtain ⟨_, n, rest⟩ := h
    cases i with
    | zero =>
      obtain rfl : y = x := by simpa using at_
      rw [n]
      cases ys <;> simp
    | succ => exact ih rest (by simpa using at_)

omit [DecidableEq α] in
theorem Segment.prev_of_getElem? (h : Segment lk before xs after) {i : Nat}
    (at_ : xs[i + 1]? = some x) : lk.prev x = xs[i]? := by
  induction xs generalizing before i with
  | nil => simp at at_
  | cons y ys ih =>
    obtain ⟨_, _, rest⟩ := h
    cases i with
    | zero =>
      cases ys with
      | nil => simp at at_
      | cons z zs =>
        obtain rfl : z = x := by simpa using at_
        exact rest.1
    | succ => exact ih rest (by simpa using at_)

/-- The list from head to tail, where the pointers end. -/
structure Spells (lk : Links α) (l : List α) : Prop where
  once : l.Nodup
  head : l.head? = some lk.head
  tail : l.getLast? = some lk.tail
  segment : Segment lk none l none

omit [DecidableEq α] in
theorem Spells.prev_head (h : Spells lk xs) : lk.prev lk.head = none := by
  cases xs with
  | nil => simpa using h.head
  | cons x xs =>
    obtain rfl : x = lk.head := by simpa using h.head
    exact h.segment.1

omit [DecidableEq α] in
theorem Spells.next_tail (h : Spells lk xs) : lk.next lk.tail = none := by
  have last := h.tail
  rw [List.getLast?_eq_getElem?] at last
  rw [h.segment.next_of_getElem? last]
  exact List.getElem?_eq_none (by omega)

theorem segment_range' {lk : Links Nat} {before after : Option Nat} {a k : Nat}
    (first : k ≠ 0 → lk.prev a = before) (prevs : ∀ x, a < x → x < a + k → lk.prev x = some (x - 1))
    (nexts : ∀ x, a ≤ x → x + 1 < a + k → lk.next x = some (x + 1))
    (last : k ≠ 0 → lk.next (a + k - 1) = after) : Segment lk before (List.range' a k) after := by
  induction k generalizing a before with
  | zero => trivial
  | succ k ih =>
    refine ⟨first (Nat.succ_ne_zero k), ?_, ih (fun some_ => ?_) (fun x low high => ?_)
      (fun x low high => ?_) (fun some_ => ?_)⟩
    · cases k with
      | zero => simpa using last
      | succ k => grind [List.range'_succ]
    · exact prevs (a + 1) (Nat.lt_succ_self a) (by omega)
    · exact prevs x (by omega) (by omega)
    · exact nexts x (by omega) (by omega)
    · grind

end Chains
