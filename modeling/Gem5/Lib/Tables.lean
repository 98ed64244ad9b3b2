import Mathlib.Algebra.BigOperators.Group.Finset.Basic
import Mathlib.Algebra.Order.BigOperators.Group.Finset
import Mathlib.Data.Finset.Card
import Mathlib.Data.Fintype.Card

/-!
# Entries of a table

How a sum over the entries of a table, and a number of entries, change when one is replaced.
-/

namespace Sums

open Finset

universe u v

variable {M : Type u} [AddCommMonoid M]

theorem update_add {n i : Nat} (known : i < n) (f : Nat → M) (v : M) :
    ∑ t ∈ range n, Function.update f i v t + f i = ∑ t ∈ range n, f t + v := by
  have mem : i ∈ range n := mem_range.mpr known
  have old := add_sum_erase (range n) f mem
  have new := add_sum_erase (range n) (Function.update f i v) mem
  have same : ∑ t ∈ (range n).erase i, Function.update f i v t = ∑ t ∈ (range n).erase i, f t :=
    sum_congr rfl fun t ht => Function.update_of_ne (ne_of_mem_erase ht) _ _
  rw [Function.update_self] at new
  rw [← new, ← old, same]
  ac_rfl

/-- The same for a table of values that are measured. -/
theorem measure_update {α : Type v} {n i : Nat} (known : i < n) (f : Nat → α) (value : α)
    (measure : α → M) :
    ∑ t ∈ range n, measure (Function.update f i value t) + measure (f i)
      = ∑ t ∈ range n, measure (f t) + measure value := by
  have push : (fun t => measure (Function.update f i value t))
      = Function.update (fun t => measure (f t)) i (measure value) := by
    funext t
    by_cases own : t = i
    · grind
    · rw [Function.update_of_ne own, Function.update_of_ne own]
  rw [push]
  exact update_add known (fun t => measure (f t)) (measure value)

end Sums

namespace Tally

universe u v

variable {ι : Type u} [Fintype ι] [DecidableEq ι] {α : Type v} {p : α → Bool} {f : ι → α} {i : ι}
  {a : α}

def count (p : α → Bool) (f : ι → α) : Nat := (Finset.univ.filter fun i => p (f i) = true).card

omit [DecidableEq ι] in
theorem count_eq_zero : count p f = 0 ↔ ∀ i, p (f i) = false := by
  simp [count, Finset.filter_eq_empty_iff]

omit [DecidableEq ι] in
theorem count_le : count p f ≤ Fintype.card ι := Finset.card_le_univ _

omit [DecidableEq ι] in
theorem count_congr {β : Type v} {q : β → Bool} {g : ι → β} (same : ∀ i, p (f i) = q (g i)) :
    count p f = count q g := by
  simp [count, same]

theorem count_update_same (same : p a = p (f i)) : count p (Function.update f i a) = count p f := by
  have eq : (Finset.univ.filter fun j => p (Function.update f i a j) = true)
      = Finset.univ.filter fun j => p (f j) = true := by
    ext j
    by_cases hj : j = i
    · subst hj
      simp [same]
    · simp [Function.update_of_ne hj]
  rw [count, eq, count]

theorem count_update_gain (old : p (f i) = false) (new : p a = true) :
    count p (Function.update f i a) = count p f + 1 := by
  have eq : (Finset.univ.filter fun j => p (Function.update f i a j) = true)
      = insert i (Finset.univ.filter fun j => p (f j) = true) := by
    ext j
    by_cases hj : j = i
    · subst hj
      simp [new]
    · simp [hj]
  rw [count, eq, Finset.card_insert_of_notMem (by simp [old]), count]

theorem count_update_lose (old : p (f i) = true) (new : p a = false) :
    count p (Function.update f i a) + 1 = count p f := by
  have back : Function.update (Function.update f i a) i (f i) = f := by
    rw [Function.update_idem, Function.update_eq_self]
  have gain := count_update_gain (p := p) (f := Function.update f i a) (i := i) (a := f i)
    (by rw [Function.update_self, new]) old
  rw [back] at gain
  exact gain.symm

end Tally
