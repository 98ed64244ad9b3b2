import Mathlib.Data.Set.Finite.Basic
import Mathlib.Data.Set.Finite.Lattice

/-!
# Deleting positions one by one

A sequence loses the positions of a sorted list, smallest first, so that each later position
has moved down by the number already deleted. What is left determines every other position,
and above the last deleted position it is the sequence shifted.
-/

namespace DropBits

universe u

variable {α : Type u} {f g : Nat → α}

/-- The sequence without position `k`. -/
def drop (k : Nat) (f : Nat → α) : Nat → α := fun j => if j < k then f j else f (j + 1)

/-- Delete the positions of the list, of which `i` below them are gone. -/
def dropAll : Nat → List Nat → (Nat → α) → Nat → α
  | _, [], f => f
  | i, k :: ks, f => dropAll (i + 1) ks (drop (k - i) f)

theorem drop_above {k j : Nat} (h : k ≤ j) : drop k f j = f (j + 1) := by
  rw [drop, if_neg (by omega)]

theorem drop_below {k j : Nat} (h : j < k) : drop k f j = f j := by
  rw [drop, if_pos h]

/-- Equal remainders come from sequences that agree outside the deleted positions. -/
theorem eq_of_dropAll_eq {i : Nat} {ks : List Nat} (sorted : ks.Pairwise (· < ·))
    (from_i : ∀ k ∈ ks, i ≤ k) (h : dropAll i ks f = dropAll i ks g) {j : Nat}
    (kept : i + j ∉ ks) : f j = g j := by
  induction ks generalizing i j f g with
  | nil => exact congrFun h j
  | cons k ks ih =>
    have later : ∀ l ∈ ks, k < l := fun l hl => List.rel_of_pairwise_cons sorted hl
    have hk : i ≤ k := from_i k List.mem_cons_self
    have step := fun m (hm : i + 1 + m ∉ ks) =>
      ih (List.Pairwise.of_cons sorted) (fun l hl => by have := later l hl; omega) h hm
    have hj : j ≠ k - i := by grind
    by_cases hlt : j < k - i
    · have same := step j fun hm => by have := later _ hm; omega
      rwa [drop_below hlt, drop_below hlt] at same
    · obtain ⟨m, rfl⟩ : ∃ m, j = m + 1 := ⟨j - 1, by omega⟩
      have hm : k - i ≤ m := by omega
      have same := step m fun hmem => kept (List.mem_cons_of_mem _ (by
        rwa [show i + (m + 1) = i + 1 + m by omega]))
      rwa [drop_above hm, drop_above hm] at same

/-- Above the deleted positions the sequence is shifted by their number. -/
theorem dropAll_above {i : Nat} {ks : List Nat} {j : Nat}
    (above : ∀ k ∈ ks, k < i + j + ks.length) : dropAll i ks f j = f (j + ks.length) := by
  induction ks generalizing i f with
  | nil => rfl
  | cons k ks ih =>
    rw [List.length_cons] at above ⊢
    rw [dropAll, ih fun l hl => by have := above l (List.mem_cons_of_mem _ hl); omega]
    have hk := above k List.mem_cons_self
    rw [drop_above (by omega)]
    rfl

/-- Every position that is left comes from at most as many positions higher as were deleted. -/
theorem dropAll_from (i : Nat) (ks : List Nat) (f : Nat → α) (j : Nat) :
    ∃ m, j ≤ m ∧ m ≤ j + ks.length ∧ dropAll i ks f j = f m := by
  induction ks generalizing i f with
  | nil => exact ⟨j, le_rfl, le_rfl, rfl⟩
  | cons k ks ih =>
    obtain ⟨m, hjm, hmj, heq⟩ := ih (i + 1) (drop (k - i) f)
    rw [List.length_cons]
    by_cases hlt : m < k - i
    · refine ⟨m, hjm, by omega, ?_⟩
      rw [dropAll, heq, drop_below hlt]
    · refine ⟨m + 1, by omega, by omega, ?_⟩
      rw [dropAll, heq, drop_above (by omega)]

/-- Two sequences that differ somewhere below a bound, and agree from it on, have a last
difference. -/
theorem last_difference {w : Nat} (h : f ≠ g) (agree : ∀ j, w ≤ j → f j = g j) :
    ∃ l, f l ≠ g l ∧ ∀ j, l < j → f j = g j := by
  classical
  obtain ⟨i, hi⟩ := Function.ne_iff.mp h
  have bound : ∀ j, f j ≠ g j → j ≤ w := by grind
  refine ⟨Nat.findGreatest (fun j => f j ≠ g j) w, ?_, ?_⟩
  · exact Nat.findGreatest_spec (P := fun j => f j ≠ g j) (bound i hi) hi
  · intro j hj
    by_contra hne
    exact Nat.findGreatest_is_greatest hj (bound j hne) hne

end DropBits
