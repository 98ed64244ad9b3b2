import Mathlib.Data.BitVec

/-!
# Prefixes of bit vectors

Two vectors agree on a prefix if their most significant bits are the same. A mask keeps the
bits of a prefix, so that masked vectors compare prefixes.
-/

namespace Prefixes

open BitVec

variable {n w v : Nat} {a b c : BitVec n}

def Agree (w : Nat) (a b : BitVec n) : Prop := ∀ i < w, a.getMsbD i = b.getMsbD i

theorem Agree.refl (w : Nat) (a : BitVec n) : Agree w a a := fun _ _ => rfl

theorem Agree.symm (h : Agree w a b) : Agree w b a := fun i lt => (h i lt).symm

theorem Agree.trans (h : Agree w a b) (h' : Agree w b c) : Agree w a c := fun i lt =>
  (h i lt).trans (h' i lt)

theorem Agree.mono (h : Agree w a b) (le : v ≤ w) : Agree v a b := fun i lt =>
  h i (Nat.lt_of_lt_of_le lt le)

theorem agree_succ_iff : Agree (w + 1) a b ↔ Agree w a b ∧ a.getMsbD w = b.getMsbD w := by
  constructor
  · intro h
    exact ⟨h.mono (Nat.le_succ w), h w (Nat.lt_succ_self w)⟩
  · rintro ⟨h, last⟩ i lt
    rcases Nat.lt_succ_iff_lt_or_eq.mp lt with less | rfl
    · exact h i less
    · exact last

/-- The mask of the first `w` bits. -/
def mask (n w : Nat) : BitVec n := BitVec.allOnes n <<< (n - w)

theorem mask_getMsbD (le : w ≤ n) (i : Nat) : (mask n w).getMsbD i = decide (i < w) := by
  rw [mask, getMsbD_shiftLeft, getMsbD_allOnes]
  exact decide_eq_decide.mpr (by omega)

theorem and_mask_eq_iff (le : w ≤ n) : a &&& mask n w = b &&& mask n w ↔ Agree w a b := by
  constructor
  · intro h i lt
    have bit := congrArg (fun x => BitVec.getMsbD x i) h
    rwa [getMsbD_and, getMsbD_and, mask_getMsbD le, decide_eq_true lt, Bool.and_true,
      Bool.and_true] at bit
  · intro h
    apply eq_of_getMsbD_eq
    intro i _
    rw [getMsbD_and, getMsbD_and, mask_getMsbD le]
    by_cases lt : i < w
    · rw [h i lt]
    · rw [decide_eq_false lt, Bool.and_false, Bool.and_false]

theorem and_mask_and_mask (a : BitVec n) (w : Nat) : a &&& mask n w &&& mask n w = a &&& mask n w := by
  rw [BitVec.and_assoc, BitVec.and_self]

/-- A vector and what a mask leaves of it agree. -/
theorem agree_and_mask (le : w ≤ n) : Agree w (a &&& mask n w) a :=
  (and_mask_eq_iff le).mp (and_mask_and_mask a w)

/-- Masked vectors that agree are equal. -/
theorem eq_of_agree (le : w ≤ n) (left : a &&& mask n w = a) (right : b &&& mask n w = b)
    (h : Agree w a b) : a = b := by
  rw [← left, ← right]
  exact (and_mask_eq_iff le).mpr h

/-- Masking both sides compares a vector with one that is masked. -/
theorem and_mask_eq_left_iff (le : w ≤ n) (masked : b &&& mask n w = b) :
    a &&& mask n w = b ↔ Agree w b a := by
  constructor
  · rintro rfl
    exact agree_and_mask le
  · grind [and_mask_eq_iff]

theorem mask_and_mask_iff (le : w ≤ n) (le' : v ≤ n) :
    mask n w &&& mask n v = mask n w ↔ w ≤ v := by
  constructor
  · intro h
    by_contra less
    have bit := congrArg (fun x => BitVec.getMsbD x v) h
    rw [getMsbD_and, mask_getMsbD le, mask_getMsbD le', decide_eq_false (Nat.lt_irrefl v),
      Bool.and_false, decide_eq_true (Nat.lt_of_not_le less)] at bit
    cases bit
  · intro h
    apply eq_of_getMsbD_eq
    intro i _
    rw [getMsbD_and, mask_getMsbD le, mask_getMsbD le']
    by_cases lt : i < w
    · rw [decide_eq_true lt, decide_eq_true (Nat.lt_of_lt_of_le lt h), Bool.and_true]
    · rw [decide_eq_false lt, Bool.false_and]

theorem mask_inj (le : w ≤ n) (le' : v ≤ n) : mask n w = mask n v ↔ w = v := by
  constructor
  · intro h
    apply Nat.le_antisymm
    · apply (mask_and_mask_iff le le').mp
      rw [h, BitVec.and_self]
    · apply (mask_and_mask_iff le' le).mp
      rw [h, BitVec.and_self]
  · rintro rfl
    rfl

end Prefixes
