import Mathlib.Algebra.GroupWithZero.Nat
import Mathlib.Data.Fin.Basic
import Mathlib.Algebra.NeZero

/-!
# Positions on a ring of slots

An unbounded stack kept in `N` slots: position `x` lives in slot `x mod N`. Two positions less
than `N` apart have different slots.
-/

namespace Ring

variable {N : Nat} [NeZero N]

def next (i : Fin N) : Fin N :=
  if h : i.val + 1 < N then ⟨i.val + 1, h⟩ else 0

def prev (i : Fin N) : Fin N :=
  if i.val = 0 then ⟨N - 1, by have := i.isLt; omega⟩ else ⟨i.val - 1, by omega⟩

/-- The slot of a position. -/
def slot (N : Nat) [NeZero N] (x : Int) : Fin N :=
  ⟨(x % N).toNat, by
    have pos := Nat.pos_of_neZero N
    have lo := Int.emod_nonneg x (b := N) (by omega)
    have hi := Int.emod_lt_of_pos x (b := N) (by omega)
    omega⟩

theorem slot_val (x : Int) : ((slot N x).val : Int) = x % N := by
  have pos := Nat.pos_of_neZero N
  exact Int.toNat_of_nonneg (Int.emod_nonneg x (by omega))

/-- The slot of a position is the one congruent to it. -/
theorem slot_eq {x : Int} {i : Fin N} (h : (N : Int) ∣ x - i.val) : slot N x = i := by
  have hi : (i.val : Int) % N = i.val := Int.emod_eq_of_lt (by omega) (by omega)
  have hx : x % N = (i.val : Int) % N :=
    Int.emod_eq_emod_iff_emod_sub_eq_zero.mpr (Int.emod_eq_zero_of_dvd h)
  have hv := slot_val (N := N) x
  exact Fin.ext (by omega)

theorem dvd_sub_slot (x : Int) : (N : Int) ∣ x - (slot N x).val := by
  rw [slot_val]
  exact Int.dvd_self_sub_emod

theorem slot_coe (i : Fin N) : slot N (i.val : Int) = i :=
  slot_eq ⟨0, by omega⟩

theorem slot_succ (x : Int) : slot N (x + 1) = next (slot N x) := by
  obtain ⟨k, hk⟩ := dvd_sub_slot (N := N) x
  apply slot_eq
  rw [next]
  split
  · refine ⟨k, ?_⟩
    dsimp only
    omega
  · refine ⟨k + 1, ?_⟩
    rw [Int.mul_add, Int.mul_one]
    simp only [Fin.val_zero]
    omega

theorem slot_pred (x : Int) : slot N (x - 1) = prev (slot N x) := by
  obtain ⟨k, hk⟩ := dvd_sub_slot (N := N) x
  apply slot_eq
  rw [prev]
  split
  · refine ⟨k - 1, ?_⟩
    rw [Int.mul_sub, Int.mul_one]
    dsimp only
    omega
  · refine ⟨k, ?_⟩
    dsimp only
    omega

theorem slot_ne {x y : Int} (hne : x ≠ y) (lo : x - N < y) (hi : y < x + N) :
    slot N x ≠ slot N y := by
  intro heq
  obtain ⟨k, hk⟩ := dvd_sub_slot (N := N) x
  obtain ⟨l, hl⟩ := dvd_sub_slot (N := N) y
  have hdvd : (N : Int) ∣ x - y := by
    refine ⟨k - l, ?_⟩
    rw [Int.mul_sub, ← hk, ← hl, heq]
    omega
  have hzero := Int.eq_zero_of_dvd_of_natAbs_lt_natAbs hdvd (by omega)
  omega

end Ring
