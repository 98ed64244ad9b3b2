import Mathlib.Algebra.BigOperators.Group.List.Basic
import Mathlib.Data.BitVec
import Mathlib.Data.List.Forall2
import Mathlib.Tactic.Ring

/-!
# Digits to mixed bases

A number is cut into digits by dividing by one base after the other. Digits below their bases and
what is left of the number determine it, and all of them occur.
-/

namespace Digits

variable {ms ds : List Nat} {r u v : Nat}

/-- The digits of `u`, the lowest first. -/
def digits : List Nat → Nat → List Nat
  | [], _ => []
  | m :: ms, u => u % m :: digits ms (u / m)

/-- The number with the digits `ds`, and `r` above them. -/
def value : List Nat → List Nat → Nat → Nat
  | m :: ms, d :: ds, r => d + m * value ms ds r
  | _, _, r => r

/-- Every digit is below its base. -/
def Fit (ds ms : List Nat) : Prop := List.Forall₂ (· < ·) ds ms

theorem fit_digits (positive : ∀ m ∈ ms, 0 < m) (u : Nat) : Fit (digits ms u) ms := by
  induction ms generalizing u with
  | nil => exact .nil
  | cons m ms ih =>
    exact .cons (Nat.mod_lt u (positive m List.mem_cons_self))
      (ih (fun _ mem => positive _ (List.mem_cons_of_mem m mem)) (u / m))

theorem digits_value (fit : Fit ds ms) (r : Nat) : digits ms (value ms ds r) = ds := by
  induction fit with
  | nil => rfl
  | @cons d m ds ms less _ ih =>
    rw [value, digits, Nat.add_mul_mod_self_left, Nat.mod_eq_of_lt less,
      Nat.add_mul_div_left _ _ (Nat.zero_lt_of_lt less), Nat.div_eq_of_lt less, Nat.zero_add, ih]

theorem value_div (fit : Fit ds ms) (r : Nat) : value ms ds r / ms.prod = r := by
  induction fit with
  | nil => exact Nat.div_one r
  | @cons d m ds ms less _ ih =>
    rw [value, List.prod_cons, ← Nat.div_div_eq_div_mul,
      Nat.add_mul_div_left _ _ (Nat.zero_lt_of_lt less), Nat.div_eq_of_lt less, Nat.zero_add, ih]

theorem value_digits (ms : List Nat) (u : Nat) : value ms (digits ms u) (u / ms.prod) = u := by
  induction ms generalizing u with
  | nil => exact Nat.div_one u
  | cons m ms ih =>
    rw [digits, value, List.prod_cons, ← Nat.div_div_eq_div_mul, ih, Nat.mod_add_div]

/-- Digits and the rest determine the number. -/
theorem eq_of_digits_eq (same : digits ms u = digits ms v) (rest : u / ms.prod = v / ms.prod) :
    u = v := by
  rw [← value_digits ms u, same, rest, value_digits]

end Digits

namespace Products

/-- The upper two digits of a product in base `B`, with the carry of the middle column. -/
def upper (B ah al bh bl : Nat) : Nat :=
  ah * bh + ah * bl / B + al * bh / B + (ah * bl % B + al * bh % B + al * bl / B) / B

theorem upper_eq {B : Nat} (pos : 0 < B) (ah al bh bl : Nat) :
    (ah * B + al) * (bh * B + bl) / (B * B) = upper B ah al bh bl := by
  have columns : (ah * B + al) * (bh * B + bl) =
      B * (B * (ah * bh + ah * bl / B + al * bh / B)
        + (ah * bl % B + al * bh % B + al * bl / B)) + al * bl % B := by
    have mid1 := Nat.div_add_mod (ah * bl) B
    have mid2 := Nat.div_add_mod (al * bh) B
    have low := Nat.div_add_mod (al * bl) B
    calc (ah * B + al) * (bh * B + bl)
        = ah * bh * B * B + (ah * bl) * B + (al * bh) * B + al * bl := by ring
      _ = ah * bh * B * B + (B * (ah * bl / B) + ah * bl % B) * B
          + (B * (al * bh / B) + al * bh % B) * B + (B * (al * bl / B) + al * bl % B) := by
        rw [mid1, mid2, low]
      _ = _ := by ring
  rw [← Nat.div_div_eq_div_mul, columns, Nat.mul_add_div pos,
    Nat.div_eq_of_lt (Nat.mod_lt _ pos), Nat.add_zero, Nat.mul_add_div pos, upper]

theorem upper_lt {B : Nat} (pos : 0 < B) {ah al bh bl : Nat} (ahs : ah < B) (als : al < B)
    (bhs : bh < B) (bls : bl < B) : upper B ah al bh bl < B * B := by
  have digits : ∀ {h l : Nat}, h < B → l < B → h * B + l < B * B := by
    intro h l hs ls
    calc h * B + l < h * B + B := by omega
      _ = (h + 1) * B := by ring
      _ ≤ B * B := Nat.mul_le_mul_right B hs
  rw [← upper_eq pos]
  refine Nat.div_lt_of_lt_mul ?_
  exact Nat.mul_lt_mul'' (digits ahs als) (digits bhs bls)

variable {w : Nat}

/-- The upper digit of a negated two-digit number. -/
theorem neg_high {B h l : Nat} (pos : 0 < B) (hs : h < B) (ls : l < B) :
    (B * B - (B * h + l)) % (B * B) / B % B = (B - 1 - h + if l = 0 then 1 else 0) % B := by
  obtain ⟨k, rfl⟩ : ∃ k, B = h + 1 + k := ⟨B - (h + 1), by omega⟩
  generalize size : h + 1 + k = B at *
  by_cases zero : l = 0
  · subst zero
    have rest : B * B - (B * h + 0) = B * (k + 1) := by
      rw [Nat.add_zero, ← Nat.mul_sub]
      congr 1
      omega
    have digit : B - 1 - h + 1 = k + 1 := by omega
    rw [rest, Nat.mul_mod_mul_left, Nat.mul_div_cancel_left _ pos, Nat.mod_mod, if_pos rfl, digit]
  · have square : B * B = B * h + B + B * k := by
      rw [← size]
      ring
    have rest : B * B - (B * h + l) = B * k + (B - l) := by omega
    have small : B * k + (B - l) < B * B := by omega
    have digit : B - 1 - h + 0 = k := by omega
    rw [rest, Nat.mod_eq_of_lt small, Nat.mul_add_div pos, Nat.div_eq_of_lt (by omega : B - l < B),
      Nat.add_zero, if_neg zero, digit]

/-- The upper half of a negated double word. -/
theorem extract_neg_high (x : BitVec (w + w)) :
    (-x).extractLsb' w w = ~~~x.extractLsb' w w + if x.setWidth w = 0 then 1 else 0 := by
  have pos : 0 < 2 ^ w := Nat.two_pow_pos w
  have whole : 2 ^ (w + w) = 2 ^ w * 2 ^ w := Nat.pow_add 2 w w
  have bound : x.toNat < 2 ^ w * 2 ^ w := whole ▸ x.isLt
  have high : x.toNat / 2 ^ w < 2 ^ w := Nat.div_lt_of_lt_mul bound
  have zero : x.setWidth w = 0 ↔ x.toNat % 2 ^ w = 0 := by
    rw [← BitVec.toNat_inj]
    simp
  have one : (if x.setWidth w = 0 then (1 : BitVec w) else 0).toNat =
      (if x.toNat % 2 ^ w = 0 then 1 else 0) % 2 ^ w := by
    simp only [zero]
    split <;> simp
  apply BitVec.eq_of_toNat_eq
  have digits := neg_high pos high (Nat.mod_lt x.toNat pos)
  rw [Nat.div_add_mod] at digits
  rw [BitVec.toNat_add, BitVec.toNat_not, one, BitVec.extractLsb'_toNat, BitVec.extractLsb'_toNat,
    BitVec.toNat_neg, Nat.shiftRight_eq_div_pow, Nat.shiftRight_eq_div_pow, whole,
    Nat.mod_eq_of_lt high, Nat.add_mod_mod, digits]

/-- A wider signed word is the absolute value with the sign. -/
theorem signExtend_eq_abs {n : Nat} (x : BitVec w) (wider : w ≤ n) :
    x.signExtend n = if x.msb then -x.abs.setWidth n else x.abs.setWidth n := by
  rw [BitVec.abs]
  cases sign : x.msb with
  | false => simp [BitVec.signExtend_eq_setWidth_of_msb_false sign]
  | true =>
    have fits : 2 ^ w ≤ 2 ^ n := Nat.pow_le_pow_right (by omega) wider
    have nonzero : 0 < x.toNat := by grind
    have negated : (-x).toNat = 2 ^ w - x.toNat := by
      rw [BitVec.toNat_neg, Nat.mod_eq_of_lt (by omega)]
    apply BitVec.eq_of_toNat_eq
    rw [BitVec.toNat_signExtend, BitVec.toNat_setWidth, sign, if_pos rfl, if_pos rfl,
      Nat.mod_eq_of_lt (by omega : x.toNat < 2 ^ n), BitVec.toNat_neg, BitVec.toNat_setWidth]
    change _ = (2 ^ n - (-x).toNat % 2 ^ n) % 2 ^ n
    rw [negated, Nat.mod_eq_of_lt (by omega : 2 ^ w - x.toNat < 2 ^ n),
      Nat.mod_eq_of_lt (by omega)]
    omega

end Products
