import Gem5.Riscv.BaseInsts
import Gem5.Lib.Digits

/-!
# The multiplications and divisions

The instructions of the M extension as the instruction descriptions compute them, and what
the manual prescribes. A product is built from four products of halves; a division of C++
has no result for a zero divisor or for a quotient that overflows.
-/

namespace Gem5.Riscv

open Option BitVec

namespace M

/-- The low 32 bits of a value, and the value that is left. -/
def lo (v : RegVal) : RegVal := (v.setWidth 32).setWidth 64

def hi (v : RegVal) : RegVal := v >>> 32

/-- The high half of a product of unsigned values, in `mulh`, `mulhsu` and `mulhu`. -/
def high (a b : RegVal) : RegVal :=
  let mid1 := hi a * lo b
  let mid2 := lo a * hi b
  let low := lo a * lo b
  let carry := (lo mid1 + lo mid2 + hi low) >>> 32
  hi a * hi b + (mid1 >>> 32) + (mid2 >>> 32) + carry

def mul (a b : RegVal) : RegVal := a * b

def mulh (a b : RegVal) : RegVal :=
  let negate := a.slt 0 != b.slt 0
  let res := high a.abs b.abs
  if negate then ~~~res + (if a * b = 0 then 1 else 0) else res

def mulhsu (a b : RegVal) : RegVal :=
  let negate := a.slt 0
  let res := high a.abs b
  if negate then ~~~res + (if a * b = 0 then 1 else 0) else res

def mulhu (a b : RegVal) : RegVal := high a b

section Division

variable {w : Nat}

/-- The operators `/` and `%` of signed types. -/
def quotient (a b : BitVec w) : Option (BitVec w) :=
  if b = 0 ∨ a = BitVec.intMin w ∧ b = -1 then none else some (a.sdiv b)

def remainder (a b : BitVec w) : Option (BitVec w) :=
  if b = 0 ∨ a = BitVec.intMin w ∧ b = -1 then none else some (a.srem b)

/-- The operators `/` and `%` of unsigned types. -/
def uquotient (a b : BitVec w) : Option (BitVec w) := if b = 0 then none else some (a / b)

def uremainder (a b : BitVec w) : Option (BitVec w) := if b = 0 then none else some (a % b)

end Division

def div (a b : RegVal) : Option RegVal :=
  if b = 0 then some (-1)
  else if a = BitVec.intMin 64 ∧ b = -1 then some (BitVec.intMin 64)
  else quotient a b

def divu (a b : RegVal) : Option RegVal :=
  if b = 0 then some (BitVec.allOnes 64) else uquotient a b

def rem (a b : RegVal) : Option RegVal :=
  if b = 0 then some a
  else if a = BitVec.intMin 64 ∧ b = -1 then some 0
  else remainder a b

def remu (a b : RegVal) : Option RegVal := if b = 0 then some a else uremainder a b

def mulw (a b : RegVal) : RegVal := int64 (int32 a * int32 b)

def divw (a b : RegVal) : Option RegVal :=
  if int32 b = 0 then some (-1)
  else if int32 a = BitVec.intMin 32 ∧ int32 b = -1 then some (int64 (BitVec.intMin 32))
  else (quotient (int32 a) (int32 b)).map int64

def divuw (a b : RegVal) : Option RegVal :=
  if int32 b = 0 then some (BitVec.allOnes 64)
  else (uquotient (int32 a) (int32 b)).map int64

def remw (a b : RegVal) : Option RegVal :=
  if int32 b = 0 then some (int64 (int32 a))
  else if int32 a = BitVec.intMin 32 ∧ int32 b = -1 then some 0
  else (remainder (int32 a) (int32 b)).map int64

def remuw (a b : RegVal) : Option RegVal :=
  if int32 b = 0 then some (int64 (int32 a))
  else (uremainder (int32 a) (int32 b)).map int64

theorem toNat_lo (v : RegVal) : (lo v).toNat = v.toNat % 2 ^ 32 := by
  rw [lo, toNat_setWidth, toNat_setWidth]
  omega

theorem toNat_hi (v : RegVal) : (hi v).toNat = v.toNat / 2 ^ 32 := by
  rw [hi, toNat_ushiftRight, Nat.shiftRight_eq_div_pow]

theorem toNat_mul_halves {u v : RegVal} (us : u.toNat < 2 ^ 32) (vs : v.toNat < 2 ^ 32) :
    (u * v).toNat = u.toNat * v.toNat := by
  have small : u.toNat * v.toNat < 2 ^ 32 * 2 ^ 32 := Nat.mul_lt_mul'' us vs
  rw [toNat_mul, Nat.mod_eq_of_lt (by omega)]

theorem halves_lt (v : RegVal) : (hi v).toNat < 2 ^ 32 ∧ (lo v).toNat < 2 ^ 32 := by
  rw [toNat_hi, toNat_lo]
  omega

theorem halves_eq (v : RegVal) : (hi v).toNat * 2 ^ 32 + (lo v).toNat = v.toNat := by
  rw [toNat_hi, toNat_lo]
  omega

theorem toNat_middle (u v w : RegVal) :
    (lo u + lo v + hi w).toNat = u.toNat % 2 ^ 32 + v.toNat % 2 ^ 32 + w.toNat / 2 ^ 32 := by
  rw [toNat_add, toNat_add, toNat_lo, toNat_lo, toNat_hi]
  omega

theorem toNat_high (a b : RegVal) : (high a b).toNat = a.toNat * b.toNat / 2 ^ 64 := by
  obtain ⟨ahs, als⟩ := halves_lt a
  obtain ⟨bhs, bls⟩ := halves_lt b
  have upper := Products.upper_eq (B := 2 ^ 32) (by decide) (hi a).toNat (lo a).toNat (hi b).toNat
    (lo b).toNat
  have bound := Products.upper_lt (B := 2 ^ 32) (by decide) ahs als bhs bls
  rw [halves_eq, halves_eq, ← Nat.pow_add] at upper
  rw [upper]
  rw [Products.upper, ← Nat.pow_add] at bound
  have shifted : ∀ v : RegVal, (v >>> 32).toNat = v.toNat / 2 ^ 32 := toNat_hi
  simp only [high, Products.upper]
  rw [toNat_add, toNat_add, toNat_add, shifted, shifted, shifted,
    toNat_middle, toNat_mul_halves ahs bhs, toNat_mul_halves ahs bls,
    toNat_mul_halves als bhs, toNat_mul_halves als bls, Nat.mod_add_mod, Nat.add_assoc,
    Nat.mod_add_mod, ← Nat.add_assoc, Nat.mod_eq_of_lt bound]

theorem high_eq (a b : RegVal) :
    high a b = (a.setWidth 128 * b.setWidth 128).extractLsb' 64 64 := by
  apply eq_of_toNat_eq
  have small : a.toNat * b.toNat < 2 ^ 64 * 2 ^ 64 := Nat.mul_lt_mul'' a.isLt b.isLt
  rw [toNat_high, extractLsb'_toNat, toNat_mul, toNat_setWidth,
    toNat_setWidth, Nat.shiftRight_eq_div_pow]
  rw [Nat.mod_eq_of_lt (by omega : a.toNat < 2 ^ 128), Nat.mod_eq_of_lt (by omega : b.toNat < 2 ^ 128)]
  omega

theorem low_zero_iff {x y a b : RegVal} (xs : x = a ∨ x = -a) (ys : y = b ∨ y = -b) :
    (x.setWidth 128 * y.setWidth 128).setWidth 64 = 0 ↔ a * b = 0 := by
  have low : (x.setWidth 128 * y.setWidth 128).setWidth 64 = x * y := by
    rw [setWidth_mul _ _ (by decide), setWidth_setWidth_of_le _ (by decide),
      setWidth_setWidth_of_le _ (by decide), setWidth_eq, setWidth_eq]
  rw [low]
  rcases xs with rfl | rfl <;> rcases ys with rfl | rfl <;> simp

theorem abs_cases (a : RegVal) : a.abs = a ∨ a.abs = -a := by
  rw [BitVec.abs]
  split
  · exact .inr rfl
  · exact .inl rfl

theorem slt_zero (a : RegVal) : a.slt 0 = a.msb := by
  simp [slt_zero_eq_msb]

theorem mulhu_eq (a b : RegVal) :
    mulhu a b = (a.setWidth 128 * b.setWidth 128).extractLsb' 64 64 := high_eq a b

theorem high_neg {x y a b : RegVal} (xs : x = a ∨ x = -a) (ys : y = b ∨ y = -b) :
    ~~~high x y + (if a * b = 0 then 1 else 0) =
      (-(x.setWidth 128 * y.setWidth 128)).extractLsb' 64 64 := by
  have negated := Products.extract_neg_high (w := 64) (x.setWidth 128 * y.setWidth 128)
  rw [negated, high_eq]
  simp only [low_zero_iff xs ys]

theorem mulhsu_eq (a b : RegVal) :
    mulhsu a b = (a.signExtend 128 * b.setWidth 128).extractLsb' 64 64 := by
  rw [Products.signExtend_eq_abs a (by decide)]
  simp only [mulhsu, slt_zero]
  cases a.msb with
  | false => exact high_eq _ _
  | true =>
    have negated := high_neg (abs_cases a) (.inl rfl : b = b ∨ b = -b)
    simp only [↓reduceIte, negated, BitVec.neg_mul]

theorem mulh_eq (a b : RegVal) :
    mulh a b = (a.signExtend 128 * b.signExtend 128).extractLsb' 64 64 := by
  have negated := high_neg (abs_cases a) (abs_cases b)
  rw [Products.signExtend_eq_abs a (by decide), Products.signExtend_eq_abs b (by decide)]
  simp only [mulh, slt_zero]
  cases a.msb with
  | false => grind [high_eq]
  | true => grind [high_eq]

/-- Quotient and remainder of signed values of `w` bits: by zero, on overflow, and otherwise. -/
def prescribedDiv (w : Nat) (a b : Int) : Int :=
  if b = 0 then -1 else if a = -2 ^ (w - 1) ∧ b = -1 then a else a.tdiv b

def prescribedRem (w : Nat) (a b : Int) : Int :=
  if b = 0 then a else if a = -2 ^ (w - 1) ∧ b = -1 then 0 else a.tmod b

def prescribedDivu (w : Nat) (a b : Nat) : Nat := if b = 0 then 2 ^ w - 1 else a / b

def prescribedRemu (a b : Nat) : Nat := if b = 0 then a else a % b

section Prescribed

variable {w : Nat} (a b : BitVec w)

theorem ofInt_neg_one : BitVec.ofInt w (-1) = -1 := by
  rw [ofInt_neg]
  rfl

theorem toInt_eq_zero_iff : b.toInt = 0 ↔ b = 0 := by
  rw [← toInt_inj]
  exact Eq.congr_right BitVec.toInt_zero.symm

theorem overflow_iff (pos : 0 < w) :
    a.toInt = -2 ^ (w - 1) ∧ b.toInt = -1 ↔ a = BitVec.intMin w ∧ b = -1 := by
  have minusOne : (-1 : BitVec w).toInt = -1 := by
    have ones : (-1 : BitVec w) = BitVec.allOnes w := neg_one_eq_allOnes
    rw [ones, toInt_allOnes, if_pos pos]
  rw [← toInt_inj (x := a), ← toInt_inj (x := b), toInt_intMin_of_pos pos,
    minusOne]

theorem guarded_quotient (pos : 0 < w) :
    (if b = 0 then some (-1)
      else if a = BitVec.intMin w ∧ b = -1 then some (BitVec.intMin w)
      else quotient a b) = some (BitVec.ofInt w (prescribedDiv w a.toInt b.toInt)) := by
  simp only [prescribedDiv, toInt_eq_zero_iff, overflow_iff a b pos]
  by_cases zero : b = 0
  · rw [if_pos zero, if_pos zero, ofInt_neg_one]
  · rw [if_neg zero, if_neg zero]
    by_cases overflow : a = BitVec.intMin w ∧ b = -1
    · rw [if_pos overflow, if_pos overflow, ofInt_toInt, overflow.1]
    · rw [if_neg overflow, if_neg overflow, quotient, if_neg (not_or.mpr ⟨zero, overflow⟩)]
      congr 1
      apply eq_of_toInt_eq
      rw [toInt_sdiv, toInt_ofInt]

theorem guarded_remainder (pos : 0 < w) :
    (if b = 0 then some a
      else if a = BitVec.intMin w ∧ b = -1 then some 0
      else remainder a b) = some (BitVec.ofInt w (prescribedRem w a.toInt b.toInt)) := by
  simp only [prescribedRem, toInt_eq_zero_iff, overflow_iff a b pos]
  by_cases zero : b = 0
  · rw [if_pos zero, if_pos zero, ofInt_toInt]
  · grind [remainder, toInt_srem]

theorem toNat_eq_zero_iff : b.toNat = 0 ↔ b = 0 := by
  rw [← toNat_inj]
  exact Eq.congr_right BitVec.toNat_zero.symm

theorem guarded_uquotient :
    (if b = 0 then some (BitVec.allOnes w) else uquotient a b) =
      some (BitVec.ofNat w (prescribedDivu w a.toNat b.toNat)) := by
  simp only [prescribedDivu, toNat_eq_zero_iff]
  by_cases zero : b = 0
  · rw [if_pos zero, if_pos zero]
    congr 1
    apply eq_of_toNat_eq
    simp
  · rw [if_neg zero, if_neg zero, uquotient, if_neg zero, ← toNat_udiv, BitVec.ofNat_toNat,
      setWidth_eq]

theorem guarded_uremainder :
    (if b = 0 then some a else uremainder a b) =
      some (BitVec.ofNat w (prescribedRemu a.toNat b.toNat)) := by
  simp only [prescribedRemu, toNat_eq_zero_iff]
  by_cases zero : b = 0
  · rw [if_pos zero, if_pos zero, BitVec.ofNat_toNat, setWidth_eq]
  · rw [if_neg zero, if_neg zero, uremainder, if_neg zero, ← toNat_umod, BitVec.ofNat_toNat,
      setWidth_eq]

end Prescribed

variable (a b : RegVal)

theorem divw_eq : divw a b =
    some (int64 (BitVec.ofInt 32 (prescribedDiv 32 (int32 a).toInt (int32 b).toInt))) := by
  have narrow := congrArg (Option.map (int64 (w := 32))) (guarded_quotient (int32 a) (int32 b) (by decide))
  rw [map_some] at narrow
  rw [← narrow, divw]
  split
  · rfl
  · split <;> rfl

theorem remw_eq : remw a b =
    some (int64 (BitVec.ofInt 32 (prescribedRem 32 (int32 a).toInt (int32 b).toInt))) := by
  have narrow := congrArg (Option.map (int64 (w := 32)))
    (guarded_remainder (int32 a) (int32 b) (by decide))
  rw [map_some] at narrow
  rw [← narrow, remw]
  split
  · rfl
  · split <;> rfl

theorem divuw_eq : divuw a b =
    some (int64 (BitVec.ofNat 32 (prescribedDivu 32 (int32 a).toNat (int32 b).toNat))) := by
  have narrow := congrArg (Option.map (int64 (w := 32))) (guarded_uquotient (int32 a) (int32 b))
  rw [map_some] at narrow
  rw [← narrow, divuw]
  split <;> rfl

theorem remuw_eq : remuw a b =
    some (int64 (BitVec.ofNat 32 (prescribedRemu (int32 a).toNat (int32 b).toNat))) := by
  have narrow := congrArg (Option.map (int64 (w := 32))) (guarded_uremainder (int32 a) (int32 b))
  rw [map_some] at narrow
  rw [← narrow, remuw]
  split <;> rfl

theorem mulw_eq : mulw a b = int64 (BitVec.ofInt 32 ((int32 a).toInt * (int32 b).toInt)) := by
  rw [mulw, ofInt_mul, ofInt_toInt, ofInt_toInt]

/-- For all operands the instructions compute what the manual prescribes, and no division of
C++ is without a result. -/
theorem m_extension_exact :
    mulh a b = (a.signExtend 128 * b.signExtend 128).extractLsb' 64 64
      ∧ mulhsu a b = (a.signExtend 128 * b.setWidth 128).extractLsb' 64 64
      ∧ mulhu a b = (a.setWidth 128 * b.setWidth 128).extractLsb' 64 64
      ∧ div a b = some (BitVec.ofInt 64 (prescribedDiv 64 a.toInt b.toInt))
      ∧ divu a b = some (BitVec.ofNat 64 (prescribedDivu 64 a.toNat b.toNat))
      ∧ rem a b = some (BitVec.ofInt 64 (prescribedRem 64 a.toInt b.toInt))
      ∧ remu a b = some (BitVec.ofNat 64 (prescribedRemu a.toNat b.toNat))
      ∧ divw a b =
        some (int64 (BitVec.ofInt 32 (prescribedDiv 32 (int32 a).toInt (int32 b).toInt)))
      ∧ divuw a b =
        some (int64 (BitVec.ofNat 32 (prescribedDivu 32 (int32 a).toNat (int32 b).toNat)))
      ∧ remw a b =
        some (int64 (BitVec.ofInt 32 (prescribedRem 32 (int32 a).toInt (int32 b).toInt)))
      ∧ remuw a b =
        some (int64 (BitVec.ofNat 32 (prescribedRemu (int32 a).toNat (int32 b).toNat)))
      ∧ mulw a b = int64 (BitVec.ofInt 32 ((int32 a).toInt * (int32 b).toInt)) :=
  ⟨mulh_eq a b, mulhsu_eq a b, mulhu_eq a b, guarded_quotient a b (by decide),
    guarded_uquotient a b, guarded_remainder a b (by decide), guarded_uremainder a b, divw_eq a b,
    divuw_eq a b, remw_eq a b, remuw_eq a b, mulw_eq a b⟩

/-- The part of `decode OPCODE` for these instructions: what they compute from their two
source registers. -/
def computation (machInst : ExtMachInst) : Option (RegVal → RegVal → Option RegVal) :=
  match (OPCODE machInst).toNat, (FUNCT3 machInst).toNat, (FUNCT7 machInst).toNat with
  | 0x0c, 0x0, 0x01 => some fun a b => some (mul a b)
  | 0x0c, 0x1, 0x01 => some fun a b => some (mulh a b)
  | 0x0c, 0x2, 0x01 => some fun a b => some (mulhsu a b)
  | 0x0c, 0x3, 0x01 => some fun a b => some (mulhu a b)
  | 0x0c, 0x4, 0x01 => some div
  | 0x0c, 0x5, 0x01 => some divu
  | 0x0c, 0x6, 0x01 => some rem
  | 0x0c, 0x7, 0x01 => some remu
  | 0x0e, 0x0, 0x01 => some fun a b => some (mulw a b)
  | 0x0e, 0x4, _ => some divw
  | 0x0e, 0x5, 0x01 => some divuw
  | 0x0e, 0x6, _ => some remw
  | 0x0e, 0x7, _ => some remuw
  | _, _, _ => none

/-- Every instruction of the extension has a result, whatever its operands. -/
theorem computation_defined {machInst : ExtMachInst} {f : RegVal → RegVal → Option RegVal}
    (decoded : computation machInst = some f) (a b : RegVal) : (f a b).isSome = true := by
  rw [computation] at decoded
  split at decoded
  all_goals first
    | contradiction
    | cases decoded
  · rfl
  · rfl
  · rfl
  · rfl
  · rw [div, guarded_quotient a b (by decide), isSome_some]
  · rw [divu, guarded_uquotient, isSome_some]
  · rw [rem, guarded_remainder a b (by decide), isSome_some]
  · rw [remu, guarded_uremainder, isSome_some]
  · rfl
  · rw [divw_eq, isSome_some]
  · rw [divuw_eq, isSome_some]
  · rw [remw_eq, isSome_some]
  · rw [remuw_eq, isSome_some]

end M

end Gem5.Riscv
