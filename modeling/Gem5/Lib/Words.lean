import Mathlib.Data.BitVec
import Mathlib.Data.Nat.Basic

/-!
# Words

Words as the pieces that memory holds, and as the fields of a floating-point format.
-/

namespace Pieces

variable {b v w : Nat}

/-- The pieces are shifted in from the highest one down. -/
def join (v : Nat) (pieces : List (BitVec b)) : BitVec v :=
  pieces.foldr (fun piece value => value <<< b ||| piece.setWidth v) 0

/-- Piece `i` of a list of words that have `n` pieces each. -/
def pieceAt (b n : Nat) (words : List (BitVec w)) (i : Nat) : BitVec b :=
  (words.getD (i / n) 0).extractLsb' (b * (i % n)) b

theorem getLsbD_join (pieces : List (BitVec b)) (pos : 0 < b) {i : Nat} (inside : i < v) :
    (join v pieces).getLsbD i = (pieces.getD (i / b) 0).getLsbD (i % b) := by
  induction pieces generalizing i with
  | nil => simp [join]
  | cons piece pieces ih =>
    have step : join v (piece :: pieces) = join v pieces <<< b ||| piece.setWidth v := rfl
    rw [step, BitVec.getLsbD_or, BitVec.getLsbD_shiftLeft, BitVec.getLsbD_setWidth]
    by_cases low : i < b
    · simp [low, inside, Nat.div_eq_of_lt low, Nat.mod_eq_of_lt low]
    · have high : b ≤ i := Nat.le_of_not_lt low
      have none : piece.getLsbD i = false := BitVec.getLsbD_of_ge piece i high
      rw [none, Nat.div_eq_sub_div pos high, List.getD_cons_succ, Nat.mod_eq_sub_mod high,
        ← ih (by omega)]
      simp [low, inside]

/-- An aligned read of `k` pieces stays inside one word. -/
theorem join_aligned (words : List (BitVec w)) (pos : 0 < b) {c k n : Nat} (size : k * c = n)
    (few : 0 < c) (m : Nat) (width : v ≤ b * k) :
    join v ((List.range' (k * m) k).map (pieceAt b n words))
      = (words.getD (m / c) 0).extractLsb' (b * (k * (m % c))) v := by
  apply BitVec.eq_of_getLsbD_eq
  intro i inside
  have index : i / b < k := Nat.div_lt_of_lt_mul (Nat.lt_of_lt_of_le inside width)
  have split : k * m = n * (m / c) + k * (m % c) := by
    rw [← size, Nat.mul_assoc, ← Nat.mul_add, Nat.div_add_mod]
  have room : k * (m % c) + i / b < n := by
    have le : k * (m % c + 1) ≤ k * c := Nat.mul_le_mul_left k (Nat.mod_lt m few)
    rw [Nat.mul_succ] at le
    omega
  have word : (k * m + i / b) / n = m / c := by
    rw [split, Nat.add_assoc, Nat.mul_add_div (Nat.zero_lt_of_lt room), Nat.div_eq_of_lt room, Nat.add_zero]
  have offset : (k * m + i / b) % n = k * (m % c) + i / b := by
    rw [split, Nat.add_assoc, Nat.mul_add_mod, Nat.mod_eq_of_lt room]
  have place : b * (k * (m % c) + i / b) + i % b = b * (k * (m % c)) + i := by
    rw [Nat.mul_add, Nat.add_assoc, Nat.div_add_mod]
  have piece : ((List.range' (k * m) k).map (pieceAt b n words)).getD (i / b) 0
      = pieceAt b n words (k * m + i / b) := by
    simp [index]
  rw [getLsbD_join _ pos inside, piece, pieceAt, word, offset, BitVec.getLsbD_extractLsb',
    BitVec.getLsbD_extractLsb', place]
  simp [inside, Nat.mod_lt i pos]

end Pieces

namespace Binary

structure Format (w : Nat) where
  expBits : Nat
  fracBits : Nat
  width : 1 + expBits + fracBits = w

def single : Format 32 := ⟨8, 23, rfl⟩

def double : Format 64 := ⟨11, 52, rfl⟩

/-- What `fpclassify` tells apart. -/
inductive FpClass where
  | nan
  | infinite
  | zero
  | subnormal
  | normal
  deriving DecidableEq, Repr

namespace Format

variable {w : Nat} (fmt : Format w) (x : BitVec w)

def signbit (_ : Format w) (x : BitVec w) : Bool := x.msb

def exponent : BitVec fmt.expBits := x.extractLsb' fmt.fracBits fmt.expBits

def fraction : BitVec fmt.fracBits := x.extractLsb' 0 fmt.fracBits

def fpclassify : FpClass :=
  if fmt.exponent x = BitVec.allOnes _ then
    if fmt.fraction x = 0 then .infinite else .nan
  else if fmt.exponent x = 0 then
    if fmt.fraction x = 0 then .zero else .subnormal
  else .normal

def isnan : Bool := fmt.exponent x = BitVec.allOnes _ && fmt.fraction x ≠ 0

/-- The top bit of the fraction. -/
def quietBit : Bool := x.getLsbD (fmt.fracBits - 1)

theorem fpclassify_eq_nan_iff : fmt.fpclassify x = .nan ↔ fmt.isnan x = true := by
  unfold fpclassify isnan
  by_cases full : fmt.exponent x = BitVec.allOnes _
  · by_cases none : fmt.fraction x = 0 <;> simp [full]
  · grind

end Format

end Binary
