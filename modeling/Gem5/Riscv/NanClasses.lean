import Gem5.Lib.Words

/-!
# The classes of floating-point patterns

`isquietnan` and `issignalingnan` test one fraction bit each, and `fclass` reports the class of
a pattern as one bit of ten. The reference reads the class off the pattern alone.
-/

namespace Gem5.Riscv

open Binary

section Tests

variable {w : Nat} (fmt : Format w)

/-- A NaN that has a bit of the mask set. -/
def isnanWith (m x : BitVec w) : Bool := fmt.isnan x && x &&& m != 0

end Tests

/-- `isquietnan<float>` -/
def isquietnanFloat (val : BitVec 32) : Bool := isnanWith single 0x00400000 val

/-- `isquietnan<double>` -/
def isquietnanDouble (val : BitVec 64) : Bool := isnanWith double 0x0008000000000000 val

/-- `issignalingnan<float>` -/
def issignalingnanFloat (val : BitVec 32) : Bool := isnanWith single 0x00200000 val

/-- `issignalingnan<double>` -/
def issignalingnanDouble (val : BitVec 64) : Bool := isnanWith double 0x0004000000000000 val

/-- The switch of both instructions. -/
def fclass {w : Nat} (fmt : Format w) (issignalingnan : BitVec w → Bool) (fs1 : BitVec w) :
    BitVec 64 :=
  match fmt.fpclassify fs1 with
  | .infinite => if fmt.signbit fs1 then 1 <<< 0 else 1 <<< 7
  | .nan => if issignalingnan fs1 then 1 <<< 8 else 1 <<< 9
  | .zero => if fmt.signbit fs1 then 1 <<< 3 else 1 <<< 4
  | .subnormal => if fmt.signbit fs1 then 1 <<< 2 else 1 <<< 5
  | .normal => if fmt.signbit fs1 then 1 <<< 1 else 1 <<< 6

/-- `fclass_s`; the operand is the low half of the register. -/
def fclassS (Fs1_bits : BitVec 64) : BitVec 64 :=
  fclass single issignalingnanFloat (Fs1_bits.setWidth 32)

/-- `fclass_d` -/
def fclassD (Fs1_bits : BitVec 64) : BitVec 64 := fclass double issignalingnanDouble Fs1_bits

section Reference

variable {w : Nat} (fmt : Format w) (x : BitVec w)

/-- The bit of the manual for the class of a pattern. -/
def classBit : Nat :=
  let negative := fmt.signbit x
  match fmt.fpclassify x with
  | .nan => if fmt.quietBit x then 9 else 8
  | .infinite => if negative then 0 else 7
  | .zero => if negative then 3 else 4
  | .subnormal => if negative then 2 else 5
  | .normal => if negative then 1 else 6

/-- The answers of both predicates and of `fclass` agree with the pattern. -/
structure NanAgrees (isquietnan issignalingnan : Bool) (fclass : BitVec 64) : Prop where
  exactlyOne : fmt.isnan x = true → (isquietnan ^^ issignalingnan) = true
  neither : fmt.isnan x = false → isquietnan = false ∧ issignalingnan = false
  quiet : isquietnan = true → fmt.quietBit x = true
  signaling : issignalingnan = true → fmt.quietBit x = false
  oneHot : fclass = BitVec.twoPow 64 (classBit fmt x)

end Reference

section Agreement

variable {w : Nat} (fmt : Format w) (x : BitVec w)

theorem isnanWith_twoPow (k : Nat) :
    isnanWith fmt (BitVec.twoPow w k) x = (fmt.isnan x && x.getLsbD k) := by
  rw [isnanWith, BitVec.and_twoPow]
  cases bit : x.getLsbD k with
  | false => simp
  | true =>
    have inside : k < w := BitVec.lt_of_getLsbD bit
    have set : BitVec.twoPow w k ≠ 0#w := by
      intro zero
      have := congrArg (·.getLsbD k) zero
      simp [inside] at this
    simpa using fun _ => set

theorem fclass_eq (issignalingnan : BitVec w → Bool) : fclass fmt issignalingnan x =
    if fmt.isnan x then if issignalingnan x then BitVec.twoPow 64 8 else BitVec.twoPow 64 9
    else BitVec.twoPow 64 (classBit fmt x) := by
  have nan := fmt.fpclassify_eq_nan_iff x
  unfold fclass classBit
  cases kind : fmt.fpclassify x with
  | nan =>
    rw [if_pos (nan.mp kind)]
    rfl
  | infinite | zero | subnormal | normal => aesop

theorem nanAgrees_iff (k : Nat) :
    NanAgrees fmt x (isnanWith fmt (BitVec.twoPow w (fmt.fracBits - 1)) x)
        (isnanWith fmt (BitVec.twoPow w k) x)
        (fclass fmt (isnanWith fmt (BitVec.twoPow w k)) x)
      ↔ (fmt.isnan x = true → x.getLsbD k = !fmt.quietBit x) := by
  have quiet : isnanWith fmt (BitVec.twoPow w (fmt.fracBits - 1)) x
      = (fmt.isnan x && fmt.quietBit x) :=
    isnanWith_twoPow fmt x _
  have nan := fmt.fpclassify_eq_nan_iff x
  rw [fclass_eq, quiet, isnanWith_twoPow]
  constructor
  · intro agrees is
    have one := agrees.exactlyOne is
    rw [is, Bool.true_and, Bool.true_and] at one
    cases h : fmt.quietBit x <;> simpa [h] using one
  · intro differ
    cases is : fmt.isnan x with
    | false =>
      exact ⟨fun no => Bool.noConfusion (is.symm.trans no), fun _ => ⟨rfl, rfl⟩, nofun, nofun, rfl⟩
    | true =>
      rw [Bool.true_and, Bool.true_and, differ is]
      refine ⟨fun _ => ?_, fun no => Bool.noConfusion (is.symm.trans no), id, fun set => ?_, ?_⟩
      · cases fmt.quietBit x <;> rfl
      · simpa using set
      · grind [classBit]

end Agreement

/-- The predicates and the instruction agree with the pattern unless it is a NaN whose two top
fraction bits are equal. -/
theorem nan_classes_agree_iff (Fs1_bits : BitVec 64) :
    (NanAgrees single (Fs1_bits.setWidth 32) (isquietnanFloat (Fs1_bits.setWidth 32))
        (issignalingnanFloat (Fs1_bits.setWidth 32)) (fclassS Fs1_bits)
      ↔ (single.isnan (Fs1_bits.setWidth 32) = true → Fs1_bits.getLsbD 21 ≠ Fs1_bits.getLsbD 22))
    ∧ (NanAgrees double Fs1_bits (isquietnanDouble Fs1_bits) (issignalingnanDouble Fs1_bits)
        (fclassD Fs1_bits)
      ↔ (double.isnan Fs1_bits = true → Fs1_bits.getLsbD 50 ≠ Fs1_bits.getLsbD 51)) := by
  refine ⟨(nanAgrees_iff single _ 21).trans ?_, (nanAgrees_iff double _ 50).trans ?_⟩
  · simp [Format.quietBit, single, Bool.eq_not]
  · simp [Format.quietBit, double, Bool.eq_not]

/-- A signaling NaN that has the lowest bit of its fraction alone is found by neither predicate. -/
theorem signaling_nan_reported_quiet : ¬NanAgrees single 0x7f800001
    (isquietnanFloat 0x7f800001) (issignalingnanFloat 0x7f800001) (fclassS 0x7f800001) := by
  intro agrees
  exact absurd (agrees.exactlyOne (by decide)) (by decide)

end Gem5.Riscv
