import Mathlib.Algebra.GroupWithZero.Nat
import Mathlib.Data.Nat.Basic

/-!
# Folded bit sequences

A long sequence of bits is folded to a few: bit `i` of it is shifted to the place `i mod c`, and
what falls on one place is added without carry. When a bit is put in front of the sequence the
fold is turned by one place, takes the new bit in, and gives back the one that leaves.
-/

namespace Folds

open BitVec

variable {w c : Nat}

def bit (w : Nat) (b : Bool) : BitVec w := (BitVec.ofBool b).setWidth w

/-- The fold of the first bits of a sequence. -/
def fold (w c : Nat) (h : Nat → Bool) : Nat → BitVec w
  | 0 => 0
  | n + 1 => fold w c h n ^^^ (bit w (h n) <<< (n % c))

def push (x : Bool) (h : Nat → Bool) : Nat → Bool
  | 0 => x
  | n + 1 => h n

/-- What was shifted out at the place `c` comes in at the low end. -/
def wrap (c : Nat) (y : BitVec w) : BitVec w := (y ^^^ (y >>> c)) &&& BitVec.ofNat w (2 ^ c - 1)

theorem getLsbD_wrap (y : BitVec w) (i : Nat) :
    (wrap c y).getLsbD i = ((y.getLsbD i ^^ y.getLsbD (c + i)) && decide (i < c)) := by
  rw [wrap, getLsbD_and, getLsbD_xor, getLsbD_ushiftRight,
    getLsbD_ofNat, Nat.testBit_two_pow_sub_one]
  by_cases inside : i < w
  · simp [inside]
  · grind

theorem getLsbD_bit (b : Bool) (k i : Nat) :
    (bit w b <<< k).getLsbD i = (decide (i < w) && decide (i = k) && b) := by
  rw [getLsbD_shiftLeft, bit, getLsbD_setWidth, getLsbD_ofBool]
  by_cases at_ : i = k
  · grind
  · grind

theorem wrap_xor (x y : BitVec w) : wrap c (x ^^^ y) = wrap c x ^^^ wrap c y := by
  refine eq_of_getLsbD_eq fun i _ => ?_
  simp only [getLsbD_wrap, getLsbD_xor]
  cases x.getLsbD i <;> cases y.getLsbD i <;> cases x.getLsbD (c + i) <;>
    cases y.getLsbD (c + i) <;> cases decide (i < c) <;> rfl

theorem wrap_zero : wrap c 0#w = 0#w := by
  refine eq_of_getLsbD_eq fun i _ => ?_
  simp [getLsbD_wrap]

/-- A bit at a place below `c` stays. -/
theorem wrap_bit {k : Nat} (lt : k < c) (b : Bool) : wrap c (bit w b <<< k) = bit w b <<< k := by
  refine eq_of_getLsbD_eq fun i inside => ?_
  rw [getLsbD_wrap, getLsbD_bit, getLsbD_bit]
  by_cases at_ : i = k
  · simp [at_, lt, Nat.ne_of_gt (Nat.zero_lt_of_lt lt)]
  · simp [at_, show c + i ≠ k by omega]

/-- A bit at the place `c` goes to the low end. -/
theorem wrap_last (pos : 0 < c) (fits : c < w) (b : Bool) :
    wrap c (bit w b <<< c) = bit w b <<< 0 := by
  refine eq_of_getLsbD_eq fun i inside => ?_
  rw [getLsbD_wrap, getLsbD_bit, getLsbD_bit, getLsbD_bit]
  by_cases at_ : i = 0
  · grind
  · grind

/-- Every bit moves to the next place. -/
theorem wrap_next (pos : 0 < c) (fits : c < w) (n : Nat) (b : Bool) :
    wrap c ((bit w b <<< (n % c)) <<< 1) = bit w b <<< ((n + 1) % c) := by
  rw [← shiftLeft_add]
  have lt := Nat.mod_lt n pos
  rcases Nat.lt_or_ge (n % c + 1) c with inside | last
  · rw [wrap_bit inside, ← Nat.mod_eq_of_lt inside, Nat.mod_add_mod]
  · have full : n % c + 1 = c := Nat.le_antisymm lt last
    rw [full, wrap_last pos fits, ← Nat.mod_add_mod, full, Nat.mod_self]

theorem fold_push_succ (pos : 0 < c) (fits : c < w) (x : Bool) (h : Nat → Bool) (n : Nat) :
    fold w c (push x h) (n + 1) = bit w x ^^^ wrap c (fold w c h n <<< 1) := by
  induction n with
  | zero =>
    have first : bit w (push x h 0) <<< (0 % c) = bit w x := by
      rw [Nat.zero_mod, shiftLeft_zero]
      rfl
    rw [fold, fold, first, fold, ofNat_eq_ofNat, zero_shiftLeft, wrap_zero,
      BitVec.zero_xor, xor_zero]
  | succ n ih =>
    rw [fold, ih, fold, shiftLeft_xor_distrib, wrap_xor, wrap_next pos fits,
      BitVec.xor_assoc]
    rfl

theorem or_bit (y : BitVec w) (x : Bool) : (y <<< 1) ||| bit w x = (y <<< 1) ^^^ bit w x := by
  refine eq_of_getLsbD_eq fun i _ => ?_
  have low := getLsbD_bit (w := w) x 0 i
  rw [shiftLeft_zero] at low
  rw [getLsbD_or, getLsbD_xor, low, getLsbD_shiftLeft]
  by_cases at_ : i = 0
  · simp [at_]
  · simp [at_]

/-- The fold after a bit is put in front. -/
theorem fold_push (pos : 0 < c) (fits : c < w) (x : Bool) (h : Nat → Bool) (n : Nat) :
    fold w c (push x h) n = wrap c (((fold w c h n <<< 1) ||| bit w x)
      ^^^ (bit w (push x h n) <<< (n % c))) := by
  have grown := fold_push_succ pos fits x h n
  have new : wrap c (bit w x) = bit w x := by
    have stays := wrap_bit (w := w) pos x
    rwa [shiftLeft_zero] at stays
  rw [fold] at grown
  rw [or_bit, wrap_xor, wrap_xor, new, wrap_bit (Nat.mod_lt n pos), BitVec.xor_comm (wrap c _),
    ← grown, BitVec.xor_assoc, BitVec.xor_self, xor_zero]

theorem fold_false (n : Nat) : fold w c (fun _ => false) n = 0#w := by
  induction n with
  | zero => rfl
  | succ n ih => simp [fold, ih, bit]

end Folds
