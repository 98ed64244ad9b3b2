import Mathlib.Data.BitVec

/-!
# Bit ranges of machine words

Extraction and insertion of a contiguous range of bits, and the fields of a
packed register as a pair of positions that is known to lie inside the word.
-/

namespace Gem5

open BitVec

variable {n k m : Nat}

variable {w : Nat}

/-- A word with its `nbits` low bits set. -/
def mask (w nbits : Nat) : BitVec w :=
  BitVec.ofNat w (2 ^ nbits - 1)

/-- Bits `first` down to `last` of `val`, right justified. -/
def bits (val : BitVec w) (first last : Nat) : BitVec w :=
  (val >>> last) &&& mask w (first - last + 1)

/-- `val` with its bits `first` down to `last` replaced by `bitVal`. -/
def insertBits (val : BitVec w) (first last : Nat) (bitVal : BitVec w) : BitVec w :=
  let bmask := mask w (first - last + 1) <<< last
  ((bitVal <<< last) &&& bmask) ||| (val &&& ~~~bmask)

theorem toNat_one_shiftLeft (lt : n < w) : (1#w <<< n).toNat = 2 ^ n := by
  have one : 1 < 2 ^ w := Nat.one_lt_two_pow (Nat.ne_zero_of_lt lt)
  rw [toNat_shiftLeft, toNat_ofNat, Nat.shiftLeft_eq, Nat.mod_eq_of_lt one,
    Nat.one_mul, Nat.mod_eq_of_lt (Nat.pow_lt_pow_right (by decide) lt)]

theorem getLsbD_mask (nbits i : Nat) :
    (mask w nbits).getLsbD i = (decide (i < w) && decide (i < nbits)) := by
  simp [mask, getLsbD_ofNat]

@[simp]
theorem getElem_mask {nbits i : Nat} (h : i < w) : (mask w nbits)[i] = decide (i < nbits) := by
  rw [← getLsbD_eq_getElem, getLsbD_mask]
  simp [h]

theorem getLsbD_bits (val : BitVec w) (first last i : Nat) :
    (bits val first last).getLsbD i =
      (val.getLsbD (last + i) && decide (i < first - last + 1)) := by
  simp only [bits]
  by_cases h : i < w
  · simp [h]
  · grind

theorem getLsbD_insertBits (val bitVal : BitVec w) (first last i : Nat) :
    (insertBits val first last bitVal).getLsbD i =
      if last ≤ i ∧ i < last + (first - last + 1) then
        decide (i < w) && bitVal.getLsbD (i - last)
      else val.getLsbD i := by
  simp only [insertBits, getLsbD_or, getLsbD_and, getLsbD_not,
    getLsbD_shiftLeft, getLsbD_mask]
  by_cases hw : i < w
  · have hin : i - last < w := by omega
    by_cases hr : last ≤ i ∧ i < last + (first - last + 1)
    · grind
    · grind
  · grind

theorem bits_setWidth_of_le (small : BitVec n) (fits : n ≤ w) (first last : Nat) :
    bits (small.setWidth w) first last =
      (small.extractLsb' last (first - last + 1)).setWidth w := by
  apply eq_of_getLsbD_eq
  intro i hi
  simp only [getLsbD_bits, getLsbD_setWidth, hi]
  by_cases hin : last + i < w
  · simp [hin, Bool.and_comm]
  · grind

theorem setWidth_shiftLeft (small : BitVec n) (k : Nat) :
    small.setWidth w <<< k = (small ++ 0#k).setWidth w := by
  apply eq_of_getLsbD_eq
  intro i hi
  have below : i - k < w := by omega
  by_cases hk : i < k <;>
    simp only [getLsbD_shiftLeft, getLsbD_setWidth, getLsbD_append, hi, below] <;>
    simp

/-- Adjacent ranges are joined by a shift. -/
theorem setWidth_or_shiftLeft {a b : Nat} (low : BitVec a) (high : BitVec b) :
    low.setWidth w ||| (high.setWidth w <<< a) = (high ++ low).setWidth w := by
  apply eq_of_getLsbD_eq
  intro i hi
  by_cases ha : i < a
  · grind
  · grind

/-- Two neighbouring ranges of one word, put together again. -/
theorem extract_or_shiftLeft (val : BitVec n) (a b : Nat) :
    (val.extractLsb' 0 a).setWidth w ||| ((val.extractLsb' a b).setWidth w <<< a) =
      (val.extractLsb' 0 (a + b)).setWidth w := by
  apply eq_of_getLsbD_eq
  intro i hi
  by_cases ha : i < a
  · have : i < a + b := by omega
    simp [ha, this]
  · grind

/-- Clearing some bits takes them off. -/
theorem and_not_eq_sub (a m : BitVec w) : a &&& ~~~m = a - (a &&& m) := by
  have disjoint : (a &&& ~~~m) &&& (a &&& m) = 0#w := by grind
  have joined : (a &&& ~~~m) + (a &&& m) = a := by
    rw [add_eq_or_of_and_eq_zero _ _ disjoint, ← BitVec.and_or_distrib_left]
    have all : ~~~m ||| m = BitVec.allOnes w := by simp
    rw [all, and_allOnes]
  exact BitVec.eq_sub_iff_add_eq.mpr joined

theorem or_eq_allOnes_iff (a m : BitVec w) : a ||| m = BitVec.allOnes w ↔ a &&& ~~~m = ~~~m := by
  have bits (i : Nat) (inside : i < w) :
      (a ||| m).getLsbD i = (BitVec.allOnes w).getLsbD i ↔
        (a &&& ~~~m).getLsbD i = (~~~m).getLsbD i := by
    simp only [getLsbD_or, getLsbD_allOnes, getLsbD_and, getLsbD_not, inside]
    cases a.getLsbD i <;> cases m.getLsbD i <;> simp
  constructor
  · grind
  · grind

/-- Numbers without a bit in common add up without a carry. -/
theorem add_lt_of_disjoint {a b : Nat} (disjoint : a &&& b = 0) (ha : a < 2 ^ k)
    (hb : b < 2 ^ k) : a + b < 2 ^ k := by
  have toA : (BitVec.ofNat (k + 1) a).toNat = a := by grind
  have toB : (BitVec.ofNat (k + 1) b).toNat = b := by grind
  have apart : BitVec.ofNat (k + 1) a &&& BitVec.ofNat (k + 1) b = 0#(k + 1) := by
    apply eq_of_toNat_eq
    rw [toNat_and, toA, toB, disjoint]
    rfl
  have joined := congrArg BitVec.toNat (add_eq_or_of_and_eq_zero _ _ apart)
  rw [toNat_add, toNat_or, toA, toB, Nat.mod_eq_of_lt (by omega)] at joined
  rw [joined]
  exact Nat.or_lt_two_pow ha hb

/-- Clearing the low bits rounds down. -/
theorem and_not_low (a : BitVec w) (fits : k ≤ w) :
    a &&& ~~~BitVec.ofNat w (2 ^ k - 1) = a - BitVec.ofNat w (a.toNat % 2 ^ k) := by
  have pow : 2 ^ k ≤ 2 ^ w := Nat.pow_le_pow_right (by decide) fits
  have positive : 0 < 2 ^ k := Nat.two_pow_pos k
  have low : BitVec.ofNat w (a.toNat % 2 ^ k) = a &&& BitVec.ofNat w (2 ^ k - 1) := by
    apply eq_of_toNat_eq
    have small : 2 ^ k - 1 < 2 ^ w := by omega
    have below : a.toNat % 2 ^ k < 2 ^ w := (Nat.mod_lt _ positive).trans_le pow
    simp only [toNat_and, toNat_ofNat]
    rw [Nat.mod_eq_of_lt below, Nat.mod_eq_of_lt small]
    exact (Nat.and_two_pow_sub_one_eq_mod a.toNat k).symm
  rw [low]
  exact and_not_eq_sub a _

theorem umod_eq_iff (a : BitVec w) {r : Nat} (small : m < 2 ^ w) (below : r < m) :
    a % BitVec.ofNat w m = BitVec.ofNat w r ↔ a.toNat % m = r := by
  rw [← toNat_inj, toNat_umod, toNat_ofNat, toNat_ofNat,
    Nat.mod_eq_of_lt small, Nat.mod_eq_of_lt (below.trans small)]

/-- Residues modulo a divisor of the number of words survive the wrap-around. -/
theorem toNat_add_mod (a : BitVec w) (n : Nat) (divides : m ∣ 2 ^ w) :
    (a + BitVec.ofNat w n).toNat % m = (a.toNat + n) % m := by
  rw [toNat_add, toNat_ofNat, Nat.mod_mod_of_dvd _ divides, Nat.add_mod,
    Nat.mod_mod_of_dvd _ divides, ← Nat.add_mod]

theorem extractLsb'_extractLsb' (val : BitVec n) {start len start' len' : Nat}
    (inside : start' + len' ≤ len) :
    (val.extractLsb' start len).extractLsb' start' len' = val.extractLsb' (start + start') len' := by
  apply eq_of_getLsbD_eq
  intro i hi
  have : start' + i < len := by omega
  simp [this, Nat.add_assoc]

theorem signExtend_signExtend (val : BitVec n) (pos : 0 < n)
    (wider : n ≤ m) : (val.signExtend m).signExtend k = val.signExtend k := by
  have sign : (val.signExtend m).msb = val.msb := by grind
  apply eq_of_getLsbD_eq
  intro i hi
  simp only [getLsbD_signExtend, sign]
  by_cases hm : i < m
  · simp [hm]
  · have hn : ¬ i < n := by omega
    simp [hm, hn]

theorem extractLsb'_signExtend {start len : Nat} (val : BitVec n) (inside : start + len ≤ n)
    (wider : n ≤ m) : (val.signExtend m).extractLsb' start len = val.extractLsb' start len := by
  ext i hi
  have low : start + i < n := by omega
  have below : start + i < m := by omega
  simp only [getElem_extractLsb', getLsbD_signExtend, low, below, decide_true,
    Bool.true_and, if_true]

theorem signExtend_setWidth (val : BitVec n) (narrower : n < m) :
    (val.setWidth m).signExtend k = val.setWidth k := by
  have sign : (val.setWidth m).msb = false := by grind
  rw [signExtend_eq_setWidth_of_msb_false sign]
  apply eq_of_getLsbD_eq
  intro i hi
  by_cases hm : i < m
  · simp [hm]
  · simp [getLsbD_of_ge val i (by omega)]

theorem bits_single_ne_zero (val : BitVec w) (i : Nat) :
    bits val i i ≠ 0 ↔ val.getLsbD i = true := by
  constructor
  · intro h
    by_contra hi
    apply h
    apply eq_of_getLsbD_eq
    intro j _
    simp only [getLsbD_bits]
    by_cases hj : j = 0
    · subst hj
      simpa using hi
    · simp [hj]
  · intro hi h
    have hbit := congrArg (fun v => v.getLsbD 0) h
    simp only [getLsbD_bits] at hbit
    simp [hi] at hbit

/-- A field of a packed register: bits `first` down to `last`. -/
structure Bitfield (w : Nat) where
  first : Nat
  last : Nat
  ordered : last ≤ first := by decide
  inside : first < w := by decide

namespace Bitfield

variable (f g : Bitfield w)

def get (val : BitVec w) : BitVec w := bits val f.first f.last

def set (val bitVal : BitVec w) : BitVec w := insertBits val f.first f.last bitVal

def Disjoint : Prop := f.first < g.last ∨ g.first < f.last

instance : Decidable (f.Disjoint g) := inferInstanceAs (Decidable (_ ∨ _))

/-- What a field that is assigned `bitVal` holds afterwards. -/
def truncate (bitVal : BitVec w) : BitVec w := bitVal &&& mask w (f.first - f.last + 1)

theorem get_set_self (val bitVal : BitVec w) : f.get (f.set val bitVal) = f.truncate bitVal := by
  apply eq_of_getLsbD_eq
  intro i hi
  have hfirst := f.inside
  have hlast := f.ordered
  simp only [get, set, truncate, getLsbD_bits, getLsbD_insertBits, getLsbD_and, getLsbD_mask]
  by_cases hr : i < f.first - f.last + 1
  · grind
  · simp [hr]

theorem get_set_of_disjoint {f g : Bitfield w} (h : f.Disjoint g) (val bitVal : BitVec w) :
    f.get (g.set val bitVal) = f.get val := by
  apply eq_of_getLsbD_eq
  intro i _
  simp only [get, set, getLsbD_bits, getLsbD_insertBits]
  by_cases hr : i < f.first - f.last + 1
  · have hf := f.ordered
    have hg := g.ordered
    have hout : ¬ (g.last ≤ f.last + i ∧ f.last + i < g.last + (g.first - g.last + 1)) := by
      rcases h with h | h <;> omega
    rw [if_neg hout]
  · simp [hr]

theorem truncate_get (val : BitVec w) {g : Bitfield w}
    (same : f.first - f.last = g.first - g.last) : f.truncate (g.get val) = g.get val := by
  simp [truncate, get, bits, same, BitVec.and_assoc]

theorem truncate_setWidth (small : BitVec n) (fits : n ≤ f.first - f.last + 1) :
    f.truncate (small.setWidth w) = small.setWidth w := by
  apply eq_of_getLsbD_eq
  intro i hi
  simp only [truncate, getLsbD_and, getLsbD_mask]
  by_cases hn : i < n
  · grind
  · simp [getLsbD_of_ge _ _ (Nat.le_of_not_lt hn)]

end Bitfield

end Gem5
