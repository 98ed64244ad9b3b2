import Gem5.Cache.Skewing

/-!
# The skewed-associative policy on machine words

The policy as the code computes it, on addresses of 64 bits and with what its constructor checks.
On the bits of a set it is the shift register of `Gem5.Cache.Skewing`; the bits above these stay
zero.
-/

namespace Gem5.Cache.SkewedAddresses

open Function BitVec

abbrev Addr := BitVec 64

/-- Bits `first` down to `last` of `val`, where they are. -/
def mbits (val : Addr) (first last : Nat) : Addr :=
  val &&& (mask 64 (first + 1) &&& ~~~mask 64 last)

def leastSigBit (n : BitVec 32) : BitVec 32 := n &&& ~~~(n - 1)

def isPowerOf2 (n : BitVec 32) : Prop := n ≠ 0 ∧ leastSigBit n = n

instance (n : BitVec 32) : Decidable (isPowerOf2 n) :=
  inferInstanceAs (Decidable (n ≠ 0 ∧ leastSigBit n = n))

section Functions

variable (msbShift : Nat)

def hash (addr : Addr) : Addr :=
  let lsb : BitVec 8 := (bits addr 0 0).setWidth 8
  let msb : BitVec 8 := (bits addr msbShift msbShift).setWidth 8
  let xor_bit := msb ^^^ lsb
  insertBits (addr >>> 1) msbShift msbShift (xor_bit.setWidth 64)

def dehash (addr : Addr) : Addr :=
  let msb : BitVec 8 := (bits addr (msbShift - 1) (msbShift - 1)).setWidth 8
  let xor_bit : BitVec 8 := (bits addr msbShift msbShift).setWidth 8
  let lsb := msb ^^^ xor_bit
  let addr_no_msb := mbits addr (msbShift - 1) 0
  insertBits (addr_no_msb <<< 1) 0 0 (lsb.setWidth 64)

def NUM_SKEWING_FUNCTIONS : Nat := 8

def skew (addr : Addr) (way : Nat) : Addr :=
  let addr1 := bits addr msbShift 0
  let addr2 := bits addr (2 * (msbShift + 1) - 1) (msbShift + 1)
  let addr1 :=
    match way % NUM_SKEWING_FUNCTIONS with
    | 0 => hash msbShift addr1 ^^^ hash msbShift addr2 ^^^ addr2
    | 1 => hash msbShift addr1 ^^^ hash msbShift addr2 ^^^ addr1
    | 2 => hash msbShift addr1 ^^^ dehash msbShift addr2 ^^^ addr2
    | 3 => hash msbShift addr1 ^^^ dehash msbShift addr2 ^^^ addr1
    | 4 => dehash msbShift addr1 ^^^ hash msbShift addr2 ^^^ addr2
    | 5 => dehash msbShift addr1 ^^^ hash msbShift addr2 ^^^ addr1
    | 6 => dehash msbShift addr1 ^^^ dehash msbShift addr2 ^^^ addr2
    | _ => dehash msbShift addr1 ^^^ dehash msbShift addr2 ^^^ addr1
  (hash msbShift)^[way / NUM_SKEWING_FUNCTIONS] addr1

def deskew (addr : Addr) (way : Nat) : Addr :=
  let addr1 := bits addr msbShift 0
  let addr2 := bits addr (2 * (msbShift + 1) - 1) (msbShift + 1)
  let addr1 :=
    if NUM_SKEWING_FUNCTIONS ≤ way then (dehash msbShift)^[way / NUM_SKEWING_FUNCTIONS] addr1
    else addr1
  match way % 8 with
  | 0 => dehash msbShift (addr1 ^^^ hash msbShift addr2 ^^^ addr2)
  | 1 => (hash msbShift)^[msbShift] (addr1 ^^^ hash msbShift addr2)
  | 2 => dehash msbShift (addr1 ^^^ dehash msbShift addr2 ^^^ addr2)
  | 3 => (hash msbShift)^[msbShift] (addr1 ^^^ dehash msbShift addr2)
  | 4 => hash msbShift (addr1 ^^^ hash msbShift addr2 ^^^ addr2)
  | 5 => (hash msbShift)^[msbShift + 1] (addr1 ^^^ hash msbShift addr2)
  | 6 => hash msbShift (addr1 ^^^ dehash msbShift addr2 ^^^ addr2)
  | _ => (hash msbShift)^[msbShift + 1] (addr1 ^^^ dehash msbShift addr2)

end Functions

/-- The parameters of the policy. -/
structure Params where
  size : BitVec 64
  entry_size : BitVec 32
  assoc : BitVec 32

namespace Params

variable (p : Params)

def numSets : BitVec 32 := (p.size / (p.entry_size * p.assoc).setWidth 64).setWidth 32

def setShift : Nat := Nat.log2 p.entry_size.toNat

def setMask : BitVec 32 := p.numSets - 1

def tagShift : Nat := p.setShift + Nat.log2 p.numSets.toNat

def msbShift : Nat := Nat.log2 p.numSets.toNat - 1

/-- The constructors neither stop nor fail an assert. -/
structure Accepted : Prop where
  entry_size : 0 < p.entry_size.toInt
  numSets : isPowerOf2 p.numSets
  assoc : p.assoc ≠ 0
  bits : ¬64 < p.setShift + 2 * (p.msbShift + 1)
  sets : ¬p.numSets ≤ 2

end Params

/-- Where an entry is. -/
structure ReplaceableEntry where
  set : BitVec 32
  way : BitVec 32

section Policy

variable (p : Params)

def extractTag (addr : Addr) : Addr := addr >>> p.tagShift

def extractSet (addr : Addr) (way : BitVec 32) : BitVec 32 :=
  (skew p.msbShift (addr >>> p.setShift) way.toNat &&& p.setMask.setWidth 64).setWidth 32

def regenerateAddr (tag : Addr) (entry : ReplaceableEntry) : Addr :=
  let addr_set := (tag <<< (p.msbShift + 1)) ||| entry.set.setWidth 64
  (tag <<< p.tagShift)
    ||| ((deskew p.msbShift addr_set entry.way.toNat &&& p.setMask.setWidth 64) <<< p.setShift)

end Policy

variable {m : Nat}

/-- The bits of a set, and those above them. -/
def low (m : Nat) (addr : Addr) : BitVec (m + 1) := addr.setWidth (m + 1)

def high (m : Nat) (addr : Addr) : BitVec (m + 1) := low m (addr >>> (m + 1))

theorem bits_low (addr : Addr) : bits addr m 0 = (low m addr).setWidth 64 := by
  apply eq_of_getLsbD_eq
  intro i hi
  rw [getLsbD_bits, low, getLsbD_setWidth, getLsbD_setWidth]
  simp [hi, Bool.and_comm]

theorem bits_high (addr : Addr) :
    bits addr (2 * (m + 1) - 1) (m + 1) = (high m addr).setWidth 64 := by
  apply eq_of_getLsbD_eq
  intro i hi
  have count : 2 * (m + 1) - 1 - (m + 1) + 1 = m + 1 := by omega
  rw [getLsbD_bits, high, low, getLsbD_setWidth, getLsbD_setWidth,
    getLsbD_ushiftRight, count]
  simp [hi, Bool.and_comm]

theorem getLsbD_widen (x : BitVec (m + 1)) {i : Nat} (hi : i < 64) :
    (x.setWidth 64).getLsbD i = x.getLsbD i := by
  rw [getLsbD_setWidth, decide_eq_true hi, Bool.true_and]

theorem getLsbD_bits_xor (val : Addr) (j k : Nat) :
    (((bits val j j).setWidth 8 ^^^ (bits val k k).setWidth 8 : BitVec 8).setWidth 64 : Addr).getLsbD
      0 = (val.getLsbD j ^^ val.getLsbD k) := by
  rw [getLsbD_setWidth, getLsbD_xor, getLsbD_setWidth, getLsbD_setWidth,
    getLsbD_bits, getLsbD_bits]
  simp

theorem hash_setWidth (inside : m < 64) (x : BitVec (m + 1)) :
    hash m (x.setWidth 64) = (SkewedAssociative.hash x).setWidth 64 := by
  apply eq_of_getLsbD_eq
  intro i hi
  rw [hash, getLsbD_insertBits, getLsbD_widen _ hi]
  by_cases top : i = m
  · rw [if_pos (by omega), top, Nat.sub_self, getLsbD_bits_xor, getLsbD_widen x inside,
      getLsbD_widen x (by omega), SkewedAssociative.getLsbD_hash_msb, decide_eq_true inside,
      Bool.true_and]
  · rw [if_neg (by omega), getLsbD_ushiftRight, Nat.add_comm 1 i]
    by_cases below : i < m
    · rw [SkewedAssociative.getLsbD_hash x below, getLsbD_widen x (by omega)]
    · grind

theorem dehash_setWidth (wide : 0 < m) (inside : m < 64) (x : BitVec (m + 1)) :
    dehash m (x.setWidth 64) = (SkewedAssociative.dehash x).setWidth 64 := by
  apply eq_of_getLsbD_eq
  intro i hi
  have next : m - 1 + 1 = m := by omega
  rw [dehash, getLsbD_insertBits, getLsbD_widen _ hi]
  cases i with
  | zero =>
    rw [if_pos (by omega), getLsbD_bits_xor, getLsbD_widen x (by omega), getLsbD_widen x inside,
      SkewedAssociative.getLsbD_dehash_zero, decide_eq_true hi, Bool.true_and]
  | succ i =>
    rw [if_neg (by omega), getLsbD_shiftLeft, mbits, getLsbD_and,
      getLsbD_and, getLsbD_not, getLsbD_mask, getLsbD_mask, next,
      Nat.add_sub_cancel, getLsbD_widen x (by omega)]
    by_cases below : i < m
    · grind [SkewedAssociative.getLsbD_dehash]
    · grind

theorem iterate_hash_setWidth (inside : m < 64) (n : Nat) (x : BitVec (m + 1)) :
    (hash m)^[n] (x.setWidth 64) = (SkewedAssociative.hash^[n] x).setWidth 64 := by
  induction n generalizing x with
  | zero => rfl
  | succ n ih =>
    rw [iterate_succ_apply, hash_setWidth inside, ih, iterate_succ_apply]

theorem iterate_dehash_setWidth (wide : 0 < m) (inside : m < 64) (n : Nat) (x : BitVec (m + 1)) :
    (dehash m)^[n] (x.setWidth 64) = (SkewedAssociative.dehash^[n] x).setWidth 64 := by
  induction n generalizing x with
  | zero => rfl
  | succ n ih =>
    rw [iterate_succ_apply, dehash_setWidth wide inside, ih, iterate_succ_apply]

theorem skew_eq (wide : 0 < m) (inside : m < 64) (addr : Addr) (way : Nat) :
    skew m addr way
      = (SkewedAssociative.hash^[way / 8]
          (SkewedAssociative.mix way (low m addr) (high m addr))).setWidth 64 := by
  rw [skew, bits_low, bits_high, NUM_SKEWING_FUNCTIONS, SkewedAssociative.mix]
  simp only [hash_setWidth inside, dehash_setWidth wide inside, ← setWidth_xor]
  generalize way % 8 = choice
  match choice with
  | 0 | 1 | 2 | 3 | 4 | 5 | 6 => exact iterate_hash_setWidth inside _ _
  | _ + 7 => exact iterate_hash_setWidth inside _ _

theorem deskew_eq (wide : 0 < m) (inside : m < 64) (addr : Addr) (way : Nat) :
    deskew m addr way
      = (SkewedAssociative.unmix way (SkewedAssociative.dehash^[way / 8] (low m addr))
          (high m addr)).setWidth 64 := by
  have unpiled : (if NUM_SKEWING_FUNCTIONS ≤ way then
      (dehash m)^[way / NUM_SKEWING_FUNCTIONS] ((low m addr).setWidth 64)
      else (low m addr).setWidth 64)
      = ((SkewedAssociative.dehash^[way / 8] (low m addr)).setWidth 64 : Addr) := by
    rw [NUM_SKEWING_FUNCTIONS]
    split
    · exact iterate_dehash_setWidth wide inside _ _
    · rename_i few
      rw [Nat.div_eq_of_lt (Nat.lt_of_not_le few)]
      rfl
  rw [deskew, bits_low, bits_high, SkewedAssociative.unmix]
  simp only [unpiled, hash_setWidth inside, dehash_setWidth wide inside, ← setWidth_xor]
  generalize way % 8 = choice
  match choice with
  | 0 | 2 | 4 | 6 => rfl
  | 1 | 3 | 5 => exact iterate_hash_setWidth inside _ _
  | _ + 7 => exact iterate_hash_setWidth inside _ _

theorem dehash_hash (wide : 0 < m) (inside : m < 64) {x : Addr} (narrow : x.toNat < 2 ^ (m + 1)) :
    dehash m (hash m x) = x := by
  have same : (x.setWidth (m + 1)).setWidth 64 = x := by
    apply eq_of_toNat_eq
    rw [toNat_setWidth, toNat_setWidth, Nat.mod_eq_of_lt narrow,
      Nat.mod_eq_of_lt x.isLt]
  rw [← same, hash_setWidth inside, dehash_setWidth wide inside,
    SkewedAssociative.dehash_hash wide]

theorem low_or (x : Addr) (y : BitVec (m + 1)) (inside : m < 64) :
    low m ((x <<< (m + 1)) ||| y.setWidth 64) = y := by
  apply eq_of_getLsbD_eq
  intro i hi
  rw [low, getLsbD_setWidth, getLsbD_or, getLsbD_shiftLeft,
    getLsbD_widen y (by omega)]
  simp [hi]

theorem high_or (x : Addr) (y : BitVec (m + 1)) (inside : 2 * (m + 1) ≤ 64) :
    high m ((x <<< (m + 1)) ||| y.setWidth 64) = low m x := by
  apply eq_of_getLsbD_eq
  intro i hi
  rw [high, low, low, getLsbD_setWidth, getLsbD_setWidth, getLsbD_ushiftRight,
    getLsbD_or, getLsbD_shiftLeft, getLsbD_widen y (by omega),
    getLsbD_of_ge y _ (by omega)]
  simp [show m + 1 + i < 64 by omega, show ¬m + 1 + i < m + 1 by omega]

/-- The bits of a set come back from the skewed ones and the field above them. -/
theorem deskew_skew (wide : 0 < m) (inside : 2 * (m + 1) ≤ 64) (addr : Addr) (way : Nat) :
    deskew m ((addr >>> (m + 1)) <<< (m + 1) ||| skew m addr way) way = bits addr m 0 := by
  have less : m < 64 := by omega
  rw [skew_eq wide less, deskew_eq wide less, low_or _ _ less, high_or _ _ inside, bits_low,
    Function.LeftInverse.iterate (SkewedAssociative.dehash_hash wide)]
  exact congrArg _ (SkewedAssociative.unmix_mix wide way _ _)

namespace Params

variable {p : Params}

theorem pow_of_isPowerOf2 {n : BitVec 32} (power : isPowerOf2 n) :
    n.toNat = 2 ^ Nat.log2 n.toNat := by
  have some_ : n.toNat ≠ 0 := fun zero => power.1 (eq_of_toNat_eq zero)
  have lower := Nat.log2_self_le some_
  have upper : n.toNat < 2 ^ (Nat.log2 n.toNat + 1) := Nat.lt_log2_self
  by_contra other
  have one : (1 : BitVec 32) ≤ n := by grind [le_def]
  have less : (n - 1).toNat = n.toNat - 1 := toNat_sub_of_le one
  have bit : ∀ x, 2 ^ Nat.log2 n.toNat ≤ x → x < 2 ^ (Nat.log2 n.toNat + 1) →
      x.testBit (Nat.log2 n.toNat) = true := by
    intro x above below
    rw [Nat.testBit_eq_decide_div_mod_eq, Nat.div_eq_of_lt_le (k := 1) (by omega) (by omega)]
    rfl
  have here := congrArg (fun v => v.getLsbD (Nat.log2 n.toNat)) power.2
  have top : n.getLsbD (Nat.log2 n.toNat) = true := bit _ lower upper
  have topLess : (n - 1).getLsbD (Nat.log2 n.toNat) = true := by grind [BitVec.getLsbD]
  simp only [leastSigBit, getLsbD_and, getLsbD_not, top, topLess] at here
  simp at here

theorem Accepted.sets_eq (accepted : p.Accepted) :
    p.numSets.toNat = 2 ^ (p.msbShift + 1) ∧ Nat.log2 p.numSets.toNat = p.msbShift + 1 ∧
      0 < p.msbShift ∧ p.msbShift < 31 := by
  have pow := pow_of_isPowerOf2 accepted.numSets
  have sets : 2 < p.numSets.toNat := by
    have more := accepted.sets
    exact Nat.lt_of_not_le more
  have size := p.numSets.isLt
  have two : 2 ≤ Nat.log2 p.numSets.toNat := by
    by_contra few
    have le : 2 ^ Nat.log2 p.numSets.toNat ≤ 2 ^ 1 :=
      Nat.pow_le_pow_right (by decide) (by omega)
    omega
  have less : Nat.log2 p.numSets.toNat < 32 := by
    rw [pow] at size
    exact (Nat.pow_lt_pow_iff_right (by decide)).mp size
  have back : p.msbShift + 1 = Nat.log2 p.numSets.toNat := by
    rw [msbShift]
    omega
  exact ⟨by rw [back]; exact pow, back.symm, by rw [msbShift]; omega, by rw [msbShift]; omega⟩

end Params

variable {p : Params}

theorem toNat_sub_one {x : BitVec 32} {k : Nat} (pow : x.toNat = 2 ^ k) :
    (x - 1).toNat = 2 ^ k - 1 := by
  rw [← pow]
  refine toNat_sub_of_le ?_
  rw [le_def, pow]
  exact Nat.two_pow_pos k

theorem and_setMask (accepted : p.Accepted) (y : BitVec (p.msbShift + 1)) :
    (y.setWidth 64 : Addr) &&& p.setMask.setWidth 64 = y.setWidth 64 := by
  obtain ⟨pow, -, -, -⟩ := accepted.sets_eq
  have mask : p.setMask.toNat = 2 ^ (p.msbShift + 1) - 1 :=
    toNat_sub_one pow
  apply eq_of_getLsbD_eq
  intro i hi
  rw [getLsbD_and, getLsbD_widen y hi, getLsbD_setWidth, decide_eq_true hi,
    Bool.true_and, BitVec.getLsbD, BitVec.getLsbD, mask, Nat.testBit_two_pow_sub_one]
  by_cases below : i < p.msbShift + 1
  · rw [decide_eq_true below, Bool.and_true]
  · rw [← BitVec.getLsbD, getLsbD_of_ge y i (by omega), Bool.false_and]

theorem tag_or_set (addr : Addr) {b : Nat} (inside : b + m + 1 < 64) :
    ((addr >>> (b + (m + 1))) <<< (b + (m + 1)))
        ||| ((low m (addr >>> b)).setWidth 64 <<< b)
      = addr &&& ~~~BitVec.ofNat 64 (2 ^ b - 1) := by
  apply eq_of_getLsbD_eq
  intro i hi
  rw [getLsbD_or, getLsbD_shiftLeft, getLsbD_ushiftRight,
    getLsbD_shiftLeft, getLsbD_widen _ (by omega), low, getLsbD_setWidth,
    getLsbD_ushiftRight, getLsbD_and, getLsbD_not, getLsbD_ofNat,
    Nat.testBit_two_pow_sub_one]
  by_cases block : i < b
  · simp [block, show i < b + (m + 1) by omega]
  · grind

/-- The entry of a way gives every address back, as the skewing function of the way can be undone
whatever the tag is. -/
theorem regenerateAddr_extractTag (accepted : p.Accepted) {b : Nat}
    (sized : p.entry_size.toNat = 2 ^ b) (way : BitVec 32) :
    (∀ addr, regenerateAddr p (extractTag p addr) ⟨extractSet p addr way, way⟩
      = addr &&& ~~~(p.entry_size.setWidth 64 - 1)) ∧
    (∀ addr : Addr, deskew p.msbShift
        ((addr >>> (p.msbShift + 1)) <<< (p.msbShift + 1) ||| skew p.msbShift addr way.toNat)
          way.toNat = bits addr p.msbShift 0) ∧
    ∀ addr : Addr, addr.toNat < 2 ^ (p.msbShift + 1) →
      dehash p.msbShift (hash p.msbShift addr) = addr := by
  obtain ⟨pow, log, wide, less⟩ := accepted.sets_eq
  have fits := accepted.bits
  have shift : p.setShift = b := by rw [Params.setShift, sized, Nat.log2_two_pow]
  have tag : p.tagShift = b + (p.msbShift + 1) := by rw [Params.tagShift, shift, log]
  rw [shift] at fits
  have inside : 2 * (p.msbShift + 1) ≤ 64 := by omega
  refine ⟨fun addr => ?_, fun addr => deskew_skew wide inside addr way.toNat,
    fun addr narrow => dehash_hash wide (by omega) narrow⟩
  have small : b < 32 := by
    have size := p.entry_size.isLt
    rw [sized] at size
    exact (Nat.pow_lt_pow_iff_right (by decide)).mp size
  have block : p.entry_size.setWidth 64 - 1 = BitVec.ofNat 64 (2 ^ b - 1) := by
    have positive : 0 < 2 ^ b := Nat.two_pow_pos b
    have below : 2 ^ b < 2 ^ 32 := Nat.pow_lt_pow_right (by decide) small
    apply BitVec.eq_of_toNat_eq
    rw [BitVec.toNat_sub_of_le (by rw [BitVec.le_def, BitVec.toNat_setWidth, sized]; simp; omega),
      BitVec.toNat_setWidth, BitVec.toNat_ofNat, sized, Nat.mod_eq_of_lt (by omega),
      Nat.mod_eq_of_lt (by omega)]
    rfl
  -- The set of the entry is the skewed address.
  have set : (extractSet p addr way).setWidth 64
      = skew p.msbShift (addr >>> b) way.toNat := by
    rw [extractSet, shift, skew_eq wide (by omega), and_setMask accepted]
    apply BitVec.eq_of_getLsbD_eq
    intro i hi
    rw [BitVec.getLsbD_setWidth, BitVec.getLsbD_setWidth, getLsbD_widen _ hi]
    by_cases below : i < 32
    · simp [hi, below]
    · rw [BitVec.getLsbD_of_ge _ i (by omega)]
      simp
  have cut : (addr >>> (b + (p.msbShift + 1)) : Addr) = (addr >>> b) >>> (p.msbShift + 1) :=
    BitVec.shiftRight_add addr b (p.msbShift + 1)
  have back := deskew_skew wide inside (addr >>> b) way.toNat
  rw [bits_low, ← cut, ← set] at back
  simp only [regenerateAddr, extractTag, tag, shift]
  rw [back, and_setMask accepted, block, tag_or_set addr (by omega)]

/-- Four sets of two ways, with blocks of two bytes. -/
def small : Params := ⟨16, 2, 2⟩

theorem regenerateAddr_extractTag_small :
    small.Accepted ∧ regenerateAddr small (extractTag small 0x1235)
      ⟨extractSet small 0x1235 1, 1⟩ = 0x1234 := by
  have accepted : small.Accepted := ⟨by decide, by decide, by decide, by decide, by decide⟩
  exact ⟨accepted, ((regenerateAddr_extractTag accepted (b := 1) (by decide) 1).1 0x1235).trans
    (by decide)⟩

end Gem5.Cache.SkewedAddresses
