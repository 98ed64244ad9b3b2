import Gem5.Cache.Indexing
import Gem5.Lib.Bits
import Mathlib.Logic.Function.Iterate

/-!
# The skewed-associative policy

Every way has a hash of its own from addresses to sets. The hash of a set's bits is a step of a
shift register, so `deskew` can undo it: it steps back, or forward until the register returns.
-/

namespace Gem5.Cache.SkewedAssociative

open Function BitVec Bool

variable {msbShift : Nat}

def hash (addr : BitVec (msbShift + 1)) : BitVec (msbShift + 1) :=
  let lsb := bits addr 0 0
  let msb := bits addr msbShift msbShift
  insertBits (addr >>> 1) msbShift msbShift (msb ^^^ lsb)

def dehash (addr : BitVec (msbShift + 1)) : BitVec (msbShift + 1) :=
  let msb := bits addr (msbShift - 1) (msbShift - 1)
  let xorBit := bits addr msbShift msbShift
  insertBits (addr <<< 1) 0 0 (msb ^^^ xorBit)

theorem getLsbD_hash (x : BitVec (msbShift + 1)) {i : Nat} (hi : i < msbShift) :
    (hash x).getLsbD i = x.getLsbD (i + 1) := by
  have below : ¬ (msbShift ≤ i ∧ i < msbShift + (msbShift - msbShift + 1)) := by omega
  rw [hash, getLsbD_insertBits, if_neg below, getLsbD_ushiftRight, Nat.add_comm 1 i]

theorem getLsbD_hash_msb (x : BitVec (msbShift + 1)) :
    (hash x).getLsbD msbShift = (x.getLsbD msbShift ^^ x.getLsbD 0) := by
  have top : msbShift ≤ msbShift ∧ msbShift < msbShift + (msbShift - msbShift + 1) := by omega
  rw [hash, getLsbD_insertBits, if_pos top, getLsbD_xor, getLsbD_bits, getLsbD_bits]
  simp

theorem getLsbD_dehash (x : BitVec (msbShift + 1)) {i : Nat} (hi : i < msbShift) :
    (dehash x).getLsbD (i + 1) = x.getLsbD i := by
  have above : ¬ (0 ≤ i + 1 ∧ i + 1 < 0 + (0 - 0 + 1)) := by omega
  rw [dehash, getLsbD_insertBits, if_neg above, getLsbD_shiftLeft]
  simp [hi]

theorem getLsbD_dehash_zero (x : BitVec (msbShift + 1)) :
    (dehash x).getLsbD 0 = (x.getLsbD (msbShift - 1) ^^ x.getLsbD msbShift) := by
  rw [dehash, getLsbD_insertBits, if_pos (by omega), getLsbD_xor, getLsbD_bits, getLsbD_bits]
  simp

theorem dehash_hash (wide : 0 < msbShift) (x : BitVec (msbShift + 1)) : dehash (hash x) = x := by
  apply eq_of_getLsbD_eq
  intro i hi
  cases i with
  | zero =>
    have next : msbShift - 1 + 1 = msbShift := by omega
    rw [getLsbD_dehash_zero, getLsbD_hash x (by omega), getLsbD_hash_msb, next, ← Bool.xor_assoc,
      Bool.xor_self, false_xor]
  | succ i => rw [getLsbD_dehash _ (by omega), getLsbD_hash x (by omega)]

theorem hash_dehash (wide : 0 < msbShift) (x : BitVec (msbShift + 1)) : hash (dehash x) = x := by
  apply eq_of_getLsbD_eq
  intro i hi
  by_cases top : i = msbShift
  · obtain ⟨m, rfl⟩ : ∃ m, msbShift = m + 1 := ⟨msbShift - 1, by omega⟩
    rw [top, getLsbD_hash_msb, getLsbD_dehash x (by omega), getLsbD_dehash_zero,
      Nat.add_sub_cancel, ← Bool.xor_assoc, Bool.xor_self, false_xor]
  · rw [getLsbD_hash _ (by omega), getLsbD_dehash x (by omega)]

theorem hash_xor (x y : BitVec (msbShift + 1)) : hash (x ^^^ y) = hash x ^^^ hash y := by
  apply eq_of_getLsbD_eq
  intro i hi
  by_cases top : i = msbShift
  · rw [top, getLsbD_xor, getLsbD_hash_msb, getLsbD_hash_msb, getLsbD_hash_msb,
      getLsbD_xor, getLsbD_xor, Bool.xor_assoc, Bool.xor_assoc,
      xor_left_comm (y.getLsbD msbShift)]
  · grind [getLsbD_hash]

theorem iterate_hash_xor (k : Nat) (x y : BitVec (msbShift + 1)) :
    hash^[k] (x ^^^ y) = hash^[k] x ^^^ hash^[k] y := by
  induction k generalizing x y with
  | zero => rfl
  | succ k ih =>
    rw [iterate_succ_apply, hash_xor, ih]
    rfl

theorem getLsbD_iterate_hash (x : BitVec (msbShift + 1)) {i : Nat} (hi : i ≤ msbShift) :
    (hash^[i] x).getLsbD 0 = x.getLsbD i := by
  induction i generalizing x with
  | zero => rfl
  | succ i ih =>
    rw [iterate_succ_apply, ih (hash x) (by omega), getLsbD_hash x (by omega)]

theorem iterate_hash_recurs (x : BitVec (msbShift + 1)) :
    (hash^[msbShift] (hash x)).getLsbD 0 = ((hash^[msbShift] x).getLsbD 0 ^^ x.getLsbD 0) := by
  rw [getLsbD_iterate_hash _ (Nat.le_refl _), getLsbD_hash_msb,
    getLsbD_iterate_hash _ (Nat.le_refl _)]

theorem iterate_hash_add (x : BitVec (msbShift + 1)) : hash^[msbShift] (hash x ^^^ x) = x := by
  apply eq_of_getLsbD_eq
  intro i hi
  have inside : i ≤ msbShift := by omega
  have turn : hash^[i] (hash^[msbShift] (hash x ^^^ x))
      = hash^[msbShift] (hash (hash^[i] x)) ^^^ hash^[msbShift] (hash^[i] x) := by
    rw [← iterate_hash_xor, ← iterate_succ_apply' hash i x,
      iterate_succ_apply hash i x, ← iterate_hash_xor, ← iterate_add_apply,
      ← iterate_add_apply, Nat.add_comm i msbShift]
  rw [← getLsbD_iterate_hash _ inside, turn, getLsbD_xor, iterate_hash_recurs, Bool.xor_comm,
    ← Bool.xor_assoc, Bool.xor_self, false_xor, getLsbD_iterate_hash x inside]

/-- The skewing function of a way, before the hashes of the ways from 8 on. -/
def mix (way : Nat) (addr1 addr2 : BitVec (msbShift + 1)) : BitVec (msbShift + 1) :=
  match way % 8 with
  | 0 => hash addr1 ^^^ hash addr2 ^^^ addr2
  | 1 => hash addr1 ^^^ hash addr2 ^^^ addr1
  | 2 => hash addr1 ^^^ dehash addr2 ^^^ addr2
  | 3 => hash addr1 ^^^ dehash addr2 ^^^ addr1
  | 4 => dehash addr1 ^^^ hash addr2 ^^^ addr2
  | 5 => dehash addr1 ^^^ hash addr2 ^^^ addr1
  | 6 => dehash addr1 ^^^ dehash addr2 ^^^ addr2
  | _ => dehash addr1 ^^^ dehash addr2 ^^^ addr1

def unmix (way : Nat) (addr1 addr2 : BitVec (msbShift + 1)) : BitVec (msbShift + 1) :=
  match way % 8 with
  | 0 => dehash (addr1 ^^^ hash addr2 ^^^ addr2)
  | 1 => hash^[msbShift] (addr1 ^^^ hash addr2)
  | 2 => dehash (addr1 ^^^ dehash addr2 ^^^ addr2)
  | 3 => hash^[msbShift] (addr1 ^^^ dehash addr2)
  | 4 => hash (addr1 ^^^ hash addr2 ^^^ addr2)
  | 5 => hash^[msbShift + 1] (addr1 ^^^ hash addr2)
  | 6 => hash (addr1 ^^^ dehash addr2 ^^^ addr2)
  | _ => hash^[msbShift + 1] (addr1 ^^^ dehash addr2)

/-- `bits(addr, msbShift, 0)` -/
def low (msbShift addr : Nat) : BitVec (msbShift + 1) := BitVec.ofNat _ addr

def skew (msbShift addr way : Nat) : BitVec (msbShift + 1) :=
  let addr1 := low msbShift addr
  let addr2 := low msbShift (addr >>> (msbShift + 1))
  hash^[way / 8] (mix way addr1 addr2)

def deskew (msbShift addr way : Nat) : BitVec (msbShift + 1) :=
  let addr1 := low msbShift addr
  let addr2 := low msbShift (addr >>> (msbShift + 1))
  let addr1 := if 8 ≤ way then dehash^[way / 8] addr1 else addr1
  unmix way addr1 addr2

theorem xor_cancel (x y z : BitVec (msbShift + 1)) : x ^^^ y ^^^ z ^^^ y = x ^^^ z := by
  rw [BitVec.xor_assoc, BitVec.xor_assoc, BitVec.xor_comm z y, ← BitVec.xor_assoc y y z,
    BitVec.xor_self, BitVec.zero_xor]

theorem xor_cancel_both (x y z : BitVec (msbShift + 1)) : x ^^^ y ^^^ z ^^^ y ^^^ z = x := by
  rw [xor_cancel, BitVec.xor_assoc, BitVec.xor_self, xor_zero]

theorem iterate_hash_add_dehash (wide : 0 < msbShift) (x : BitVec (msbShift + 1)) :
    hash^[msbShift + 1] (dehash x ^^^ x) = x := by
  have turn := iterate_hash_add (dehash x)
  rw [hash_dehash wide, BitVec.xor_comm] at turn
  rw [iterate_succ_apply', turn, hash_dehash wide]

theorem unmix_mix (wide : 0 < msbShift) (way : Nat) (addr1 addr2 : BitVec (msbShift + 1)) :
    unmix way (mix way addr1 addr2) addr2 = addr1 := by
  rw [unmix, mix]
  generalize way % 8 = choice
  match choice with
  | 0 => exact (congrArg dehash (xor_cancel_both _ _ _)).trans (dehash_hash wide _)
  | 1 => exact (congrArg _ (xor_cancel _ _ _)).trans (iterate_hash_add _)
  | 2 => exact (congrArg dehash (xor_cancel_both _ _ _)).trans (dehash_hash wide _)
  | 3 => exact (congrArg _ (xor_cancel _ _ _)).trans (iterate_hash_add _)
  | 4 => exact (congrArg hash (xor_cancel_both _ _ _)).trans (hash_dehash wide _)
  | 5 => exact (congrArg _ (xor_cancel _ _ _)).trans (iterate_hash_add_dehash wide _)
  | 6 => exact (congrArg hash (xor_cancel_both _ _ _)).trans (hash_dehash wide _)
  | _ + 7 => exact (congrArg _ (xor_cancel _ _ _)).trans (iterate_hash_add_dehash wide _)

/-- The bits of a set come back from the skewed ones and the tag's. -/
theorem deskew_skew (wide : 0 < msbShift) (addr way : Nat) :
    deskew msbShift ((addr >>> (msbShift + 1)) <<< (msbShift + 1)
      ||| (skew msbShift addr way).toNat) way = low msbShift addr := by
  have bound := (skew msbShift addr way).isLt
  have joined : (addr >>> (msbShift + 1)) <<< (msbShift + 1) ||| (skew msbShift addr way).toNat
      = (addr >>> (msbShift + 1)) * 2 ^ (msbShift + 1) + (skew msbShift addr way).toNat := by
    rw [← Nat.shiftLeft_add_eq_or_of_lt bound, Nat.shiftLeft_eq]
  have first : low msbShift ((addr >>> (msbShift + 1)) <<< (msbShift + 1)
      ||| (skew msbShift addr way).toNat) = skew msbShift addr way := by
    apply eq_of_toNat_eq
    rw [joined, low, toNat_ofNat, Nat.mul_add_mod_self_right, Nat.mod_eq_of_lt bound]
  have second : ((addr >>> (msbShift + 1)) <<< (msbShift + 1) ||| (skew msbShift addr way).toNat)
      >>> (msbShift + 1) = addr >>> (msbShift + 1) := by
    rw [joined, Nat.shiftRight_eq_div_pow, Nat.add_comm,
      Nat.add_mul_div_right _ _ (Nat.two_pow_pos _), Nat.div_eq_of_lt bound, Nat.zero_add]
  have unpiled : (if 8 ≤ way then dehash^[way / 8] (skew msbShift addr way)
      else skew msbShift addr way)
      = mix way (low msbShift addr) (low msbShift (addr >>> (msbShift + 1))) := by
    split
    · exact (Function.LeftInverse.iterate (dehash_hash wide) (way / 8)) _
    · rename_i few
      have none : way / 8 = 0 := by omega
      rw [skew, none]
      rfl
  rw [deskew, first, second, unpiled, unmix_mix wide]

section Policy

open SetAssociative (setShift tagShift entry extractTag entry_set)

variable (g : Geometry) (msbShift assoc : Nat)

def extractSet (addr way : Nat) : Fin (2 ^ (msbShift + 1)) :=
  (skew msbShift (addr >>> setShift g) way).toFin

def getPossibleEntries (addr : Nat) : List (Fin (2 ^ (msbShift + 1) * assoc)) :=
  List.ofFn fun way : Fin assoc =>
    entry (msbShift + 1) assoc (extractSet g msbShift addr way) way

def regenerateAddr (tag : Nat) (e : Fin (2 ^ (msbShift + 1) * assoc)) : Nat :=
  let addrSet := (tag <<< (msbShift + 1)) ||| (e.val / assoc)
  (tag <<< tagShift g (msbShift + 1))
    ||| ((deskew msbShift addrSet (e.val % assoc)).toNat <<< setShift g)

theorem entry_way (setsLog : Nat) (set : Fin (2 ^ setsLog)) (way : Fin assoc) :
    (entry setsLog assoc set way).val % assoc = way.val := by
  have val : (entry setsLog assoc set way).val = set.val * assoc + way.val := rfl
  rw [val, Nat.mul_add_mod_self_right, Nat.mod_eq_of_lt way.isLt]

/-- With at least four sets, as the constructor requires. -/
def policy (wide : 0 < msbShift) : IndexingPolicy g (2 ^ (msbShift + 1) * assoc) where
  getPossibleEntries := getPossibleEntries g msbShift assoc
  extractTag := extractTag g (msbShift + 1)
  regenerateAddr := regenerateAddr g msbShift assoc
  entries_of_sector a b h := by
    have set : a >>> setShift g = b >>> setShift g := h
    simp only [getPossibleEntries, extractSet, set]
  tag_of_sector := (SetAssociative.policy g (msbShift + 1) assoc).tag_of_sector
  regenerate a e he := by
    obtain ⟨way, rfl⟩ := (List.mem_ofFn' _ _).mp he
    have tag : extractTag g (msbShift + 1) a = (a >>> setShift g) >>> (msbShift + 1) := by
      rw [extractTag, tagShift, Nat.shiftRight_add]
    have set : (low msbShift (a >>> setShift g)).toNat
        = (SetAssociative.extractSet g (msbShift + 1) a).val := by
      rw [low, toNat_ofNat]
      exact (Nat.and_two_pow_sub_one_eq_mod _ _).symm
    rw [regenerateAddr, entry_set, entry_way]
    have back := deskew_skew wide (a >>> setShift g) way
    rw [← tag] at back
    dsimp only [extractSet]
    rw [val_toFin, back, set]
    exact SetAssociative.regenerate_extract g (msbShift + 1) a

end Policy

end Gem5.Cache.SkewedAssociative
