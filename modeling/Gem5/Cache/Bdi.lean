import Gem5.Lib.Loops
import Gem5.Lib.Words
import Gem5.Lib.Lists
import Mathlib.Data.Nat.Log
import Mathlib.Logic.Function.Basic

/-!
# Base-delta-immediate compression

A line is compressed to a few bases and the small differences of its values from them. The sizes of a
base and of a difference are parameters, in bytes.
-/

variable {bound : Nat}

namespace Gem5.Cache

open Loops Pieces

namespace BDI

def CHAR_BIT : Nat := 8

def BYTES_PER_QWORD : Nat := 8

/-- `n` bytes of a line of quadwords, on a little-endian host. -/
def memcpy (data : List (BitVec 64)) (byte_start n : Nat) : BitVec (8 * n) :=
  join (8 * n) ((List.range' byte_start n).map (pieceAt 8 8 data))

inductive Encoding
  | zero
  | repValues
  | base8_1
  | base8_2
  | base8_4
  | base4_1
  | base4_2
  | base2_1
  | uncompressed
  deriving DecidableEq

def encodingBits : Nat := 4

def BDI_DEFAULT_MAX_NUM_BASES : Nat := 2

structure BDICompDataBaseDelta (TB TD : Nat) where
  encoding : Encoding
  maxNumBases : Nat
  bitMask : List (BitVec 8)
  bases : List (BitVec (8 * TB))
  deltas : List (BitVec (8 * TD))
  sizeBits : Nat

namespace BDICompDataBaseDelta

variable {TB TD : Nat}

/-- It starts with the virtual base 0. -/
def new (TB TD : Nat) (encoding : Encoding) (max_num_bases : Nat) : BDICompDataBaseDelta TB TD where
  encoding := encoding
  maxNumBases := max_num_bases
  bitMask := []
  bases := [0]
  deltas := []
  sizeBits := 0

def calculateCompressedSize (d : BDICompDataBaseDelta TB TD) : BDICompDataBaseDelta TB TD :=
  let size := encodingBits
  let size := size + d.bitMask.length * Nat.clog 2 d.bases.length
  let size := size + (d.maxNumBases - 1) * TB * CHAR_BIT
  let size := size + d.deltas.length * TD * CHAR_BIT
  { d with sizeBits := size }

def addDelta (d : BDICompDataBaseDelta TB TD) (base_index : Nat) (delta : BitVec (8 * TD)) :
    BDICompDataBaseDelta TB TD :=
  { d with bitMask := d.bitMask ++ [BitVec.ofNat 8 base_index], deltas := d.deltas ++ [delta] }

/-- Fails at the limit of the number of bases. -/
def addBase (d : BDICompDataBaseDelta TB TD) (base : BitVec (8 * TB)) :
    Option (BDICompDataBaseDelta TB TD) :=
  if d.maxNumBases ≤ d.bases.length then none
  else
    let d := { d with bases := d.bases ++ [base] }
    some (d.addDelta (d.bases.length - 1) 0)

def limit (TB TD : Nat) : BitVec (8 * TB) :=
  (BitVec.allOnes 64 >>> ((BYTES_PER_QWORD - TD) * CHAR_BIT + 1)).setWidth (8 * TB)

/-- The comparison is of signed numbers. -/
def WithinLimit (TD : Nat) (delta : BitVec (8 * TB)) : Prop :=
  -(limit TB TD).toInt ≤ delta.toInt ∧ delta.toInt ≤ (limit TB TD).toInt

instance (delta : BitVec (8 * TB)) : Decidable (WithinLimit TD delta) :=
  inferInstanceAs (Decidable (_ ∧ _))

/-- The first base with a difference within the limit. A difference of 16-bit values is taken as an
`int` and cut to 16 bits, which is their difference modulo `2 ^ 16`. -/
def findDelta (d : BDICompDataBaseDelta TB TD) (curValue : BitVec (8 * TB)) :
    Option (Nat × BitVec (8 * TB)) :=
  d.bases.zipIdx.findSome? fun (base, base_index) =>
    let delta := curValue - base
    if WithinLimit TD delta then some (base_index, delta) else none

/-- The body of the loop of `compress`. -/
def addValue (d : BDICompDataBaseDelta TB TD) (curValue : BitVec (8 * TB)) :
    Option (BDICompDataBaseDelta TB TD) :=
  match d.findDelta curValue with
  | some (base_index, delta) => some (d.addDelta base_index (delta.setWidth (8 * TD)))
  | none => d.addBase curValue

def compress (d : BDICompDataBaseDelta TB TD) (data : List (BitVec 64)) (blk_size : Nat) :
    Option (BDICompDataBaseDelta TB TD) := do
  let d ← (List.range' 0 ((blk_size + TB - 1) / TB) TB).foldlM
    (fun d byte_start => d.addValue (memcpy data byte_start TB)) d
  some d.calculateCompressedSize

def mask (TB : Nat) : BitVec 64 :=
  BitVec.allOnes 64 >>> ((BYTES_PER_QWORD - TB) * CHAR_BIT)

/-- Bases of less than four bytes are added as `int`s. -/
def sum (base : BitVec (8 * TB)) (delta : BitVec (8 * TD)) : BitVec 64 :=
  if TB < 4 then (base.setWidth 32 + delta.signExtend 32).signExtend 64
  else (base + delta.signExtend (8 * TB)).setWidth 64

/-- One round of the loop of `access`, which fails where an assertion does. -/
def entry (d : BDICompDataBaseDelta TB TD) (delta_index : Nat) : Option (BitVec 64) := do
  let delta ← d.deltas[delta_index]?
  let base_index ← d.bitMask[delta_index]?
  let base ← d.bases[base_index.toNat]?
  some (sum base delta &&& mask TB)

/-- The loop runs from the last entry of the quadword to its first. The indices are `int`s, and a block
size is one as well, so that they do not overflow. -/
def access (d : BDICompDataBaseDelta TB TD) (index : Nat) : Option (BitVec 64) :=
  let size_diff := 8 / TB
  (List.range' (size_diff * index) size_diff).foldrM (fun delta_index value => do
    let entry ← d.entry delta_index
    some (value <<< (TB * CHAR_BIT) ||| entry)) 0

end BDICompDataBaseDelta

inductive BDICompData
  | zeros
  | rep (base : BitVec 64)
  | uncompressed (blkSize : Nat) (data : List (BitVec 64))
  | baseDelta {TB TD : Nat} (data : BDICompDataBaseDelta TB TD)

namespace BDICompData

def newUncompressed (data : List (BitVec 64)) (blk_size : Nat) : BDICompData :=
  .uncompressed blk_size (data.take (blk_size / CHAR_BIT))

def getEncoding : BDICompData → Encoding
  | zeros => .zero
  | rep _ => .repValues
  | uncompressed _ _ => .uncompressed
  | baseDelta d => d.encoding

def access : BDICompData → Nat → Option (BitVec 64)
  | zeros, _ => some 0
  | rep base, _ => some base
  | uncompressed _ data, index => data[index]?
  | baseDelta d, index => d.access index

def getSizeBits : BDICompData → Nat
  | zeros => encodingBits
  | rep _ => encodingBits + 8 * CHAR_BIT
  | uncompressed blkSize _ => encodingBits + blkSize * CHAR_BIT
  | baseDelta d => d.sizeBits

end BDICompData

end BDI

structure BDI where
  blkSize : Nat
  useMoreCompressors : Bool
  encodingStats : BDI.Encoding → Nat

namespace BDI

/-- What a compression hands out. -/
structure Compressed where
  bdi_data : BDICompData
  comp_lat : Nat
  decomp_lat : Nat

inductive Failure
  | fatal
  | outOfFuel
  deriving DecidableEq

variable (bdi : BDI)

def qwordsPerCacheLine : Nat := bdi.blkSize / BYTES_PER_QWORD

def isZeroPackable (data : List (BitVec 64)) : Bool :=
  (data.take bdi.qwordsPerCacheLine).all fun entry => entry == 0

def isSameValuePackable (data : List (BitVec 64)) : Bool :=
  let rep_value := data.headD 0
  (data.take bdi.qwordsPerCacheLine).all fun entry => entry == rep_value

def tryCompress (TB TD : Nat) (data : List (BitVec 64)) (encoding : Encoding) : Option BDICompData :=
  ((BDICompDataBaseDelta.new TB TD encoding BDI_DEFAULT_MAX_NUM_BASES).compress data bdi.blkSize).map
    .baseDelta

/-- The result for a combination of sizes. Fails with the `fatal`. -/
def tryCombination (data : List (BitVec 64)) (base_size delta_size : Nat) :
    Option (Option BDICompData) :=
  if base_size = 8 ∧ delta_size = 4 then some (bdi.tryCompress 8 4 data .base8_4)
  else if base_size = 8 ∧ delta_size = 2 then some (bdi.tryCompress 8 2 data .base8_2)
  else if base_size = 8 ∧ delta_size = 1 then some (bdi.tryCompress 8 1 data .base8_1)
  else if base_size = 4 ∧ delta_size = 2 then some (bdi.tryCompress 4 2 data .base4_2)
  else if base_size = 4 ∧ delta_size = 1 then some (bdi.tryCompress 4 1 data .base4_1)
  else if base_size = 2 ∧ delta_size = 1 then some (bdi.tryCompress 2 1 data .base2_1)
  else none

/-- The variables of the two loops of `compress`. Between two runs of the inner loop there is no base
size. -/
structure Search where
  bdi_data : BDICompData
  base_delta_ratio : Nat
  ratio : Nat
  base_size : Option Nat

/-- A successful result is kept if it is smaller. -/
def Search.improve (s : Search) : Option BDICompData → Search
  | some temp_bdi_data =>
    if temp_bdi_data.getSizeBits < s.bdi_data.getSizeBits then
      { s with bdi_data := temp_bdi_data, base_delta_ratio := s.ratio }
    else s
  | none => s

/-- A test of a loop, with the body of the inner one. -/
def round (data : List (BitVec 64)) (s : Search) : Search ⊕ Option Search :=
  match s.base_size with
  | none =>
    if s.base_delta_ratio ≤ s.ratio then .inl { s with base_size := some 8 } else .inr (some s)
  | some base_size =>
    if s.ratio ≤ base_size then
      let next := { s with base_size := some (base_size / 2) }
      let delta_size := base_size / s.ratio
      if ! bdi.useMoreCompressors && delta_size != base_size / 2 then .inl next
      else
        match bdi.tryCombination data base_size delta_size with
        | none => .inr none
        | some temp_bdi_data => .inl (next.improve temp_bdi_data)
    else .inl { s with ratio := s.ratio / 2, base_size := none }

/-- The update of the statistics and the latencies at the end of `compress`. -/
def pack (bdi_data : BDICompData) (comp_lat : Nat) : BDI × Compressed :=
  let encoding := bdi_data.getEncoding
  ({ bdi with encodingStats :=
      Function.update bdi.encodingStats encoding (bdi.encodingStats encoding + 1) },
    { bdi_data, comp_lat := comp_lat + 1, decomp_lat := 1 })

def compress (fuel : Nat) (data : List (BitVec 64)) : Except Failure (BDI × Compressed) :=
  if bdi.isZeroPackable data then .ok (bdi.pack .zeros bdi.qwordsPerCacheLine)
  else if bdi.isSameValuePackable data then
    .ok (bdi.pack (.rep (data.headD 0)) bdi.qwordsPerCacheLine)
  else
    let bdi_data := BDICompData.newUncompressed data bdi.blkSize
    match loop (bdi.round data) fuel
      { bdi_data, base_delta_ratio := 2, ratio := 8, base_size := none } with
    | none => .error .outOfFuel
    | some none => .error .fatal
    | some (some s) => .ok (bdi.pack s.bdi_data (bdi.blkSize / s.base_delta_ratio))

/-- Fails where an assertion of `access` does. -/
def decompress (comp_data : BDICompData) : Option (List (BitVec 64)) :=
  (List.range bdi.qwordsPerCacheLine).mapM comp_data.access

/-- The sizes of bases and differences that are in use. -/
inductive Sizes : Nat → Nat → Prop
  | base8_4 : Sizes 8 4
  | base8_2 : Sizes 8 2
  | base8_1 : Sizes 8 1
  | base4_2 : Sizes 4 2
  | base4_1 : Sizes 4 1
  | base2_1 : Sizes 2 1

namespace BDICompDataBaseDelta

variable {TB TD : Nat}

theorem limit_toInt (sizes : Sizes TB TD) : (limit TB TD).toInt = 2 ^ (8 * TD - 1) - 1 := by
  cases sizes <;> decide

theorem signExtend_setWidth (sizes : Sizes TB TD) {delta : BitVec (8 * TB)}
    (within : WithinLimit TD delta) : (delta.setWidth (8 * TD)).signExtend (8 * TB) = delta := by
  obtain ⟨lower, upper⟩ := within
  rw [limit_toInt sizes] at lower upper
  have narrow : 0 < TD ∧ TD ≤ TB := by
    cases sizes <;> omega
  have half : ((2 ^ (8 * TD) : Nat) : Int) = 2 * 2 ^ (8 * TD - 1) := by
    rw [← Int.pow_succ', show 8 * TD - 1 + 1 = 8 * TD by omega]
    norm_cast
  apply BitVec.eq_of_toInt_eq
  rw [BitVec.toInt_signExtend_of_le (by omega), ← BitVec.signExtend_eq_setWidth_of_le delta (by omega),
    BitVec.toInt_signExtend_eq_toInt_bmod_of_le delta (by omega)]
  exact Int.bmod_eq_of_le_mul_two (by omega) (by omega)

theorem and_mask (sizes : Sizes TB TD) (x : BitVec 64) :
    x &&& mask TB = (x.setWidth (8 * TB)).setWidth 64 := by
  apply BitVec.eq_of_getLsbD_eq
  intro i inside
  have kept : (mask TB).getLsbD i = decide (i < 8 * TB) := by
    rw [mask, BYTES_PER_QWORD, CHAR_BIT, BitVec.getLsbD_ushiftRight, BitVec.getLsbD_allOnes]
    exact decide_eq_decide.mpr (by omega)
  rw [BitVec.getLsbD_and, BitVec.getLsbD_setWidth, BitVec.getLsbD_setWidth, kept, Bool.and_comm,
    decide_eq_true inside, Bool.true_and]

theorem setWidth_signExtend {u v w : Nat} (x : BitVec w) (narrow : u ≤ v) :
    (x.signExtend v).setWidth u = x.signExtend u := by
  apply BitVec.eq_of_getLsbD_eq
  intro i inside
  rw [BitVec.getLsbD_setWidth, BitVec.getLsbD_signExtend, BitVec.getLsbD_signExtend,
    decide_eq_true inside, decide_eq_true (Nat.lt_of_lt_of_le inside narrow), Bool.true_and]

theorem sum_and_mask (sizes : Sizes TB TD) (base : BitVec (8 * TB)) (delta : BitVec (8 * TD)) :
    sum base delta &&& mask TB = (base + delta.signExtend (8 * TB)).setWidth 64 := by
  have size : TB ≤ 8 := by
    cases sizes <;> omega
  rw [and_mask sizes, sum]
  congr 1
  split
  case isTrue small =>
    rw [setWidth_signExtend _ (by omega), BitVec.signExtend_eq_setWidth_of_le _ (by omega),
      BitVec.setWidth_add _ _ (by omega), BitVec.setWidth_setWidth_of_le _ (by omega),
      BitVec.setWidth_eq, setWidth_signExtend _ (by omega)]
  case isFalse large =>
    rw [BitVec.setWidth_setWidth_of_le _ (by omega), BitVec.setWidth_eq]

/-- Each value of the line is the sum of a difference and the base that its mask names. -/
structure Encodes (d : BDICompDataBaseDelta TB TD) (values : List (BitVec (8 * TB))) : Prop where
  few : d.bases.length ≤ 2
  most : d.maxNumBases = 2
  masks : d.bitMask.length = values.length
  deltas : d.deltas.length = values.length
  sums : ∀ (k : Nat) (value : BitVec (8 * TB)), values[k]? = some value →
    ∃ (base_index : BitVec 8) (base : BitVec (8 * TB)) (delta : BitVec (8 * TD)),
    d.bitMask[k]? = some base_index ∧ d.bases[base_index.toNat]? = some base ∧
      d.deltas[k]? = some delta ∧ base + delta.signExtend (8 * TB) = value

variable {d d' : BDICompDataBaseDelta TB TD} {values : List (BitVec (8 * TB))}
  {value : BitVec (8 * TB)}

theorem encodes_new (TB TD : Nat) (encoding : Encoding) :
    (new TB TD encoding BDI_DEFAULT_MAX_NUM_BASES).Encodes [] :=
  ⟨Nat.le_succ 1, rfl, rfl, rfl, fun _ _ found => by cases found⟩

theorem findDelta_spec (sizes : Sizes TB TD) {base_index : Nat} {delta : BitVec (8 * TB)}
    (found : d.findDelta value = some (base_index, delta)) :
    ∃ base, d.bases[base_index]? = some base ∧
      base + (delta.setWidth (8 * TD)).signExtend (8 * TB) = value := by
  obtain ⟨⟨base, index⟩, mem, here⟩ := List.exists_of_findSome?_eq_some found
  simp only at here
  by_cases within : WithinLimit TD (value - base)
  · rw [if_pos within] at here
    cases here
    refine ⟨base, List.mem_zipIdx_iff_getElem?.mp mem, ?_⟩
    rw [signExtend_setWidth sizes within, BitVec.add_comm, BitVec.sub_add_cancel]
  · rw [if_neg within] at here
    cases here

theorem Encodes.push (enc : d.Encodes values) (more : List (BitVec (8 * TB)))
    (few : (d.bases ++ more).length ≤ 2) {base_index : Nat} {base : BitVec (8 * TB)}
    {delta : BitVec (8 * TD)} (found : (d.bases ++ more)[base_index]? = some base)
    (sum_ : base + delta.signExtend (8 * TB) = value) :
    (({ d with bases := d.bases ++ more } : BDICompDataBaseDelta TB TD).addDelta base_index
      delta).Encodes (values ++ [value]) := by
  obtain ⟨-, most, masks, deltas, sums⟩ := enc
  refine ⟨few, most, by simp [addDelta, masks], by simp [addDelta, deltas], fun k v here => ?_⟩
  rcases Nat.lt_trichotomy k values.length with old | rfl | beyond
  · rw [List.getElem?_append_left old] at here
    obtain ⟨mask_, base', delta', at_, base_, delta_, total⟩ := sums k v here
    have known := (List.getElem?_eq_some_iff.mp base_).1
    refine ⟨mask_, base', delta', ?_, ?_, ?_, total⟩
    · exact (List.getElem?_append_left (masks ▸ old)).trans at_
    · exact (List.getElem?_append_left known).trans base_
    · exact (List.getElem?_append_left (deltas ▸ old)).trans delta_
  · rw [List.getElem?_concat_length] at here
    cases here
    have index : base_index < 2 := Nat.lt_of_lt_of_le (List.getElem?_eq_some_iff.mp found).1 few
    refine ⟨BitVec.ofNat 8 base_index, base, delta, ?_, ?_, ?_, sum_⟩
    · rw [← masks]
      exact List.getElem?_concat_length
    · rw [BitVec.toNat_ofNat, Nat.mod_eq_of_lt (by omega)]
      exact found
    · rw [← deltas]
      exact List.getElem?_concat_length
  · grind

theorem Encodes.addValue (sizes : Sizes TB TD) (enc : d.Encodes values)
    (added : d.addValue value = some d') : d'.Encodes (values ++ [value]) := by
  rw [BDICompDataBaseDelta.addValue] at added
  cases search : d.findDelta value with
  | some found =>
    rw [search] at added
    cases added
    obtain ⟨base, known, total⟩ := findDelta_spec sizes search
    have pushed := enc.push [] (by rw [List.append_nil]; exact enc.few)
      (by rw [List.append_nil]; exact known) total
    rw [List.append_nil] at pushed
    exact pushed
  | none =>
    simp only [search, addBase] at added
    split at added
    · cases added
    · rename_i room
      cases added
      have few : (d.bases ++ [value]).length ≤ 2 := by
        rw [List.length_append, List.length_singleton, ← enc.most]
        omega
      have own : (d.bases ++ [value])[(d.bases ++ [value]).length - 1]? = some value := by
        simp
      have same : (0#(8 * TD)).signExtend (8 * TB) = 0#(8 * TB) := by grind
      exact enc.push [value] few own ((congrArg (value + ·) same).trans (BitVec.add_zero value))

theorem Encodes.entry (sizes : Sizes TB TD) (enc : d.Encodes values) {k : Nat}
    (here : values[k]? = some value) : d.entry k = some (value.setWidth 64) := by
  obtain ⟨mask_, base, delta, at_, base_, delta_, total⟩ := enc.sums k value here
  rw [BDICompDataBaseDelta.entry, at_, delta_, ← total, ← sum_and_mask sizes]
  simp [base_]

theorem Encodes.foldrM (sizes : Sizes TB TD) (enc : d.Encodes values)
    (read : Nat → BitVec (8 * TB)) (l : List Nat)
    (inside : ∀ k ∈ l, values[k]? = some (read k)) :
    l.foldrM (fun delta_index value => do
      let entry ← d.entry delta_index
      some (value <<< (TB * CHAR_BIT) ||| entry)) 0 = some (join 64 (l.map read)) := by
  induction l with
  | nil => rfl
  | cons k l ih =>
    rw [List.foldrM_cons, ih fun k' mem => inside k' (List.mem_cons_of_mem k mem)]
    have one := enc.entry sizes (inside k List.mem_cons_self)
    simp [one, join, CHAR_BIT, Nat.mul_comm]

theorem memcpy_piece (data : List (BitVec 64)) {size_diff : Nat} (whole : TB * size_diff = 8)
    (k : Nat) : memcpy data (TB * k) TB = pieceAt (8 * TB) size_diff data k := by
  have few : 0 < size_diff := by grind
  rw [memcpy, join_aligned data (by decide) whole few k (Nat.le_refl _), pieceAt, Nat.mul_assoc]

theorem compress_encodes (sizes : Sizes TB TD) {encoding : Encoding} {data : List (BitVec 64)}
    (run : (new TB TD encoding BDI_DEFAULT_MAX_NUM_BASES).compress data (8 * data.length) = some d) :
    ∃ parsed : BDICompDataBaseDelta TB TD, d = parsed.calculateCompressedSize ∧
      parsed.Encodes ((List.range' 0 (8 / TB * data.length) TB).map fun byte_start =>
        memcpy data byte_start TB) := by
  have count : (8 * data.length + TB - 1) / TB = 8 / TB * data.length := by
    cases sizes <;> omega
  rw [compress, count, Option.bind_eq_bind, Option.bind_eq_some_iff] at run
  obtain ⟨parsed, run, last⟩ := run
  cases last
  refine ⟨parsed, rfl, Traversals.foldlM_keep
    (P := fun done d => d.Encodes (done.map fun byte_start => memcpy data byte_start TB)) ?_
    (encodes_new TB TD encoding) run⟩
  intro done byte_start d next enc added
  rw [List.map_append]
  exact enc.addValue sizes added

theorem compress_access (sizes : Sizes TB TD) {encoding : Encoding} {data : List (BitVec 64)}
    (run : (new TB TD encoding BDI_DEFAULT_MAX_NUM_BASES).compress data (8 * data.length) = some d)
    {index : Nat} (inside : index < data.length) : d.access index = data[index]? := by
  have whole : TB * (8 / TB) = 8 := by
    cases sizes <;> rfl
  obtain ⟨parsed, rfl, enc⟩ := compress_encodes sizes run
  have values : ∀ k ∈ List.range' (8 / TB * index) (8 / TB),
      ((List.range' 0 (8 / TB * data.length) TB).map fun byte_start =>
        memcpy data byte_start TB)[k]? = some (pieceAt (8 * TB) (8 / TB) data k) := by
    intro k mem
    have room : 8 / TB * (index + 1) ≤ 8 / TB * data.length := Nat.mul_le_mul_left _ inside
    obtain ⟨-, below⟩ := List.mem_range'_1.mp mem
    rw [List.getElem?_map, List.getElem?_range' (Nat.lt_of_lt_of_le below room), Option.map_some,
      Nat.zero_add, memcpy_piece data whole]
  have joined := enc.foldrM sizes _ _ values
  rw [join_aligned data (by cases sizes <;> omega) (Nat.mul_one _) Nat.one_pos index
    (by rw [Nat.mul_assoc, whole]), Nat.div_one, Nat.mod_one, Nat.mul_zero, Nat.mul_zero,
    BitVec.extractLsb'_eq_self, List.getD_eq_getElem?_getD, List.getElem?_eq_getElem inside,
    Option.getD_some, ← List.getElem?_eq_getElem inside] at joined
  exact joined

end BDICompDataBaseDelta

variable {bdi : BDI} {data : List (BitVec 64)}

/-- The line can be read back, and is no larger than without compression. -/
structure Lossless (data : List (BitVec 64)) (bound : Nat) (d : BDICompData) : Prop where
  access : ∀ index < data.length, d.access index = data[index]?
  small : d.getSizeBits ≤ bound

theorem tryCompress_access {TB TD : Nat} (sizes : Sizes TB TD) (block : bdi.blkSize = 8 * data.length)
    {encoding : Encoding} {d : BDICompData} (success : bdi.tryCompress TB TD data encoding = some d)
    {index : Nat} (inside : index < data.length) : d.access index = data[index]? := by
  rw [tryCompress, block, Option.map_eq_some_iff] at success
  obtain ⟨temp_data, run, rfl⟩ := success
  exact BDICompDataBaseDelta.compress_access sizes run inside

theorem tryCombination_spec (block : bdi.blkSize = 8 * data.length) {base_size delta_size : Nat}
    (sizes : Sizes base_size delta_size) :
    ∃ temp, bdi.tryCombination data base_size delta_size = some temp ∧
      ∀ d, temp = some d → ∀ index < data.length, d.access index = data[index]? := by
  cases sizes
  case base8_4 => exact ⟨_, rfl, fun d some_ index => tryCompress_access .base8_4 block some_⟩
  case base8_2 => exact ⟨_, rfl, fun d some_ index => tryCompress_access .base8_2 block some_⟩
  case base8_1 => exact ⟨_, rfl, fun d some_ index => tryCompress_access .base8_1 block some_⟩
  case base4_2 => exact ⟨_, rfl, fun d some_ index => tryCompress_access .base4_2 block some_⟩
  case base4_1 => exact ⟨_, rfl, fun d some_ index => tryCompress_access .base4_1 block some_⟩
  case base2_1 => exact ⟨_, rfl, fun d some_ index => tryCompress_access .base2_1 block some_⟩

/-- The values that the loops come to. -/
structure Searching (data : List (BitVec 64)) (bound : Nat) (s : Search) : Prop where
  lossless : Lossless data bound s.bdi_data
  positive : 2 ≤ s.base_delta_ratio
  outer : s.ratio ∈ [8, 4, 2, 1]
  inner : ∀ base_size, s.base_size = some base_size → 2 ≤ s.ratio ∧ base_size ∈ [8, 4, 2, 1]

/-- A run of the inner loop is counted with the outer ratio, and its start before its rounds. -/
def Search.measure (s : Search) : Nat :=
  32 * s.ratio + s.base_size.getD 9

theorem Searching.improve {s : Search} {base_size : Nat} (searching : Searching data bound s)
    (within : s.base_size = some base_size) {temp : Option BDICompData}
    (new : ∀ d, temp = some d → ∀ index < data.length, d.access index = data[index]?) :
    Searching data bound (s.improve temp) ∧ (s.improve temp).measure = s.measure := by
  cases temp with
  | none => exact ⟨searching, rfl⟩
  | some d =>
    rw [Search.improve]
    split
    case isTrue less =>
      have kept : Lossless data bound d :=
        ⟨new d rfl, Nat.le_trans (Nat.le_of_lt less) searching.lossless.small⟩
      exact ⟨⟨kept, (searching.inner base_size within).1, searching.outer, searching.inner⟩, rfl⟩
    case isFalse => exact ⟨searching, rfl⟩

theorem halved_mem {n : Nat} (mem : n ∈ [8, 4, 2, 1]) (two : 2 ≤ n) : n / 2 ∈ [8, 4, 2, 1] := by
  simp only [List.mem_cons, List.not_mem_nil, or_false] at mem ⊢
  omega

theorem sizes_of_ratio {ratio base_size : Nat} (outer : ratio ∈ [8, 4, 2, 1])
    (inner : base_size ∈ [8, 4, 2, 1]) (two : 2 ≤ ratio) (le : ratio ≤ base_size) :
    Sizes base_size (base_size / ratio) := by
  simp only [List.mem_cons, List.not_mem_nil, or_false] at outer inner
  rcases outer with rfl | rfl | rfl | rfl <;> rcases inner with rfl | rfl | rfl | rfl <;>
    first | omega | constructor

theorem Searching.round (block : bdi.blkSize = 8 * data.length) {s : Search}
    (searching : Searching data bound s) :
    (∃ t, bdi.round data s = .inl t ∧ Searching data bound t ∧ t.measure < s.measure) ∨
      ∃ r, bdi.round data s = .inr r ∧ ∃ s', r = some s' ∧ Lossless data bound s'.bdi_data := by
  cases size : s.base_size with
  | none =>
    by_cases more : s.base_delta_ratio ≤ s.ratio
    · refine .inl ⟨{ s with base_size := some 8 }, by rw [BDI.round, size]; exact if_pos more,
        ⟨searching.lossless, searching.positive, searching.outer, ?_⟩, ?_⟩
      · rintro base_size ⟨⟩
        exact ⟨Nat.le_trans searching.positive more, List.mem_cons_self⟩
      · simp [Search.measure, size]
    · exact .inr ⟨some s, by rw [BDI.round, size]; exact if_neg more, s, rfl, searching.lossless⟩
  | some base_size =>
    left
    obtain ⟨two, mem⟩ := searching.inner base_size size
    have now : s.measure = 32 * s.ratio + base_size := by
      rw [Search.measure, size, Option.getD_some]
    by_cases le : s.ratio ≤ base_size
    · have next : Searching data bound { s with base_size := some (base_size / 2) } := by
        refine ⟨searching.lossless, searching.positive, searching.outer, ?_⟩
        rintro half ⟨⟩
        exact ⟨two, halved_mem mem (Nat.le_trans two le)⟩
      have less : ({ s with base_size := some (base_size / 2) } : Search).measure < s.measure := by
        rw [now, Search.measure, Option.getD_some]
        exact Nat.add_lt_add_left (Nat.div_lt_self (by omega) (by omega)) _
      by_cases skip : (! bdi.useMoreCompressors && base_size / s.ratio != base_size / 2) = true
      · refine ⟨_, ?_, next, less⟩
        rw [BDI.round, size]
        simp only [if_pos le, if_pos skip]
      · obtain ⟨temp, found, new⟩ := tryCombination_spec block
          (sizes_of_ratio searching.outer mem two le)
        obtain ⟨improved, same⟩ := next.improve rfl new
        refine ⟨_, ?_, improved, same ▸ less⟩
        rw [BDI.round, size]
        simp only [if_pos le, if_neg skip, found]
    · refine ⟨{ s with ratio := s.ratio / 2, base_size := none }, ?_,
        ⟨searching.lossless, searching.positive, halved_mem searching.outer two, ?_⟩, ?_⟩
      · rw [BDI.round, size]
        exact if_neg le
      · rintro base_size ⟨⟩
      · change 32 * (s.ratio / 2) + 9 < _
        omega

theorem decompress_lossless (block : bdi.blkSize = 8 * data.length) {d : BDICompData}
    (lossless : Lossless data bound d) : bdi.decompress d = some data := by
  have count : bdi.qwordsPerCacheLine = data.length := by
    rw [qwordsPerCacheLine, block, BYTES_PER_QWORD, Nat.mul_div_cancel_left _ (by decide)]
  have reads : ∀ index ∈ List.range data.length, d.access index = some (data.getD index 0) := by
    intro index mem
    have inside := List.mem_range.mp mem
    rw [lossless.access index inside, List.getD_eq_getElem?_getD, List.getElem?_eq_getElem inside,
      Option.getD_some]
  rw [decompress, count, Traversals.mapM_some reads]
  congr 1
  refine List.ext_getElem (by simp) fun index _ inside => ?_
  simp [inside]

theorem zeros_lossless (zero : ∀ entry ∈ data, entry = 0) (room : encodingBits ≤ bound) :
    Lossless data bound .zeros := by
  refine ⟨fun index inside => ?_, room⟩
  rw [List.getElem?_eq_getElem inside, zero _ (List.getElem_mem inside)]
  rfl

theorem rep_lossless {base : BitVec 64} (same : ∀ entry ∈ data, entry = base)
    (room : encodingBits + 8 * CHAR_BIT ≤ bound) : Lossless data bound (.rep base) := by
  refine ⟨fun index inside => ?_, room⟩
  rw [List.getElem?_eq_getElem inside, same _ (List.getElem_mem inside)]
  rfl

theorem uncompressed_lossless (block : bdi.blkSize = 8 * data.length) :
    Lossless data (BDICompData.newUncompressed data bdi.blkSize).getSizeBits
      (.newUncompressed data bdi.blkSize) := by
  refine ⟨fun index inside => ?_, Nat.le_refl _⟩
  have whole : data.take (bdi.blkSize / CHAR_BIT) = data := by
    rw [block, CHAR_BIT, Nat.mul_div_cancel_left _ (by decide), List.take_length]
  rw [BDICompData.newUncompressed, whole, BDICompData.access]

theorem search_lossless (block : bdi.blkSize = 8 * data.length) :
    ∃ s, Returns (bdi.round data)
        { bdi_data := .newUncompressed data bdi.blkSize, base_delta_ratio := 2, ratio := 8,
          base_size := none } (some s) ∧
      Lossless data (BDICompData.newUncompressed data bdi.blkSize).getSizeBits s.bdi_data := by
  have start : Searching data (BDICompData.newUncompressed data bdi.blkSize).getSizeBits
      { bdi_data := .newUncompressed data bdi.blkSize, base_delta_ratio := 2, ratio := 8,
        base_size := none } :=
    ⟨uncompressed_lossless block, Nat.le_refl 2, List.mem_cons_self, fun _ some_ => by cases some_⟩
  obtain ⟨_, ends, s, rfl, lossless⟩ := returns_of_measure Search.measure start
    fun s searching => searching.round block
  exact ⟨s, ends, lossless⟩

theorem compress_search {s : Search} (zero : ¬bdi.isZeroPackable data = true)
    (same : ¬bdi.isSameValuePackable data = true)
    (ends : Returns (bdi.round data)
      { bdi_data := .newUncompressed data bdi.blkSize, base_delta_ratio := 2, ratio := 8,
        base_size := none } (some s)) :
    (∀ fuel, bdi.compress fuel data ≠ .error .fatal) ∧
      ∃ fuel, bdi.compress fuel data
        = .ok (bdi.pack s.bdi_data (bdi.blkSize / s.base_delta_ratio)) := by
  constructor
  · intro fuel failed
    rw [compress, if_neg zero, if_neg same] at failed
    simp only at failed
    split at failed
    · cases failed
    · rename_i fatal
      cases Returns.unique ends ⟨fuel, fatal⟩
    · cases failed
  · obtain ⟨fuel, ends⟩ := ends
    refine ⟨fuel, ?_⟩
    rw [compress, if_neg zero, if_neg same]
    simp [ends]

/-- No block reaches the `fatal`, and the result gives the block back within the size of the
uncompressed encoding. -/
theorem compress_lossless (positive : 0 < bdi.blkSize) (multiple : 8 ∣ bdi.blkSize)
    (block : data.length = bdi.qwordsPerCacheLine) :
    (∀ fuel, bdi.compress fuel data ≠ .error .fatal) ∧
      ∃ fuel bdi' result, bdi.compress fuel data = .ok (bdi', result) ∧
        bdi.decompress result.bdi_data = some data ∧
        result.bdi_data.getSizeBits
          ≤ (BDICompData.newUncompressed data bdi.blkSize).getSizeBits := by
  have size : bdi.blkSize = 8 * data.length := by
    rw [block, qwordsPerCacheLine, BYTES_PER_QWORD, Nat.mul_div_cancel' multiple]
  have whole : data.take bdi.qwordsPerCacheLine = data := by
    rw [← block, List.take_length]
  suffices found : ∃ d lat, Lossless data (encodingBits + bdi.blkSize * CHAR_BIT) d ∧
      (∀ fuel, bdi.compress fuel data ≠ .error .fatal) ∧
        ∃ fuel, bdi.compress fuel data = .ok (bdi.pack d lat) by
    obtain ⟨d, lat, lossless, safe, fuel, packed⟩ := found
    exact ⟨safe, fuel, _, _, packed, decompress_lossless size lossless, lossless.small⟩
  by_cases zero : bdi.isZeroPackable data = true
  · have entries : ∀ entry ∈ data, entry = 0 := by
      rw [isZeroPackable, whole, List.all_eq_true] at zero
      exact fun entry mem => eq_of_beq (zero entry mem)
    have packed : ∀ fuel, bdi.compress fuel data
        = .ok (bdi.pack .zeros bdi.qwordsPerCacheLine) := fun fuel => by
      rw [compress, if_pos zero]
    exact ⟨_, _, zeros_lossless entries (Nat.le_add_right _ _),
      fun fuel => by rw [packed]; exact nofun, 0, packed 0⟩
  by_cases same : bdi.isSameValuePackable data = true
  · have entries : ∀ entry ∈ data, entry = data.headD 0 := by
      rw [isSameValuePackable, whole, List.all_eq_true] at same
      exact fun entry mem => eq_of_beq (same entry mem)
    have packed : ∀ fuel, bdi.compress fuel data
        = .ok (bdi.pack (.rep (data.headD 0)) bdi.qwordsPerCacheLine) := fun fuel => by
      rw [compress, if_neg zero, if_pos same]
    have room : encodingBits + 8 * CHAR_BIT ≤ encodingBits + bdi.blkSize * CHAR_BIT :=
      Nat.add_le_add_left (Nat.mul_le_mul_right _ (Nat.le_of_dvd positive multiple)) _
    exact ⟨_, _, rep_lossless entries room, fun fuel => by rw [packed]; exact nofun, 0, packed 0⟩
  · obtain ⟨s, ends, lossless⟩ := search_lossless size
    exact ⟨_, _, lossless, compress_search zero same ends⟩

/-- A block of 32 bytes with two small values and two near a large one. -/
def near_line : List (BitVec 64) := [0x7fff00001000, 3, 0x7fff00000f90, 0xffffffffffffff81]

def near_bdi : BDI := ⟨32, true, fun _ => 0⟩

theorem compress_lossless_near : (∀ fuel, near_bdi.compress fuel near_line ≠ .error .fatal) ∧
    ∃ fuel bdi' result, near_bdi.compress fuel near_line = .ok (bdi', result) ∧
      near_bdi.decompress result.bdi_data = some near_line ∧
      result.bdi_data.getSizeBits
        ≤ (BDICompData.newUncompressed near_line near_bdi.blkSize).getSizeBits :=
  compress_lossless (by decide) (by decide) (by decide)

example : (near_bdi.tryCompress 8 1 near_line .base8_1).map
    (fun d => (d.getSizeBits, near_bdi.decompress d)) = some (104, some near_line) := by decide +kernel

end BDI

end Gem5.Cache
