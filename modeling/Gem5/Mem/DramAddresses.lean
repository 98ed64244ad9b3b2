import Gem5.Base.AddrRangeMap
import Gem5.Base.Stripes
import Gem5.Lib.Digits
import Mathlib.Data.Nat.Prime.Basic
import Mathlib.Data.Set.Card
import Mathlib.Tactic.Positivity
import Mathlib.Tactic.Ring
import Mathlib.Tactic.Tauto

/-!
# From addresses to banks and rows

The controller cuts the number of a burst into the column, the bank, the rank and the row, in the
order of its mapping. The channel is divided out first, which takes the bits of the interleaving
away.
-/

namespace Gem5.Mem.DramAddresses

open Gem5.Base Gem5.Base.AddrRange Option BitVec

inductive AddrMap where
  | RoRaBaChCo
  | RoRaBaCoCh
  | RoCoRaBaCh
  deriving DecidableEq

/-- `overshift` is what a shift by the full width gives. -/
structure Params where
  burstSize : BitVec 32
  rowBufferSize : BitVec 32
  ranksPerChannel : BitVec 32
  banksPerRank : BitVec 32
  channels : BitVec 32
  addrMapping : AddrMap
  cacheLineSize : BitVec 32
  range : AddrRange
  overshift : Addr

structure DRAMPacket where
  rank : BitVec 8
  bank : BitVec 8
  row : BitVec 32
  bankId : BitVec 16
  addr : Addr
  deriving DecidableEq

/-- `Bank::NO_ROW` -/
def NO_ROW : BitVec 32 := -1

/-- A division fails by zero. -/
def quot (a : Addr) (b : BitVec 32) : Option Addr :=
  if b = 0 then none else some (a / b.setWidth 64)

def rem (a : Addr) (b : BitVec 32) : Option Addr :=
  if b = 0 then none else some (a % b.setWidth 64)

def ceilLog2 (n : Nat) : Nat := if n = 1 then 0 else Nat.log2 (n - 1) + 1

namespace Params

variable (p : Params)

def columnsPerRowBuffer : BitVec 32 := p.rowBufferSize / p.burstSize

def columnsPerStripe : BitVec 32 :=
  if p.range.interleaved then
    (p.range.granularity p.overshift / p.burstSize.setWidth 64).setWidth 32
  else 1

def capacity : BitVec 64 := 1 <<< ceilLog2 p.range.size.toNat

def rowsPerBank : BitVec 32 :=
  (p.capacity / (p.rowBufferSize * p.banksPerRank * p.ranksPerChannel).setWidth 64).setWidth 32

def stripes : BitVec 32 := ((1 : BitVec 64) <<< p.range.masks.length).setWidth 32

/-- The checks of `init`. -/
def Init : Prop :=
  p.range.interleaved = true →
    p.channels = p.stripes ∧
      match p.addrMapping with
      | .RoRaBaChCo => p.rowBufferSize.setWidth 64 = p.range.granularity p.overshift
      | .RoRaBaCoCh | .RoCoRaBaCh =>
        1 ≤ p.columnsPerStripe ∧
          p.cacheLineSize.setWidth 64 ≤ p.range.granularity p.overshift ∧
          p.range.granularity p.overshift ≤ p.rowBufferSize.setWidth 64 ∧
          p.columnsPerStripe ≤ p.columnsPerRowBuffer

/-- The bank, the rank and the row of an address, as words of 64 bits. -/
def slice (dramPktAddr : Addr) : Option (Addr × Addr × Addr) := do
  let addr ← quot dramPktAddr p.burstSize
  match p.addrMapping with
  | .RoRaBaChCo =>
    let addr ← quot addr p.columnsPerRowBuffer
    let addr ← quot addr p.channels
    let bank ← rem addr p.banksPerRank
    let addr ← quot addr p.banksPerRank
    let rank ← rem addr p.ranksPerChannel
    let addr ← quot addr p.ranksPerChannel
    let row ← rem addr p.rowsPerBank
    return (bank, rank, row)
  | .RoRaBaCoCh =>
    let addr ← quot addr p.columnsPerStripe
    let addr ← quot addr p.channels
    let addr ← quot addr (p.columnsPerRowBuffer / p.columnsPerStripe)
    let bank ← rem addr p.banksPerRank
    let addr ← quot addr p.banksPerRank
    let rank ← rem addr p.ranksPerChannel
    let addr ← quot addr p.ranksPerChannel
    let row ← rem addr p.rowsPerBank
    return (bank, rank, row)
  | .RoCoRaBaCh =>
    let addr ← quot addr p.columnsPerStripe
    let addr ← quot addr p.channels
    let bank ← rem addr p.banksPerRank
    let addr ← quot addr p.banksPerRank
    let rank ← rem addr p.ranksPerChannel
    let addr ← quot addr p.ranksPerChannel
    let addr ← quot addr (p.columnsPerRowBuffer / p.columnsPerStripe)
    let row ← rem addr p.rowsPerBank
    return (bank, rank, row)

/-- Rank and bank are kept in a byte. Fails where an assert or a division does. -/
def decodeAddr (dramPktAddr : Addr) : Option DRAMPacket := do
  let (bank, rank, row) ← p.slice dramPktAddr
  let bank : BitVec 8 := bank.setWidth 8
  let rank : BitVec 8 := rank.setWidth 8
  if rank.setWidth 32 < p.ranksPerChannel ∧ bank.setWidth 32 < p.banksPerRank ∧
      row < p.rowsPerBank.setWidth 64 ∧ row < NO_ROW.setWidth 64 then
    return {
      rank := rank
      bank := bank
      row := row.setWidth 32
      bankId := (p.banksPerRank * rank.setWidth 32 + bank.setWidth 32).setWidth 16
      addr := dramPktAddr }
  else none

end Params

theorem quot_eq {b : BitVec 32} (some_ : 0 < b.toNat) (a : Addr) :
    quot a b = some (a / b.setWidth 64) := by
  refine if_neg fun zero => ?_
  rw [zero] at some_
  exact absurd some_ (by decide)

theorem rem_eq {b : BitVec 32} (some_ : 0 < b.toNat) (a : Addr) :
    rem a b = some (a % b.setWidth 64) := by
  refine if_neg fun zero => ?_
  rw [zero] at some_
  exact absurd some_ (by decide)

theorem toNat_quot (a : Addr) (b : BitVec 32) : (a / b.setWidth 64).toNat = a.toNat / b.toNat := by
  rw [toNat_udiv, toNat_setWidth_of_le (by decide)]

theorem toNat_rem (a : Addr) (b : BitVec 32) : (a % b.setWidth 64).toNat = a.toNat % b.toNat := by
  rw [toNat_umod, toNat_setWidth_of_le (by decide)]

/-- What an address is divided by, and the place `top` of the range among those of its length.
The stripes have consecutive bits, or there is only one. -/
structure Numbers (p : Params) where
  burst : Nat
  columns : Nat
  groups : Nat
  banks : Nat
  ranks : Nat
  rows : Nat
  channels : Nat
  top : Nat
  burstSize : p.burstSize.toNat = burst
  columnsPerStripe : p.columnsPerStripe.toNat = columns
  columnsPerRowBuffer : p.columnsPerRowBuffer.toNat = columns * groups
  banksPerRank : p.banksPerRank.toNat = banks
  ranksPerChannel : p.ranksPerChannel.toNat = ranks
  rowsPerBank : p.rowsPerBank.toNat = rows
  channels_eq : p.channels.toNat = channels
  positive : 0 < burst ∧ 0 < columns ∧ 0 < groups ∧ 0 < banks ∧ 0 < ranks ∧ 0 < rows ∧ 0 < channels
  narrow : banks ≤ 256 ∧ ranks ≤ 256 ∧ rows ≤ 2 ^ 31
  fits : (top + 1) * (burst * columns * channels * (groups * banks * ranks * rows)) ≤ 2 ^ 64
  contains : ∀ a, p.range.contains a = true ↔
    a.toNat / (burst * columns * channels) / (groups * banks * ranks * rows) = top ∧
      (select a 0 p.range.masks 0).toNat = p.range.intlvMatch.toNat
  stripes : (p.range.masks = [] ∧ p.range.intlvMatch = 0 ∧ columns = 1 ∧ channels = 1) ∨
    ∃ b, burst * columns = 2 ^ b ∧ channels = 2 ^ p.range.masks.length ∧
      Consecutive p.range.masks b p.range.masks.length ∧ b + p.range.masks.length ≤ 64 ∧
      p.range.masks.length ≤ 32 ∧ p.range.intlvMatch.toNat < 2 ^ p.range.masks.length

/-- Column, bank, rank and row in the order of the mapping, the lowest first. -/
def arrange (addrMapping : AddrMap) (column bank rank row : Nat) : List Nat :=
  match addrMapping with
  | .RoRaBaChCo | .RoRaBaCoCh => [column, bank, rank, row]
  | .RoCoRaBaCh => [bank, rank, column, row]

theorem arrange_inj {m : AddrMap} {c b r w c' b' r' w' : Nat}
    (same : arrange m c b r w = arrange m c' b' r' w') : c = c' ∧ b = b' ∧ r = r' ∧ w = w' := by
  cases m <;> simp [arrange] at same <;> tauto

theorem arrange_prod (m : AddrMap) (c b r w : Nat) : (arrange m c b r w).prod = c * b * r * w := by
  cases m <;> simp [arrange] <;> ring

theorem arrange_fit {m : AddrMap} {c b r w c' b' r' w' : Nat} :
    Digits.Fit (arrange m c b r w) (arrange m c' b' r' w') ↔ c < c' ∧ b < b' ∧ r < r' ∧ w < w' := by
  cases m with
  | RoRaBaChCo | RoRaBaCoCh => simp [Digits.Fit, arrange]
  | RoCoRaBaCh =>
    simp only [Digits.Fit, arrange, List.forall₂_cons]
    tauto

namespace Numbers

variable {p : Params} (num : Numbers p)

/-- The bursts of a stripe have one number. -/
def unit (a : Addr) : Nat := a.toNat / (num.burst * num.columns * num.channels)

def bases : List Nat := arrange p.addrMapping num.groups num.banks num.ranks num.rows

/-- The place of the stripe in its row. -/
def group (a : Addr) : Nat :=
  match p.addrMapping with
  | .RoRaBaChCo | .RoRaBaCoCh => num.unit a % num.groups
  | .RoCoRaBaCh => num.unit a / num.banks / num.ranks % num.groups

/-- The place of a burst in its row. -/
def column (a : Addr) : Nat :=
  num.group a * num.columns + a.toNat / num.burst % num.columns

theorem slice_eq (a : Addr) : ∃ bank rank row, p.slice a = some (bank, rank, row) ∧
    Digits.digits num.bases (num.unit a)
      = arrange p.addrMapping (num.group a) bank.toNat rank.toNat row.toNat := by
  obtain ⟨burst, columns, groups, banks, ranks, rows, channels⟩ := num.positive
  have all : 0 < num.columns * num.groups := Nat.mul_pos columns groups
  have burstSize := num.burstSize
  have columnsPerStripe := num.columnsPerStripe
  have columnsPerRowBuffer := num.columnsPerRowBuffer
  have banksPerRank := num.banksPerRank
  have ranksPerChannel := num.ranksPerChannel
  have rowsPerBank := num.rowsPerBank
  have channels_eq := num.channels_eq
  have ratio : (p.columnsPerRowBuffer / p.columnsPerStripe).toNat = num.groups := by
    rw [toNat_udiv, columnsPerRowBuffer, columnsPerStripe, Nat.mul_div_cancel_left _ columns]
  rw [← burstSize] at burst
  rw [← columnsPerStripe] at columns
  rw [← columnsPerRowBuffer] at all
  rw [← banksPerRank] at banks
  rw [← ranksPerChannel] at ranks
  rw [← rowsPerBank] at rows
  rw [← channels_eq] at channels
  rw [← ratio] at groups
  have one : a.toNat / num.burst / num.columns / num.channels = num.unit a := by
    rw [unit, Nat.div_div_eq_div_mul, Nat.div_div_eq_div_mul, Nat.mul_assoc]
  have row : a.toNat / num.burst / (num.columns * num.groups) / num.channels
      = num.unit a / num.groups := by
    rw [← one, Nat.div_div_eq_div_mul _ num.channels num.groups, Nat.mul_comm num.channels,
      ← Nat.div_div_eq_div_mul _ num.columns, Nat.div_div_eq_div_mul _ num.groups]
  rw [Params.slice, bases, group]
  cases mapping : p.addrMapping with
  | RoRaBaChCo =>
    simp only [quot_eq, rem_eq, burst, all, channels, banks, ranks, rows]
    refine ⟨_, _, _, rfl, ?_⟩
    simp only [arrange, Digits.digits, toNat_rem, toNat_quot, burstSize, columnsPerRowBuffer,
      channels_eq, banksPerRank, ranksPerChannel, rowsPerBank, row]
  | RoRaBaCoCh | RoCoRaBaCh =>
    simp only [quot_eq, rem_eq, burst, columns, channels, groups, banks, ranks, rows]
    refine ⟨_, _, _, rfl, ?_⟩
    simp only [arrange, Digits.digits, toNat_rem, toNat_quot, burstSize, columnsPerStripe, ratio,
      channels_eq, banksPerRank, ranksPerChannel, rowsPerBank, one]

theorem fit (a : Addr) : Digits.Fit (Digits.digits num.bases (num.unit a)) num.bases := by
  obtain ⟨-, -, groups, banks, ranks, rows, -⟩ := num.positive
  refine Digits.fit_digits (fun m mem => ?_) _
  rw [bases] at mem
  cases mapping : p.addrMapping <;> rw [mapping] at mem <;>
    simp only [arrange, List.mem_cons, List.not_mem_nil, or_false] at mem <;>
    rcases mem with rfl | rfl | rfl | rfl <;> assumption

theorem decodeAddr_eq (a : Addr) : ∃ pkt, p.decodeAddr a = some pkt ∧
    Digits.digits num.bases (num.unit a)
      = arrange p.addrMapping (num.group a) pkt.bank.toNat pkt.rank.toNat pkt.row.toNat := by
  obtain ⟨bank, rank, row, sliced, digits⟩ := num.slice_eq a
  have fit := num.fit a
  rw [digits, bases, arrange_fit] at fit
  obtain ⟨-, bankFits, rankFits, rowFits⟩ := fit
  obtain ⟨banks, ranks, rows⟩ := num.narrow
  have bank8 : (bank.setWidth 8).toNat = bank.toNat := by
    rw [toNat_setWidth, Nat.mod_eq_of_lt (by omega)]
  have rank8 : (rank.setWidth 8).toNat = rank.toNat := by
    rw [toNat_setWidth, Nat.mod_eq_of_lt (by omega)]
  have row32 : (row.setWidth 32).toNat = row.toNat := by
    rw [toNat_setWidth, Nat.mod_eq_of_lt (by omega)]
  have asserts : (rank.setWidth 8).setWidth 32 < p.ranksPerChannel ∧
      (bank.setWidth 8).setWidth 32 < p.banksPerRank ∧
      row < p.rowsPerBank.setWidth 64 ∧ row < NO_ROW.setWidth 64 := by
    refine ⟨?_, ?_, ?_, ?_⟩
    · rwa [lt_def, toNat_setWidth_of_le (by decide), rank8, num.ranksPerChannel]
    · rwa [lt_def, toNat_setWidth_of_le (by decide), bank8, num.banksPerRank]
    · rwa [lt_def, toNat_setWidth_of_le (by decide), num.rowsPerBank]
    · rw [lt_def]
      refine Nat.lt_of_lt_of_le rowFits (Nat.le_trans rows ?_)
      decide
  simp only [Params.decodeAddr, sliced, bind_eq_bind, bind_some, if_pos asserts]
  rw [digits]
  simp [bank8, rank8, row32]

theorem eq_of_unit {a e : Addr} (aligned : num.burst ∣ a.toNat) (aligned' : num.burst ∣ e.toNat)
    (place : a.toNat / num.burst % num.columns = e.toNat / num.burst % num.columns)
    (same : num.unit a = num.unit e)
    (selects : select a 0 p.range.masks 0 = select e 0 p.range.masks 0) : a = e := by
  have low : a.toNat % (num.burst * num.columns) = e.toNat % (num.burst * num.columns) := by
    rw [Nat.mod_mul, Nat.mod_mul, place, Nat.mod_eq_zero_of_dvd aligned,
      Nat.mod_eq_zero_of_dvd aligned']
  rcases num.stripes with ⟨-, -, columns, channels⟩ | ⟨b, pow, channels, lsbs, fits, short, -⟩
  · rw [unit, unit, channels, Nat.mul_one] at same
    apply eq_of_toNat_eq
    rw [← Nat.div_add_mod a.toNat (num.burst * num.columns), same, low, Nat.div_add_mod]
  · rw [pow] at low
    rw [unit, unit, pow, channels, ← Nat.pow_add] at same
    exact lsbs.eq_of_select fits short low same selects

theorem exists_unit {u j : Nat} (inside : j < num.columns)
    (fits : u * (num.burst * num.columns * num.channels) < 2 ^ 64) :
    ∃ a : Addr, num.burst ∣ a.toNat ∧ a.toNat / num.burst % num.columns = j ∧ num.unit a = u ∧
      (select a 0 p.range.masks 0).toNat = p.range.intlvMatch.toNat := by
  obtain ⟨burst, columns, -, -, -, -, channels⟩ := num.positive
  rcases num.stripes with ⟨masks, intlvMatch, one, one'⟩ |
    ⟨b, pow, channels', lsbs, fits', short, matched⟩
  · have zero : j = 0 := by omega
    rw [one, one', Nat.mul_one, Nat.mul_one] at fits
    have toNat : (BitVec.ofNat 64 (u * num.burst)).toNat = u * num.burst := by
      rw [toNat_ofNat, Nat.mod_eq_of_lt fits]
    refine ⟨BitVec.ofNat 64 (u * num.burst), ?_, ?_, ?_, ?_⟩
    · rw [toNat]
      exact Nat.dvd_mul_left _ _
    · rw [one, zero, Nat.mod_one]
    · rw [unit, toNat, one, one', Nat.mul_one, Nat.mul_one, Nat.mul_div_cancel _ burst]
    · rw [masks, intlvMatch]
      rfl
  · have low : num.burst * j < 2 ^ b := by
      rw [← pow]
      exact Nat.mul_lt_mul_of_pos_left inside burst
    have high : u < 2 ^ (64 - (b + p.range.masks.length)) := by
      rw [pow, channels', ← Nat.pow_add] at fits
      rw [← Nat.mul_lt_mul_right (Nat.two_pow_pos (b + p.range.masks.length)), ← Nat.pow_add,
        Nat.sub_add_cancel fits']
      exact fits
    obtain ⟨a, low', high', selects⟩ := lsbs.exists_select fits' rfl short low high matched
    rw [← pow, Nat.mod_mul] at low'
    have aligned : a.toNat % num.burst = 0 := by
      have rest := congrArg (· % num.burst) low'
      simpa using rest
    rw [aligned, Nat.zero_add] at low'
    refine ⟨a, Nat.dvd_of_mod_eq_zero aligned, Nat.eq_of_mul_eq_mul_left burst low', ?_, selects⟩
    rw [unit, pow, channels', ← Nat.pow_add]
    exact high'

end Numbers

/-- The bursts of the controller that are decoded to a row of a bank. -/
def rowBuffer (p : Params) (rank bank row : Nat) : Set Addr :=
  {a | p.range.contains a = true ∧ p.burstSize.toNat ∣ a.toNat ∧
    ∃ pkt, p.decodeAddr a = some pkt ∧ pkt.rank.toNat = rank ∧ pkt.bank.toNat = bank ∧
      pkt.row.toNat = row}

namespace Numbers

variable {p : Params} (num : Numbers p) {rank bank row : Nat}

theorem bases_prod : num.bases.prod = num.groups * num.banks * num.ranks * num.rows :=
  arrange_prod _ _ _ _ _

theorem mem_rowBuffer {a : Addr} : a ∈ rowBuffer p rank bank row ↔
    num.burst ∣ a.toNat ∧ num.unit a / num.bases.prod = num.top ∧
      (select a 0 p.range.masks 0).toNat = p.range.intlvMatch.toNat ∧
      Digits.digits num.bases (num.unit a)
        = arrange p.addrMapping (num.group a) bank rank row := by
  obtain ⟨pkt, decoded, digits⟩ := num.decodeAddr_eq a
  rw [rowBuffer, Set.mem_ofPred_eq, num.contains, num.burstSize, bases_prod, digits]
  constructor
  · aesop
  · rintro ⟨aligned, top, selects, same⟩
    obtain ⟨-, rfl, rfl, rfl⟩ := arrange_inj same
    exact ⟨⟨top, selects⟩, aligned, pkt, decoded, rfl, rfl, rfl⟩

theorem column_bijOn (rankFits : rank < num.ranks) (bankFits : bank < num.banks)
    (rowFits : row < num.rows) :
    Set.BijOn num.column (rowBuffer p rank bank row) (Set.Iio (num.columns * num.groups)) := by
  obtain ⟨burst, columns, groups, banks, ranks, rows, channels⟩ := num.positive
  have places : ∀ a : Addr, a.toNat / num.burst % num.columns < num.columns :=
    fun a => Nat.mod_lt _ columns
  refine ⟨fun a mem => ?_, fun a mem e mem' same => ?_, fun v inside => ?_⟩
  · obtain ⟨-, -, -, digits⟩ := num.mem_rowBuffer.mp mem
    have fit := num.fit a
    rw [digits, bases, arrange_fit] at fit
    have place := places a
    have group : (num.group a + 1) * num.columns ≤ num.groups * num.columns :=
      Nat.mul_le_mul_right _ fit.1
    rw [Set.mem_Iio, column, Nat.mul_comm num.columns]
    rw [Nat.add_mul] at group
    omega
  · obtain ⟨aligned, top, selects, digits⟩ := num.mem_rowBuffer.mp mem
    obtain ⟨aligned', top', selects', digits'⟩ := num.mem_rowBuffer.mp mem'
    have place : a.toNat / num.burst % num.columns = e.toNat / num.burst % num.columns := by
      have low := congrArg (· % num.columns) same
      simpa [column] using low
    have group : num.group a = num.group e := by
      have high := congrArg (· / num.columns) same
      simp only [column, Nat.mul_comm _ num.columns, Nat.mul_add_div columns,
        Nat.div_eq_of_lt (places _)] at high
      exact high
    refine num.eq_of_unit aligned aligned' place ?_ (eq_of_toNat_eq (selects.trans selects'.symm))
    refine Digits.eq_of_digits_eq ?_ (top.trans top'.symm)
    rw [digits, digits', group]
  · have fit : Digits.Fit (arrange p.addrMapping (v / num.columns) bank rank row) num.bases := by
      refine arrange_fit.mpr ⟨?_, bankFits, rankFits, rowFits⟩
      exact Nat.div_lt_of_lt_mul inside
    let u := Digits.value num.bases (arrange p.addrMapping (v / num.columns) bank rank row) num.top
    have top : u / num.bases.prod = num.top := Digits.value_div fit num.top
    have whole : 0 < num.bases.prod := by
      rw [bases_prod]
      positivity
    have below : u < (num.top + 1) * num.bases.prod := by
      rw [← top, Nat.add_mul, Nat.one_mul]
      exact Nat.lt_div_mul_add whole
    have fits : u * (num.burst * num.columns * num.channels) < 2 ^ 64 := by
      refine Nat.lt_of_lt_of_le (Nat.mul_lt_mul_of_pos_right below (by positivity)) ?_
      rw [bases_prod, Nat.mul_assoc, Nat.mul_comm (num.groups * num.banks * num.ranks * num.rows)]
      exact num.fits
    obtain ⟨a, aligned, place, unit, selects⟩ := num.exists_unit (Nat.mod_lt v columns) fits
    obtain ⟨pkt, -, digits⟩ := num.decodeAddr_eq a
    have digits' := Digits.digits_value fit num.top
    change Digits.digits num.bases u = _ at digits'
    rw [← unit, digits] at digits'
    obtain ⟨group, rfl, rfl, rfl⟩ := arrange_inj digits'
    refine ⟨a, num.mem_rowBuffer.mpr ⟨aligned, unit ▸ top, selects, digits⟩, ?_⟩
    rw [column, group, place, Nat.mul_comm, Nat.div_add_mod]

theorem ncard_rowBuffer (rankFits : rank < num.ranks) (bankFits : bank < num.banks)
    (rowFits : row < num.rows) :
    (rowBuffer p rank bank row).ncard = p.columnsPerRowBuffer.toNat := by
  have numbered := num.column_bijOn rankFits bankFits rowFits
  rw [← numbered.injOn.ncard_image, numbered.image_eq, num.columnsPerRowBuffer,
    ← Finset.coe_range, Set.ncard_coe_finset, Finset.card_range]

end Numbers

/-- The sizes are powers of two and make up the size of the range, which starts at a multiple of
its length. It is not interleaved, or the lowest bits of its masks are consecutive. -/
structure Geometry (p : Params) : Prop where
  burstSize : ∃ k, p.burstSize.toNat = 2 ^ k
  rowBufferSize : ∃ k, p.rowBufferSize.toNat = 2 ^ k
  banksPerRank : ∃ k, p.banksPerRank.toNat = 2 ^ k
  banks_le : p.banksPerRank.toNat ≤ 256
  ranksPerChannel : ∃ k, p.ranksPerChannel.toNat = 2 ^ k
  size : ∃ k, p.range.size.toNat = 2 ^ k
  capacity : p.range.size.toNat = p.rowsPerBank.toNat * p.rowBufferSize.toNat
    * p.banksPerRank.toNat * p.ranksPerChannel.toNat
  start : (p.range.stop - p.range.start + 1).toNat ∣ p.range.start.toNat
  intlvMatch : p.range.intlvMatch.toNat < 2 ^ p.range.masks.length
  plain : p.range.interleaved = false → p.channels = 1
  interleaved : p.range.interleaved = true → p.channels.toNat = 2 ^ p.range.masks.length ∧
    ∃ b, (p.range.granularity p.overshift).toNat = 2 ^ b ∧
      (p.range.masks.map ctz64).Perm (List.range' b p.range.masks.length)
  init : p.Init

/-- A rank fits a byte, and the stripes share the length of the range out. -/
structure Even (p : Params) : Prop where
  ranks_le : p.ranksPerChannel.toNat ≤ 256
  length : 2 ^ p.range.masks.length ∣ (p.range.stop - p.range.start + 1).toNat

variable {p : Params}

theorem pow_div_pow {i j : Nat} (le : j ≤ i) : 2 ^ i / 2 ^ j = 2 ^ (i - j) :=
  Nat.pow_div le (by decide)

theorem exponent_lt {w k : Nat} {x : BitVec w} (power : x.toNat = 2 ^ k) : k < w := by
  have below := x.isLt
  rw [power] at below
  exact (Nat.pow_lt_pow_iff_right (by decide)).mp below

theorem Params.columnsPerStripe_interleaved (inter : p.range.interleaved = true) {b u : Nat}
    (granularity : (p.range.granularity p.overshift).toNat = 2 ^ b)
    (burst : p.burstSize.toNat = 2 ^ u) : p.columnsPerStripe.toNat = 2 ^ b / 2 ^ u % 2 ^ 32 := by
  rw [Params.columnsPerStripe, if_pos inter, toNat_setWidth, toNat_udiv,
    granularity, toNat_setWidth_of_le (by decide), burst]

theorem Params.Init.between (init : p.Init) (inter : p.range.interleaved = true) {b u r : Nat}
    (granularity : (p.range.granularity p.overshift).toNat = 2 ^ b)
    (burst : p.burstSize.toNat = 2 ^ u) (rowBuffer : p.rowBufferSize.toNat = 2 ^ r)
    (u_le : u ≤ r) : u ≤ b ∧ b ≤ r := by
  obtain ⟨-, checks⟩ := init inter
  cases mapping : p.addrMapping with
  | RoRaBaChCo =>
    rw [mapping] at checks
    have same := congrArg BitVec.toNat checks
    rw [granularity, toNat_setWidth_of_le (by decide), rowBuffer] at same
    have : r = b := Nat.pow_right_injective (Nat.le_refl 2) same
    omega
  | RoRaBaCoCh | RoCoRaBaCh =>
    rw [mapping] at checks
    obtain ⟨one, -, le, -⟩ := checks
    rw [le_def, granularity, toNat_setWidth_of_le (by decide), rowBuffer] at le
    refine ⟨?_, (Nat.pow_le_pow_iff_right (by decide)).mp le⟩
    by_contra less
    rw [le_def, columnsPerStripe_interleaved inter granularity burst, Nat.div_eq_of_lt
      (Nat.pow_lt_pow_right (by decide) (Nat.lt_of_not_le less))] at one
    exact absurd one (by decide)

theorem Geometry.columns (geometry : Geometry p)
    (enough : p.burstSize.toNat ≤ p.rowBufferSize.toNat) :
    ∃ columns groups, p.columnsPerStripe.toNat = columns ∧
      p.columnsPerRowBuffer.toNat = columns * groups ∧ 0 < columns ∧ 0 < groups ∧
      p.burstSize.toNat * columns * groups = p.rowBufferSize.toNat ∧
      ((p.range.masks = [] ∧ p.range.intlvMatch = 0 ∧ columns = 1 ∧ p.channels.toNat = 1) ∨
        ∃ b, p.burstSize.toNat * columns = 2 ^ b ∧
          p.channels.toNat = 2 ^ p.range.masks.length ∧
          Consecutive p.range.masks b p.range.masks.length ∧ b + p.range.masks.length ≤ 64 ∧
          p.range.masks.length ≤ 32 ∧ p.range.intlvMatch.toNat < 2 ^ p.range.masks.length) := by
  obtain ⟨u, burst⟩ := geometry.burstSize
  obtain ⟨r, rowBuffer⟩ := geometry.rowBufferSize
  have r32 : r < 32 := exponent_lt rowBuffer
  rw [burst, rowBuffer] at enough
  have u_le : u ≤ r := (Nat.pow_le_pow_iff_right (by decide)).mp enough
  have row : p.columnsPerRowBuffer.toNat = 2 ^ (r - u) := by
    rw [Params.columnsPerRowBuffer, toNat_udiv, burst, rowBuffer, pow_div_pow u_le]
  rw [row]
  by_cases inter : p.range.interleaved = true
  · obtain ⟨channels, b, granularity, lsbs⟩ := geometry.interleaved inter
    obtain ⟨ub, br⟩ := geometry.init.between inter granularity burst rowBuffer u_le
    have small : 2 ^ (b - u) < 2 ^ 32 := Nat.pow_lt_pow_right (by decide) (by omega)
    have n32 : p.range.masks.length < 32 := exponent_lt channels
    rw [Params.columnsPerStripe_interleaved inter granularity burst, burst, rowBuffer]
    refine ⟨2 ^ (b - u), 2 ^ (r - b), ?_, ?_, Nat.two_pow_pos _, Nat.two_pow_pos _, ?_, .inr
      ⟨b, ?_, channels, fun l from_ below => ?_, by omega, Nat.le_of_lt n32, geometry.intlvMatch⟩⟩
    · rw [pow_div_pow ub, Nat.mod_eq_of_lt small]
    · rw [← Nat.pow_add]
      congr 1
      omega
    · rw [← Nat.pow_add, ← Nat.pow_add]
      congr 1
      omega
    · rw [← Nat.pow_add]
      congr 1
      omega
    · have mem : l ∈ p.range.masks.map ctz64 :=
        lsbs.mem_iff.mpr (List.mem_range'_1.mpr ⟨from_, below⟩)
      exact List.mem_map.mp mem
  · have plain : p.range.interleaved = false := Bool.eq_false_iff.mpr inter
    have masks : p.range.masks = [] := by simpa [AddrRange.interleaved] using plain
    have intlvMatch := geometry.intlvMatch
    rw [masks] at intlvMatch
    rw [burst, rowBuffer]
    refine ⟨1, 2 ^ (r - u), ?_, (Nat.one_mul _).symm, Nat.one_pos, Nat.two_pow_pos _, ?_,
      .inl ⟨masks, eq_of_toNat_eq (Nat.lt_one_iff.mp intlvMatch), rfl, ?_⟩⟩
    · rw [Params.columnsPerStripe, if_neg inter]
      rfl
    · rw [Nat.mul_one, ← Nat.pow_add]
      congr 1
      omega
    · rw [geometry.plain plain]
      rfl

theorem Even.share (even : Even p) : p.range.size.toNat * 2 ^ p.range.masks.length
    = (p.range.stop - p.range.start + 1).toNat := by
  rw [AddrRange.size, toNat_ushiftRight, Nat.shiftRight_eq_div_pow,
    Nat.div_mul_cancel even.length]

theorem Geometry.rows (geometry : Geometry p) :
    0 < p.rowsPerBank.toNat ∧ p.rowsPerBank.toNat ≤ 2 ^ 31 := by
  obtain ⟨s, size⟩ := geometry.size
  have divides : p.rowsPerBank.toNat ∣ 2 ^ s := by
    rw [← size, geometry.capacity, Nat.mul_assoc, Nat.mul_assoc]
    exact Nat.dvd_mul_right _ _
  obtain ⟨w, -, pow⟩ := (Nat.dvd_prime_pow Nat.prime_two).mp divides
  have below : w < 32 := exponent_lt pow
  rw [pow]
  exact ⟨Nat.two_pow_pos w, Nat.pow_le_pow_right (by decide) (by omega)⟩

theorem Geometry.numbers (geometry : Geometry p)
    (enough : p.burstSize.toNat ≤ p.rowBufferSize.toNat) (even : Even p) : Nonempty (Numbers p) := by
  obtain ⟨columns, groups, perStripe, perRow, columnsPos, groupsPos, row, stripes⟩ :=
    geometry.columns enough
  obtain ⟨s, size⟩ := geometry.size
  obtain ⟨top, start⟩ := geometry.start
  have pow_pos {x : Nat} (power : ∃ k, x = 2 ^ k) : 0 < x := by grind
  have burst := pow_pos geometry.burstSize
  have banks := pow_pos geometry.banksPerRank
  have ranks := pow_pos geometry.ranksPerChannel
  obtain ⟨rows, rows_le⟩ := geometry.rows
  have channels : p.channels.toNat = 2 ^ p.range.masks.length := by grind
  -- The length of the range is the product of all that the address is divided by.
  have length : (p.range.stop - p.range.start + 1).toNat
      = p.burstSize.toNat * columns * p.channels.toNat
        * (groups * p.banksPerRank.toNat * p.ranksPerChannel.toNat * p.rowsPerBank.toNat) := by
    rw [← even.share, ← channels, geometry.capacity, ← row]
    ring
  have some_ : 0 < p.burstSize.toNat * columns * p.channels.toNat
      * (groups * p.banksPerRank.toNat * p.ranksPerChannel.toNat * p.rowsPerBank.toNat) := by
    have : 0 < p.channels.toNat := channels ▸ Nat.two_pow_pos _
    positivity
  have whole : (p.range.stop - p.range.start + 1).toNat ∣ 2 ^ 64 := by
    have power : (p.range.stop - p.range.start + 1).toNat = 2 ^ (s + p.range.masks.length) := by
      rw [← even.share, size, Nat.pow_add]
    rw [power]
    exact Nat.pow_dvd_pow 2 (Nat.le_of_lt (exponent_lt power))
  rw [length] at start whole
  obtain ⟨fits, contains⟩ := contains_iff_div length some_ whole (start.trans (Nat.mul_comm _ _))
  exact ⟨{
    burst := p.burstSize.toNat
    columns := columns
    groups := groups
    banks := p.banksPerRank.toNat
    ranks := p.ranksPerChannel.toNat
    rows := p.rowsPerBank.toNat
    channels := p.channels.toNat
    top := top
    burstSize := rfl
    columnsPerStripe := perStripe
    columnsPerRowBuffer := perRow
    banksPerRank := rfl
    ranksPerChannel := rfl
    rowsPerBank := rfl
    channels_eq := rfl
    positive := ⟨burst, columnsPos, groupsPos, banks, ranks, rows, channels ▸ Nat.two_pow_pos _⟩
    narrow := ⟨geometry.banks_le, even.ranks_le, rows_le⟩
    fits := fits
    contains := fun a => by rw [contains, Nat.div_div_eq_div_mul]
    stripes := stripes }⟩

theorem slice_none (few : p.rowBufferSize.toNat < p.burstSize.toNat) (a : Addr) :
    p.slice a = none := by
  have columns : p.columnsPerRowBuffer = 0#32 := by
    apply eq_of_toNat_eq
    rw [Params.columnsPerRowBuffer, toNat_udiv, Nat.div_eq_of_lt few]
    rfl
  have groups : 0#32 / p.columnsPerStripe = 0#32 := zero_udiv
  have fails (a : Addr) : quot a 0#32 = none := if_pos rfl
  rw [Params.slice, columns, groups]
  cases p.addrMapping <;> simp [fails]

/-- In an even geometry every row of a bank is decoded from as many bursts of the range as it has
columns, and a geometry whose rows hold a burst decodes every address. -/
theorem decodeAddr_bijective (geometry : Geometry p) (even : Even p) :
    (∀ rank bank row, rank < p.ranksPerChannel.toNat → bank < p.banksPerRank.toNat →
      row < p.rowsPerBank.toNat →
        (rowBuffer p rank bank row).ncard = p.columnsPerRowBuffer.toNat) ∧
    (p.burstSize.toNat ≤ p.rowBufferSize.toNat → ∀ a, (p.decodeAddr a).isSome) := by
  constructor
  · intro rank bank row rankFits bankFits rowFits
    by_cases enough : p.burstSize.toNat ≤ p.rowBufferSize.toNat
    · obtain ⟨num⟩ := geometry.numbers enough even
      rw [num.ranksPerChannel] at rankFits
      rw [num.banksPerRank] at bankFits
      rw [num.rowsPerBank] at rowFits
      exact num.ncard_rowBuffer rankFits bankFits rowFits
    · have few := Nat.lt_of_not_le enough
      have empty : rowBuffer p rank bank row = ∅ := by
        refine Set.eq_empty_of_forall_notMem fun a mem => ?_
        obtain ⟨-, -, pkt, decoded, -⟩ := mem
        rw [Params.decodeAddr, slice_none few] at decoded
        cases decoded
      rw [empty, Set.ncard_empty, Params.columnsPerRowBuffer, BitVec.toNat_udiv,
        Nat.div_eq_of_lt few]
  · intro enough a
    obtain ⟨num⟩ := geometry.numbers enough even
    obtain ⟨pkt, decoded, -⟩ := num.decodeAddr_eq a
    exact Option.isSome_of_eq_some decoded

/-- The second of two channels of four bytes, with one-byte bursts and two banks of one row of
four bytes. -/
def channel : Params :=
  ⟨1, 4, 1, 2, 2, .RoRaBaCoCh, 4, ⟨16, 31, [0x4], 1⟩, 0⟩

theorem decodeAddr_bijective_channel : Geometry channel ∧ Even channel ∧
    (rowBuffer channel 0 1 0).ncard = 4 := by
  have lowest : ctz64 0x4#64 = 2 := by decide +kernel
  have granularity : (channel.range.granularity channel.overshift).toNat = 4 := by decide +kernel
  have geometry : Geometry channel := by
    refine ⟨⟨0, by decide⟩, ⟨2, by decide⟩, ⟨1, by decide⟩, by decide, ⟨0, by decide⟩,
      ⟨3, by decide⟩, by decide +kernel, by decide, by decide, fun plain => absurd plain (by decide),
      fun _ => ⟨by decide, 2, granularity, ?_⟩, fun _ => ⟨by decide, by decide +kernel,
        by decide +kernel, by decide +kernel, by decide +kernel⟩⟩
    change ([ctz64 0x4#64]).Perm [2]
    rw [lowest]
  have even : Even channel := ⟨by decide, by decide⟩
  exact ⟨geometry, even, (decodeAddr_bijective geometry even).1 0 1 0 (by decide) (by decide +kernel)
    (by decide +kernel)⟩

/-- Two channels that share three bytes, and a channel of 512 ranks. -/
def uneven : Params := ⟨1, 1, 1, 1, 2, .RoRaBaChCo, 1, ⟨0, 2, [0x1], 0⟩, 0⟩

def manyRanks : Params := ⟨1, 1, 512, 1, 1, .RoRaBaChCo, 1, ⟨0, 511, [], 0⟩, 0⟩

/-- Two bursts of the last byte's channel are decoded to one row of one column, and a rank beyond
a byte is never decoded. -/
theorem rowBuffers_alias :
    (Geometry uneven ∧
      (rowBuffer uneven 0 0 0).ncard ≠ uneven.columnsPerRowBuffer.toNat) ∧
    (Geometry manyRanks ∧ 256 < manyRanks.ranksPerChannel.toNat ∧
      (rowBuffer manyRanks 256 0 0).ncard ≠ manyRanks.columnsPerRowBuffer.toNat) := by
  have lowest : ctz64 0x1#64 = 0 := by decide +kernel
  have granule : uneven.rowBufferSize.setWidth 64
      = uneven.range.granularity uneven.overshift := by decide +kernel
  refine ⟨⟨⟨⟨0, by decide⟩, ⟨0, by decide⟩, ⟨0, by decide⟩, by decide, ⟨0, by decide⟩,
    ⟨0, by decide⟩, by decide +kernel, by decide, by decide, fun plain => absurd plain (by decide),
    fun _ => ⟨by decide, 0, by decide +kernel, ?_⟩, fun _ => ⟨by decide, granule⟩⟩,
    fun one => ?_⟩, ⟨⟨⟨0, by decide⟩, ⟨0, by decide⟩, ⟨0, by decide⟩, by decide, ⟨9, by decide⟩,
    ⟨9, by decide⟩, by decide +kernel, by decide, by decide, fun _ => rfl,
    fun inter => absurd inter (by decide), fun inter => absurd inter (by decide)⟩, by decide,
    fun one => ?_⟩⟩
  · change ([ctz64 0x1#64]).Perm [0]
    rw [lowest]
  · obtain ⟨a, only⟩ := Set.ncard_eq_one.mp one
    have first : (0 : Addr) ∈ rowBuffer uneven 0 0 0 :=
      ⟨by decide +kernel, by decide, ⟨0, 0, 0, 0, 0⟩, by decide +kernel, rfl, rfl, rfl⟩
    have last : (2 : Addr) ∈ rowBuffer uneven 0 0 0 :=
      ⟨by decide +kernel, by decide, ⟨0, 0, 0, 0, 2⟩, by decide +kernel, rfl, rfl, rfl⟩
    rw [only, Set.mem_singleton_iff] at first last
    exact absurd (first.trans last.symm) (by decide)
  · have empty : rowBuffer manyRanks 256 0 0 = ∅ := by
      refine Set.eq_empty_of_forall_notMem fun a mem => ?_
      obtain ⟨-, -, pkt, -, rank, -⟩ := mem
      have byte := pkt.rank.isLt
      omega
    rw [empty, Set.ncard_empty] at one
    exact absurd one (by decide)

end Gem5.Mem.DramAddresses
