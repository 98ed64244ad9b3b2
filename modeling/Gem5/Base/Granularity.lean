import Gem5.Base.AddrRangeSearch
import Gem5.Base.Interleaving

/-!
# Granules

The lowest bit of any mask gives the granularity: addresses that agree from that bit on have
the same parities, so a range that is no longer than a granule has at most two select values,
those of its ends. `granularity` combines the masks in an `int`, and `size` of the whole address
space is 0.
-/

namespace Gem5.Base.AddrRange

/-- `b` is the lowest bit that is set in any of the masks. -/
structure LowestBit (masks : List Addr) (b : Nat) : Prop where
  set : ∃ m ∈ masks, m.getLsbD b = true
  clear : ∀ m ∈ masks, ∀ j < b, m.getLsbD j = false

/-- The granularity of an interleaved range and the subset test against it are as documented. -/
structure SubsetRight (overshift : Addr) (s r : AddrRange) : Prop where
  granule : ∀ b, LowestBit s.masks b → (s.granularity overshift).toNat = 2 ^ b
  sound : r.isSubset overshift s = .ok true → ∀ a, r.inRange a = true → s.contains a = true
  complete : (∀ a, r.inRange a = true → s.contains a = true) →
    r.size ≤ s.granularity overshift → r.isSubset overshift s = .ok true

/-- Some mask has a bit that is kept in an `int`. -/
def NarrowMask (s : AddrRange) : Prop := ∃ m ∈ s.masks, ∃ b < 32, m.getLsbD b = true

/-- A range over all addresses that contains the first and the last one. A mask whose place is
outside of the `int` does not count. -/
structure HoldsBothEnds (s : AddrRange) : Prop where
  start : s.start = 0
  stop : s.stop = maxAddr
  first : s.intlvMatch = 0
  last : ∀ m ∈ s.masks.take 32, popCount m % 2 = 0

section Masks

variable {masks : List Addr} {b : Nat}

theorem LowestBit.lt (low : LowestBit masks b) : b < 64 := by
  obtain ⟨m, -, set⟩ := low.set
  exact BitVec.lt_of_getLsbD set

theorem LowestBit.unique {c : Nat} (low : LowestBit masks b) (low' : LowestBit masks c) :
    b = c := by
  obtain ⟨m, mem, set⟩ := low.set
  obtain ⟨m', mem', set'⟩ := low'.set
  rcases Nat.lt_trichotomy b c with lt | same | lt
  · exact absurd ((low'.clear m mem b lt).symm.trans set) Bool.false_ne_true
  · exact same
  · exact absurd ((low.clear m' mem' c lt).symm.trans set') Bool.false_ne_true

theorem exists_lowestBit (some : masks ≠ []) (nonzero : ∀ m ∈ masks, m ≠ 0) :
    ∃ b, LowestBit masks b := by
  have any : ∃ b, ∃ m ∈ masks, m.getLsbD b = true := by
    obtain ⟨m, mem⟩ := List.exists_mem_of_ne_nil masks some
    exact ⟨_, m, mem, (ctz64_spec (nonzero m mem)).2.1⟩
  classical
  refine ⟨Nat.find any, Nat.find_spec any, fun m mem j lt => ?_⟩
  exact Bool.eq_false_of_not_eq_true fun set => Nat.find_min any lt ⟨m, mem, set⟩

theorem ctz64_eq {x : Addr} (set : x.getLsbD b = true) (clear : ∀ j < b, x.getLsbD j = false) :
    ctz64 x = b := by
  have nonzero : x ≠ 0 := by
    rintro rfl
    simp at set
  obtain ⟨-, set', clear'⟩ := ctz64_spec nonzero
  rcases Nat.lt_trichotomy (ctz64 x) b with lt | same | lt
  · exact absurd ((clear _ lt).symm.trans set') Bool.false_ne_true
  · exact same
  · exact absurd ((clear' b lt).symm.trans set) Bool.false_ne_true

theorem getLsbD_combined (c : BitVec 32) {j : Nat} (fits : j < 32) :
    (masks.foldl (fun c m => c ||| m.setWidth 32) c).getLsbD j
      = (c.getLsbD j || masks.any (·.getLsbD j)) := by
  induction masks generalizing c with
  | nil => simp
  | cons m masks ih => grind

end Masks

section Parities

variable {masks : List Addr} {a e : Addr} {b i : Nat} {sel : BitVec 32}

theorem and_eq_of_shift_eq {m : Addr} (clear : ∀ j < b, m.getLsbD j = false)
    (same : a >>> b = e >>> b) : a &&& m = e &&& m := by
  refine BitVec.eq_of_getLsbD_eq fun j _ => ?_
  rw [BitVec.getLsbD_and, BitVec.getLsbD_and]
  rcases Nat.lt_or_ge j b with lt | ge
  · rw [clear j lt, Bool.and_false, Bool.and_false]
  · have bit := congrArg (·.getLsbD (j - b)) same
    simp only [BitVec.getLsbD_ushiftRight, Nat.add_sub_of_le ge] at bit
    rw [bit]

theorem select_congr (same : ∀ m ∈ masks, a &&& m = e &&& m) :
    select a i masks sel = select e i masks sel := by
  induction masks generalizing i sel with
  | nil => rfl
  | cons m masks ih => grind [select]

theorem parity_shift_eq_zero {p : Nat} (fits : i < 32) :
    BitVec.ofNat 32 (p % 2) <<< i = 0 ↔ p % 2 = 0 := by
  constructor
  · intro zero
    have bit : (p % 2 == 1) = false := by
      have bit := getLsbD_parity p i i fits
      rwa [zero, decide_eq_true rfl, Bool.true_and, BitVec.ofNat_eq_ofNat, BitVec.getLsbD_zero,
        eq_comm] at bit
    have odd := ne_of_beq_false bit
    omega
  · grind

theorem or_eq_zero {x y : BitVec 32} : x ||| y = 0 ↔ x = 0 ∧ y = 0 := by
  constructor
  · simp
  · rintro ⟨rfl, rfl⟩
    rfl

theorem select_eq_zero : select a i masks sel = 0
    ↔ sel = 0 ∧ ∀ m ∈ masks.take (32 - i), popCount (a &&& m) % 2 = 0 := by
  induction masks generalizing i sel with
  | nil => simp [select]
  | cons m masks ih =>
    rw [select, ih, or_eq_zero, and_assoc]
    rcases Nat.lt_or_ge i 32 with fits | out
    · obtain ⟨d, gap⟩ : ∃ d, 32 - i = d + 1 := ⟨31 - i, by omega⟩
      have gap' : 32 - (i + 1) = d := by omega
      rw [parity_shift_eq_zero fits, gap, gap', List.take_succ_cons, List.forall_mem_cons]
    · grind [Nat.sub_eq_zero_of_le]

end Parities

section Ranges

variable {overshift : Addr} {s r : AddrRange} {a e : Addr} {b : Nat}

theorem granularity_lowest (inter : s.interleaved = true) (low : LowestBit s.masks b)
    (fits : b < 32) : s.granularity overshift = 1#64 <<< b := by
  have bits : ∀ j < 32, ((s.masks.foldl (fun c m => c ||| m.setWidth 32) (0 : BitVec 32)).signExtend
      64).getLsbD j = s.masks.any (·.getLsbD j) := by
    intro j lt
    rw [BitVec.getLsbD_signExtend, decide_eq_true (Nat.lt_trans lt (by decide)), if_pos lt,
      getLsbD_combined 0 lt]
    simp
  have lowest : ctz64 ((s.masks.foldl (fun c m => c ||| m.setWidth 32) (0 : BitVec 32)).signExtend
      64) = b := by
    refine ctz64_eq ?_ fun j lt => ?_
    · rw [bits b fits]
      exact List.any_eq_true.mpr low.set
    · rw [bits j (Nat.lt_trans lt fits), List.any_eq_false]
      exact fun m mem => Bool.eq_false_iff.mp (low.clear m mem j lt)
  have small : b ≠ 64 := by omega
  simp only [granularity, inter, if_true, lowest, if_neg small]

theorem granularity_overshift (inter : s.interleaved = true) (wide : ¬s.NarrowMask) :
    s.granularity overshift = overshift := by
  have none : s.masks.foldl (fun c m => c ||| m.setWidth 32) (0 : BitVec 32) = 0 := by
    refine BitVec.eq_of_getLsbD_eq fun j lt => ?_
    rw [getLsbD_combined 0 lt, BitVec.ofNat_eq_ofNat, BitVec.getLsbD_zero, Bool.false_or,
      List.any_eq_false]
    exact fun m mem set => wide ⟨m, mem, j, lt, set⟩
  have all : ctz64 ((0 : BitVec 32).signExtend 64) = 64 := by decide
  simp only [granularity, inter, if_true, none, all]

theorem NarrowMask.lt (narrow : s.NarrowMask) (low : LowestBit s.masks b) : b < 32 := by
  obtain ⟨m, mem, c, lt, set⟩ := narrow
  refine Nat.lt_of_le_of_lt (Nat.le_of_not_gt fun above => ?_) lt
  exact Bool.false_ne_true ((low.clear m mem c above).symm.trans set)

theorem contains_select_iff : s.contains a = true
    ↔ s.inRange a = true ∧ select a 0 s.masks 0 = s.intlvMatch.setWidth 32 := by
  rw [contains, Bool.and_eq_true, beq_iff_eq]

theorem inRange_iff : s.inRange a = true ↔ s.start ≤ a ∧ a ≤ s.stop := by
  rw [inRange, Bool.and_eq_true, decide_eq_true_iff, decide_eq_true_iff]

theorem contains_of_granule (low : LowestBit s.masks b) (same : a >>> b = e >>> b)
    (inside : s.inRange a = true) (contained : s.contains e = true) : s.contains a = true := by
  refine contains_select_iff.mpr ⟨inside, ?_⟩
  rw [select_congr fun m mem => and_eq_of_shift_eq (low.clear m mem) same]
  exact (contains_select_iff.mp contained).2

theorem granule_of_short (valid : r.inRange a = true)
    (short : r.stop.toNat < r.start.toNat + 2 ^ b) :
    a >>> b = r.start >>> b ∨ a >>> b = r.stop >>> b := by
  obtain ⟨low, high⟩ := inRange_iff.mp valid
  have low' : r.start.toNat / 2 ^ b ≤ a.toNat / 2 ^ b := Nat.div_le_div_right low
  have high' : a.toNat / 2 ^ b ≤ r.stop.toNat / 2 ^ b := Nat.div_le_div_right high
  have next : r.stop.toNat / 2 ^ b ≤ r.start.toNat / 2 ^ b + 1 := by
    have step : (r.start.toNat + 2 ^ b) / 2 ^ b = r.start.toNat / 2 ^ b + 1 :=
      Nat.add_div_right _ (Nat.two_pow_pos b)
    exact (Nat.div_le_div_right short.le).trans_eq step
  simp only [← BitVec.toNat_inj, BitVec.toNat_ushiftRight]
  omega

theorem toNat_size (plain : r.interleaved = false) (valid : r.start ≤ r.stop)
    (part : ¬(r.start = 0 ∧ r.stop = maxAddr)) :
    r.size.toNat = r.stop.toNat - r.start.toNat + 1 := by
  have none : r.masks = [] := by simpa [interleaved] using plain
  have fits : r.stop.toNat - r.start.toNat + 1 < 2 ^ 64 := by
    refine Nat.lt_of_le_of_ne (by omega) fun whole => part ⟨?_, ?_⟩
    · exact BitVec.eq_of_toNat_eq (by simp; omega)
    · exact BitVec.eq_of_toNat_eq (by simp [maxAddr]; omega)
  rw [size, none, List.length_nil, BitVec.ushiftRight_zero, BitVec.toNat_add,
    BitVec.toNat_sub_of_le valid, show BitVec.toNat (1 : Addr) = 1 from rfl, Nat.mod_eq_of_lt fits]

theorem isSubset_interleaved (plain : r.interleaved = false) (inter : s.interleaved = true) :
    r.isSubset overshift s = .ok true
      ↔ s.contains r.start = true ∧ s.contains r.stop = true
        ∧ r.size ≤ s.granularity overshift := by
  simp [isSubset, plain, inter, and_assoc]

theorem holdsBothEnds_iff : s.contains 0 = true ∧ s.contains maxAddr = true ↔ s.HoldsBothEnds := by
  have zero : select 0 0 s.masks 0 = 0 := by
    refine select_eq_zero.mpr ⟨rfl, fun m _ => ?_⟩
    rw [show 0 &&& m = 0 from BitVec.zero_and]
    rfl
  have small : s.intlvMatch.setWidth 32 = 0 ↔ s.intlvMatch = 0 := by
    simp only [← BitVec.toNat_inj, BitVec.toNat_setWidth]
    simp only [BitVec.ofNat_eq_ofNat, BitVec.toNat_ofNat]
    omega
  have last (m : Addr) : maxAddr &&& m = m := BitVec.allOnes_and
  simp only [contains_select_iff, inRange_iff, zero]
  constructor
  · rintro ⟨⟨⟨start, -⟩, first⟩, ⟨-, stop⟩, all⟩
    rw [← first, select_eq_zero] at all
    refine ⟨BitVec.le_zero_iff.mp start, ?_, small.mp first.symm, fun m mem => ?_⟩
    · exact BitVec.eq_of_toNat_eq
        (Nat.le_antisymm (Nat.le_sub_one_of_lt s.stop.isLt) stop)
    · rw [← last m]
      exact all.2 m mem
  · rintro ⟨start, stop, first, even⟩
    rw [small.mpr first, start, stop]
    refine ⟨⟨⟨BitVec.le_refl 0, by decide⟩, rfl⟩, ⟨by decide, BitVec.le_refl _⟩, ?_⟩
    refine select_eq_zero.mpr ⟨rfl, fun m mem => ?_⟩
    rw [last m]
    exact even m mem

theorem exists_not_contained (inter : s.interleaved = true) (nonzero : ∀ m ∈ s.masks, m ≠ 0)
    (first : s.intlvMatch = 0) : ∃ a, s.contains a = false := by
  obtain ⟨m, masks, cons⟩ : ∃ m masks, s.masks = m :: masks := by
    refine List.exists_cons_of_ne_nil fun none => ?_
    rw [interleaved, none] at inter
    exact Bool.false_ne_true inter
  obtain ⟨lt, set, -⟩ := ctz64_spec (nonzero m (cons ▸ List.mem_cons_self))
  refine ⟨1#64 <<< ctz64 m, Bool.eq_false_of_not_eq_true fun contained => ?_⟩
  have even := (contains_select_iff.mp contained).2
  rw [first, cons, show (0 : BitVec 8).setWidth 32 = 0 from rfl, select_eq_zero] at even
  have one : popCount (1#64 <<< ctz64 m &&& m) = popCount 0 + 1 := by
    refine popCount_differ lt ?_ (BitVec.getLsbD_zero) fun j ne => ?_
    · grind
    · grind
  have := even.2 m List.mem_cons_self
  rw [one] at this
  exact absurd this (by decide)

theorem isSubset_sound (low : LowestBit s.masks b) (fits : b < 32) (inter : s.interleaved = true)
    (plain : r.interleaved = false) (valid : r.start ≤ r.stop)
    (part : ¬(r.start = 0 ∧ r.stop = maxAddr)) (passes : r.isSubset overshift s = .ok true)
    (inside : r.inRange a = true) : s.contains a = true := by
  obtain ⟨first, last, small⟩ := (isSubset_interleaved plain inter).mp passes
  have short : r.stop.toNat < r.start.toNat + 2 ^ b := by
    have small : r.size.toNat ≤ (s.granularity overshift).toNat := small
    rw [granularity_lowest inter low fits, toNat_one_shiftLeft low.lt, toNat_size plain valid part]
      at small
    omega
  have within : s.inRange a = true := by
    have below := (inRange_iff.mp (contains_select_iff.mp first).1).1
    have above := (inRange_iff.mp (contains_select_iff.mp last).1).2
    obtain ⟨ge, le⟩ := inRange_iff.mp inside
    exact inRange_iff.mpr ⟨BitVec.le_trans below ge, BitVec.le_trans le above⟩
  rcases granule_of_short inside short with same | same
  · exact contains_of_granule low same within first
  · exact contains_of_granule low same within last

theorem isSubset_complete (plain : r.interleaved = false) (inter : s.interleaved = true)
    (valid : r.start ≤ r.stop) (all : ∀ a, r.inRange a = true → s.contains a = true)
    (small : r.size ≤ s.granularity overshift) : r.isSubset overshift s = .ok true := by
  have first := all r.start (inRange_iff.mpr ⟨BitVec.le_refl _, valid⟩)
  have last := all r.stop (inRange_iff.mpr ⟨valid, BitVec.le_refl _⟩)
  exact (isSubset_interleaved plain inter).mpr ⟨first, last, small⟩

theorem isSubset_whole (plain : r.interleaved = false) (inter : s.interleaved = true)
    (start : r.start = 0) (stop : r.stop = maxAddr) :
    r.isSubset overshift s = .ok true ↔ s.HoldsBothEnds := by
  have none : r.masks = [] := by simpa [interleaved] using plain
  have wraps : r.size = 0 := by
    rw [size, none, start, stop]
    decide
  rw [isSubset_interleaved plain inter, wraps, start, stop, ← holdsBothEnds_iff]
  exact ⟨fun whole => ⟨whole.1, whole.2.1⟩,
    fun ends => ⟨ends.1, ends.2, BitVec.le_def.mpr (Nat.zero_le _)⟩⟩

end Ranges

/-- Granularity and subset test are right just when the lowest bit of the masks is kept in an
`int` and the tested range is not the whole address space of which both ends are contained. -/
theorem subset_right_iff (s r : AddrRange) (inter : s.interleaved = true)
    (nonzero : ∀ m ∈ s.masks, m ≠ 0) (plain : r.interleaved = false) (valid : r.start ≤ r.stop) :
    (∀ overshift, SubsetRight overshift s r)
      ↔ s.NarrowMask ∧ ¬(r.start = 0 ∧ r.stop = maxAddr ∧ s.HoldsBothEnds) := by
  have some : s.masks ≠ [] := by simpa [interleaved] using inter
  obtain ⟨b, low⟩ := exists_lowestBit some nonzero
  constructor
  · refine fun right => ⟨?_, fun whole => ?_⟩
    · by_contra wide
      have granule := (right 0).granule b low
      rw [granularity_overshift inter wide] at granule
      exact (Nat.two_pow_pos b).ne granule
    · obtain ⟨start, stop, ends⟩ := whole
      obtain ⟨a, missing⟩ := exists_not_contained inter nonzero ends.first
      have inside : r.inRange a = true := by
        rw [inRange_iff, start, stop]
        exact ⟨BitVec.le_def.mpr (Nat.zero_le _), Nat.le_sub_one_of_lt a.isLt⟩
      have passes : r.isSubset 0 s = .ok true := (isSubset_whole plain inter start stop).mpr ends
      exact Bool.false_ne_true (missing.symm.trans ((right 0).sound passes a inside))
  · rintro ⟨narrow, proper⟩ overshift
    have fits := narrow.lt low
    refine ⟨fun c low' => ?_, fun passes a inside => ?_, isSubset_complete plain inter valid⟩
    · rw [← low.unique low', granularity_lowest inter low fits, toNat_one_shiftLeft low.lt]
    · by_cases whole : r.start = 0 ∧ r.stop = maxAddr
      · have ends := (isSubset_whole plain inter whole.1 whole.2).mp passes
        exact absurd ⟨whole.1, whole.2, ends⟩ proper
      · exact isSubset_sound low fits inter plain valid whole passes inside

/-- Two channels of 64 bytes, of which this is the second. -/
def channel : AddrRange := ⟨0, 0xffff, [0x40], 1⟩

theorem subset_right_channel :
    channel.interleaved = true
      ∧ ∀ overshift, SubsetRight overshift channel ⟨0x40, 0x7f, [], 0⟩ := by
  refine ⟨rfl, (subset_right_iff channel ⟨0x40, 0x7f, [], 0⟩ rfl
    (List.forall_mem_singleton.mpr (by decide)) rfl (by decide)).mpr ⟨?_, fun whole => ?_⟩⟩
  · exact ⟨0x40, List.mem_cons_self, 6, by decide, by decide⟩
  · exact absurd whole.1 (by decide)

/-- The `int` loses a mask above it, and the whole address space passes for one granule. -/
theorem subset_wrong :
    (¬∀ overshift, SubsetRight overshift ⟨0, maxAddr, [0x100000000], 0⟩ ⟨0, 0xff, [], 0⟩)
      ∧ ∀ overshift, ¬SubsetRight overshift ⟨0, maxAddr, [0x3], 0⟩ ⟨0, maxAddr, [], 0⟩ := by
  constructor
  · intro right
    have granule := (right 0).granule 32
      ⟨⟨_, List.mem_cons_self, by decide⟩, List.forall_mem_singleton.mpr (by decide)⟩
    exact absurd granule (by decide)
  · intro overshift right
    have passes : isSubset overshift ⟨0, maxAddr, [], 0⟩ ⟨0, maxAddr, [0x3], 0⟩ = .ok true :=
      (isSubset_whole rfl rfl rfl rfl).mpr
        ⟨rfl, rfl, rfl, List.forall_mem_singleton.mpr (by decide)⟩
    exact absurd (right.sound passes 1 (by decide)) (by decide)

end Gem5.Base.AddrRange
