import Gem5.Cache.Bdi
import Mathlib.Order.Bounds.Basic
import Mathlib.Tactic.Linarith

/-!
# The search of base-delta-immediate compression

The search stops at a ratio of base and difference sizes at which an encoding was kept, and so gives
the smallest result of the ratios that it came to. In blocks of 40 bytes or more no other is smaller.
-/

namespace Gem5.Cache.BDI

open Loops List

variable {bdi : BDI} {data : List (BitVec 64)} {TB TD : Nat}

/-- The result of a combination of sizes, if its compressor succeeds. -/
def attempt (bdi : BDI) (data : List (BitVec 64)) (TB TD : Nat) : Option BDICompData :=
  (bdi.tryCombination data TB TD).join

theorem tryCombination_attempt (sizes : Sizes TB TD) :
    bdi.tryCombination data TB TD = some (bdi.attempt data TB TD) := by
  cases sizes <;> rfl

theorem attempt_bounds (block : bdi.blkSize = 8 * data.length) (sizes : Sizes TB TD)
    {d : BDICompData} (success : bdi.attempt data TB TD = some d) :
    4 + 8 * TB + 8 * TD * (bdi.blkSize / TB) ≤ d.getSizeBits ∧
      d.getSizeBits ≤ 4 + 8 * TB + 8 * TD * (bdi.blkSize / TB) + bdi.blkSize / TB := by
  obtain ⟨encoding, tried⟩ : ∃ encoding, bdi.tryCompress TB TD data encoding = some d := by
    cases sizes <;> exact ⟨_, success⟩
  rw [tryCompress, block, Option.map_eq_some_iff] at tried
  obtain ⟨temp_data, run, rfl⟩ := tried
  obtain ⟨parsed, rfl, enc⟩ := BDICompDataBaseDelta.compress_encodes sizes run
  have count : 8 / TB * data.length = bdi.blkSize / TB := by
    cases sizes <;> omega
  have log : Nat.clog 2 parsed.bases.length ≤ 1 := Nat.clog_le_of_le_pow enc.few
  have masks : parsed.bitMask.length = bdi.blkSize / TB := by
    rw [enc.masks, length_map, length_range', count]
  have deltas : parsed.deltas.length = bdi.blkSize / TB := by
    rw [enc.deltas, length_map, length_range', count]
  change _ ≤ encodingBits + parsed.bitMask.length * Nat.clog 2 parsed.bases.length +
      (parsed.maxNumBases - 1) * TB * CHAR_BIT + parsed.deltas.length * TD * CHAR_BIT ∧
    encodingBits + parsed.bitMask.length * Nat.clog 2 parsed.bases.length +
      (parsed.maxNumBases - 1) * TB * CHAR_BIT + parsed.deltas.length * TD * CHAR_BIT ≤ _
  rw [enc.most, masks, deltas, encodingBits, CHAR_BIT]
  have metadata : bdi.blkSize / TB * Nat.clog 2 parsed.bases.length ≤ bdi.blkSize / TB :=
    (Nat.mul_le_mul_left _ log).trans_eq (Nat.mul_one _)
  have some_ := Nat.zero_le (bdi.blkSize / TB * Nat.clog 2 parsed.bases.length)
  constructor
  · linarith
  · linarith

/-- What the search keeps, with the ratio that it is from. -/
def better (ratio : Nat) (p : BDICompData × Nat) : Option BDICompData → BDICompData × Nat
  | some d => if d.getSizeBits < p.1.getSizeBits then (d, ratio) else p
  | none => p

theorem improve_eq (p : BDICompData × Nat) (ratio : Nat) (base_size : Option Nat)
    (temp : Option BDICompData) :
    (⟨p.1, p.2, ratio, base_size⟩ : Search).improve temp =
      ⟨(better ratio p temp).1, (better ratio p temp).2, ratio, base_size⟩ := by
  cases temp with
  | none => rfl
  | some =>
    rw [Search.improve, better]
    split <;> rfl

/-- The results of the combinations with a ratio. -/
def attemptsAt (bdi : BDI) (data : List (BitVec 64)) (ratio : Nat) : List (Option BDICompData) :=
  ([8, 4, 2].filter (ratio ≤ ·)).map fun base_size => bdi.attempt data base_size (base_size / ratio)

theorem mem_attemptsAt_iff {ratio : Nat} (outer : ratio ∈ [8, 4, 2]) (d : BDICompData) :
    some d ∈ bdi.attemptsAt data ratio ↔
      ∃ TB TD, Sizes TB TD ∧ TB = ratio * TD ∧ bdi.attempt data TB TD = some d := by
  rw [attemptsAt, List.mem_map]
  constructor
  · rintro ⟨base_size, mem, found⟩
    obtain ⟨inner, le⟩ := List.mem_filter.mp mem
    have le := of_decide_eq_true le
    have two : 2 ≤ ratio := by grind
    refine ⟨base_size, base_size / ratio, sizes_of_ratio ?_ ?_ two le, ?_, found⟩
    · exact mem_append_left [1] outer
    · exact mem_append_left [1] inner
    · grind
  · rintro ⟨TB, TD, sizes, eq, found⟩
    have pos : 0 < ratio ∧ 0 < TD := by
      cases sizes <;> omega
    have quotient : TB / ratio = TD := by rw [eq, Nat.mul_div_cancel_left TD pos.1]
    refine ⟨TB, List.mem_filter.mpr ⟨by cases sizes <;> decide, decide_eq_true ?_⟩, ?_⟩
    · grind
    · rw [quotient]
      exact found

theorem foldl_better (ratio : Nat) (l : List (Option BDICompData)) (p : BDICompData × Nat) :
    (∀ d, some d ∈ l → (l.foldl (better ratio) p).1.getSizeBits ≤ d.getSizeBits) ∧
      (l.foldl (better ratio) p = p ∨ ∃ d, some d ∈ l ∧ l.foldl (better ratio) p = (d, ratio) ∧
        d.getSizeBits < p.1.getSizeBits) := by
  induction l generalizing p with
  | nil => exact ⟨(fun d mem => by cases mem), .inl rfl⟩
  | cons temp l ih =>
    obtain ⟨now, first⟩ :
        (∀ d, temp = some d → (better ratio p temp).1.getSizeBits ≤ d.getSizeBits) ∧
        (better ratio p temp = p ∨ ∃ d, temp = some d ∧ better ratio p temp = (d, ratio) ∧
          d.getSizeBits < p.1.getSizeBits) := by
      cases temp with
      | none => exact ⟨(fun d eq => by cases eq), .inl rfl⟩
      | some d =>
        rw [better]
        split
        case isTrue less =>
          exact ⟨fun d' eq => by cases eq; exact Nat.le_refl _, .inr ⟨d, rfl, rfl, less⟩⟩
        case isFalse more =>
          exact ⟨fun d' eq => by cases eq; exact Nat.le_of_not_lt more, .inl rfl⟩
    constructor
    · grind
    · grind

section Search

variable {p : BDICompData × Nat} {ratio base_size : Nat} {result : Option Search}

theorem returns_outer (goes : p.2 ≤ ratio) :
    Returns (bdi.round data) ⟨p.1, p.2, ratio, none⟩ result ↔
      Returns (bdi.round data) ⟨p.1, p.2, ratio, some 8⟩ result :=
  returns_continue_iff (if_pos goes)

theorem returns_stop (stops : ratio < p.2) :
    Returns (bdi.round data) ⟨p.1, p.2, ratio, none⟩ result ↔
      result = some ⟨p.1, p.2, ratio, none⟩ := by
  apply returns_exit_iff
  exact if_neg (Nat.not_le_of_lt stops)

theorem returns_inner (more : bdi.useMoreCompressors = true) (le : ratio ≤ base_size)
    (sizes : Sizes base_size (base_size / ratio)) :
    Returns (bdi.round data) ⟨p.1, p.2, ratio, some base_size⟩ result ↔
      Returns (bdi.round data)
        ⟨(better ratio p (bdi.attempt data base_size (base_size / ratio))).1,
          (better ratio p (bdi.attempt data base_size (base_size / ratio))).2, ratio,
          some (base_size / 2)⟩ result := by
  apply returns_continue_iff
  rw [round]
  dsimp only
  rw [if_pos le, more, tryCombination_attempt sizes]
  dsimp only
  rw [improve_eq]
  rfl

theorem returns_inner_end (less : base_size < ratio) :
    Returns (bdi.round data) ⟨p.1, p.2, ratio, some base_size⟩ result ↔
      Returns (bdi.round data) ⟨p.1, p.2, ratio / 2, none⟩ result :=
  returns_continue_iff (if_neg (Nat.not_le_of_lt less))

theorem returns_ratio (more : bdi.useMoreCompressors = true) (outer : ratio ∈ [8, 4, 2])
    (goes : p.2 ≤ ratio) :
    Returns (bdi.round data) ⟨p.1, p.2, ratio, none⟩ result ↔
      Returns (bdi.round data)
        ⟨((bdi.attemptsAt data ratio).foldl (better ratio) p).1,
          ((bdi.attemptsAt data ratio).foldl (better ratio) p).2, ratio / 2, none⟩ result := by
  rw [returns_outer goes]
  simp only [List.mem_cons, not_mem_nil, or_false] at outer
  rcases outer with rfl | rfl | rfl
  · rw [returns_inner more (by decide) .base8_1, returns_inner_end (by decide)]
    rfl
  · rw [returns_inner more (by decide) .base8_2, returns_inner more (by decide) .base4_1,
      returns_inner_end (by decide)]
    rfl
  · rw [returns_inner more (by decide) .base8_4, returns_inner more (by decide) .base4_2,
      returns_inner more (by decide) .base2_1, returns_inner_end (by decide)]
    rfl

end Search

/-- The sizes of the uncompressed encoding and of the encodings of a ratio or a larger one. -/
def sizesFrom (bdi : BDI) (data : List (BitVec 64)) (ratio : Nat) : Set Nat :=
  {size | size = (BDICompData.newUncompressed data bdi.blkSize).getSizeBits ∨
    ∃ TB TD d, Sizes TB TD ∧ ratio * TD ≤ TB ∧ bdi.attempt data TB TD = some d ∧
      d.getSizeBits = size}

/-- No encoding of this ratio is smaller than the uncompressed one. -/
def NoGain (bdi : BDI) (data : List (BitVec 64)) (ratio : Nat) : Prop :=
  ∀ TB TD d, Sizes TB TD → TB = ratio * TD → bdi.attempt data TB TD = some d →
    (BDICompData.newUncompressed data bdi.blkSize).getSizeBits ≤ d.getSizeBits

/-- The result is an encoding of this ratio that is smaller than the uncompressed one. -/
def GainOf (bdi : BDI) (data : List (BitVec 64)) (ratio : Nat) (result : BDICompData) : Prop :=
  ∃ TB TD, Sizes TB TD ∧ TB = ratio * TD ∧ bdi.attempt data TB TD = some result ∧
    result.getSizeBits < (BDICompData.newUncompressed data bdi.blkSize).getSizeBits

/-- The largest ratio at which an encoding is smaller than the uncompressed one, or 2, with the
smallest result from there on. -/
structure Stops (bdi : BDI) (data : List (BitVec 64)) (ratio : Nat) (result : BDICompData) :
    Prop where
  outer : ratio ∈ [8, 4, 2]
  larger : ∀ more ∈ [8, 4, 2], ratio < more → bdi.NoGain data more
  gain : ratio = 2 ∨ bdi.GainOf data ratio result
  least : IsLeast (bdi.sizesFrom data ratio) result.getSizeBits

variable {bdi : BDI} {data : List (BitVec 64)} {TB TD : Nat}

theorem ratio_of_sizes (sizes : Sizes TB TD) : ∃ ratio ∈ [8, 4, 2], TB = ratio * TD := by
  cases sizes
  case base8_4 => exact ⟨2, by decide, rfl⟩
  case base8_2 => exact ⟨4, by decide, rfl⟩
  case base8_1 => exact ⟨8, by decide, rfl⟩
  case base4_2 => exact ⟨2, by decide, rfl⟩
  case base4_1 => exact ⟨4, by decide, rfl⟩
  case base2_1 => exact ⟨2, by decide, rfl⟩

theorem ratio_cases {ratio : Nat} (outer : ratio ∈ [8, 4, 2])
    (larger : ∀ more ∈ [8, 4, 2], ratio < more → bdi.NoGain data more) :
    ((bdi.attemptsAt data ratio).foldl (better ratio)
        (BDICompData.newUncompressed data bdi.blkSize, 2) =
          (BDICompData.newUncompressed data bdi.blkSize, 2) ∧ bdi.NoGain data ratio) ∨
      ∃ d, (bdi.attemptsAt data ratio).foldl (better ratio)
        (BDICompData.newUncompressed data bdi.blkSize, 2) = (d, ratio) ∧
          bdi.Stops data ratio d := by
  obtain ⟨least, kept⟩ := foldl_better ratio (bdi.attemptsAt data ratio)
    (BDICompData.newUncompressed data bdi.blkSize, 2)
  rcases kept with eq | ⟨d, mem, eq, less⟩
  · refine .inl ⟨eq, fun TB TD d sizes whole found => ?_⟩
    have size := least d ((mem_attemptsAt_iff outer d).mpr ⟨TB, TD, sizes, whole, found⟩)
    rw [eq] at size
    exact size
  · rw [eq] at least
    obtain ⟨TB, TD, sizes, whole, found⟩ := (mem_attemptsAt_iff outer d).mp mem
    refine .inr ⟨d, eq, outer, larger, .inr ⟨TB, TD, sizes, whole, found, less⟩,
      .inr ⟨TB, TD, d, sizes, Nat.le_of_eq whole.symm, found, rfl⟩, ?_⟩
    rintro size (rfl | ⟨TB', TD', d', sizes', le, found', rfl⟩)
    · exact Nat.le_of_lt less
    · obtain ⟨more, outer', whole'⟩ := ratio_of_sizes sizes'
      have pos : 0 < TD' := by cases sizes' <;> omega
      rw [whole'] at le
      rcases Nat.eq_or_lt_of_le (Nat.le_of_mul_le_mul_right le pos) with rfl | beyond
      · exact least d' ((mem_attemptsAt_iff outer d').mpr ⟨TB', TD', sizes', whole', found'⟩)
      · exact Nat.le_of_lt (Nat.lt_of_lt_of_le less
          (larger more outer' beyond TB' TD' d' sizes' whole' found'))

/-- The search is at a ratio and has kept nothing yet. -/
abbrev unimproved (bdi : BDI) (data : List (BitVec 64)) (ratio : Nat) : Search :=
  ⟨.newUncompressed data bdi.blkSize, 2, ratio, none⟩

theorem search_step (data : List (BitVec 64)) (more : bdi.useMoreCompressors = true) {ratio : Nat}
    (outer : ratio ∈ [8, 4, 2])
    (larger : ∀ more ∈ [8, 4, 2], ratio < more → bdi.NoGain data more) :
    (∃ s, Returns (bdi.round data) (unimproved bdi data ratio) (some s) ∧
      bdi.Stops data ratio s.bdi_data) ∨
      bdi.NoGain data ratio ∧ ∀ result, Returns (bdi.round data) (unimproved bdi data ratio) result ↔
        Returns (bdi.round data) (unimproved bdi data (ratio / 2)) result := by
  have two : 2 ≤ ratio := by grind
  have rounds : ∀ result, Returns (bdi.round data) (unimproved bdi data ratio) result ↔ _ :=
    fun result => returns_ratio (p := (BDICompData.newUncompressed data bdi.blkSize, 2)) more outer two
  rcases ratio_cases outer larger with ⟨eq, none_⟩ | ⟨d, eq, stops⟩
  · grind
  · refine .inl ⟨⟨d, ratio, ratio / 2, none⟩, ?_, stops⟩
    rw [rounds, eq]
    exact (returns_stop (p := (d, ratio)) (Nat.div_lt_self (by omega) (by decide))).mpr rfl

theorem search_stops (data : List (BitVec 64)) (more : bdi.useMoreCompressors = true) :
    ∃ s ratio, Returns (bdi.round data) (unimproved bdi data 8) (some s) ∧
      bdi.Stops data ratio s.bdi_data := by
  rcases search_step data more (show 8 ∈ [8, 4, 2] by decide)
    (fun more outer beyond => by
      simp only [List.mem_cons, not_mem_nil, or_false] at outer
      omega) with ⟨s, ends, stops⟩ | ⟨none8, rounds8⟩
  · exact ⟨s, 8, ends, stops⟩
  rcases search_step data more (show 4 ∈ [8, 4, 2] by decide)
    (fun more outer beyond => by
      simp only [List.mem_cons, not_mem_nil, or_false] at outer
      have eight : more = 8 := by omega
      exact eight ▸ none8) with ⟨s, ends, stops⟩ | ⟨none4, rounds4⟩
  · exact ⟨s, 4, (rounds8 _).mpr ends, stops⟩
  have larger : ∀ more ∈ [8, 4, 2], 2 < more → bdi.NoGain data more := by grind
  rcases search_step data more (show 2 ∈ [8, 4, 2] by decide) larger
    with ⟨s, ends, stops⟩ | ⟨none2, rounds2⟩
  · exact ⟨s, 2, (rounds8 _).mpr ((rounds4 _).mpr ends), stops⟩
  · refine ⟨unimproved bdi data 1, 2, (rounds8 _).mpr ((rounds4 _).mpr ((rounds2 _).mpr ?_)),
      by decide, larger, .inl rfl, .inl rfl, ?_⟩
    · exact (returns_stop (p := (BDICompData.newUncompressed data bdi.blkSize, 2))
        (Nat.lt_succ_self 1)).mpr rfl
    · rintro size (rfl | ⟨TB, TD, d, sizes, -, found, rfl⟩)
      · exact Nat.le_refl _
      · obtain ⟨ratio, outer, whole⟩ := ratio_of_sizes sizes
        by_cases at_ : ratio = 2
        · exact none2 TB TD d sizes (at_ ▸ whole) found
        · aesop

theorem Stops.least_of_large (block : bdi.blkSize = 8 * data.length) (large : 40 ≤ bdi.blkSize)
    {ratio : Nat} {result : BDICompData} (stops : bdi.Stops data ratio result) :
    IsLeast (bdi.sizesFrom data 2) result.getSizeBits := by
  obtain ⟨outer, -, gain, member, lower⟩ := stops
  rcases gain with rfl | ⟨TB, TD, sizes, whole, found, -⟩
  · exact ⟨member, lower⟩
  · have upper := (attempt_bounds block sizes found).2
    constructor
    · exact .inr ⟨TB, TD, result, sizes, by cases sizes <;> omega, found, rfl⟩
    · rintro size (rfl | ⟨TB', TD', d', sizes', le, found', rfl⟩)
      · exact lower (.inl rfl)
      · by_cases beyond : ratio * TD' ≤ TB'
        · exact lower (.inr ⟨TB', TD', d', sizes', beyond, found', rfl⟩)
        · have bound := (attempt_bounds block sizes' found').1
          cases sizes <;> cases sizes' <;> omega

/-- A block that is neither zero nor one value is compressed to the smallest result from some ratio
on, and to the smallest of all if it has 40 bytes or more. -/
theorem compress_least (more : bdi.useMoreCompressors = true) (multiple : 8 ∣ bdi.blkSize)
    (block : data.length = bdi.qwordsPerCacheLine) (zero : ¬bdi.isZeroPackable data = true)
    (same : ¬bdi.isSameValuePackable data = true) :
    ∃ fuel bdi' result ratio, bdi.compress fuel data = .ok (bdi', result) ∧
      bdi.Stops data ratio result.bdi_data ∧
      (40 ≤ bdi.blkSize → IsLeast (bdi.sizesFrom data 2) result.bdi_data.getSizeBits) := by
  have size : bdi.blkSize = 8 * data.length := by
    rw [block, qwordsPerCacheLine, BYTES_PER_QWORD, Nat.mul_div_cancel' multiple]
  obtain ⟨s, ratio, ends, stops⟩ := search_stops data more
  obtain ⟨-, fuel, compressed⟩ := compress_search zero same ends
  exact ⟨fuel, _, _, ratio, compressed, stops, stops.least_of_large size⟩

def long_bdi : BDI := ⟨40, true, fun _ => 0⟩

theorem compress_least_long : ∃ fuel bdi' result ratio,
    long_bdi.compress fuel [1, 2, 3, 4, 5] = .ok (bdi', result) ∧
      long_bdi.Stops [1, 2, 3, 4, 5] ratio result.bdi_data ∧
      (40 ≤ long_bdi.blkSize →
        IsLeast (long_bdi.sizesFrom [1, 2, 3, 4, 5] 2) result.bdi_data.getSizeBits) :=
  compress_least rfl (by decide) (by decide) (by decide) (by decide)

def small_bdi : BDI := ⟨16, true, fun _ => 0⟩

/-- Base 8 with difference 1 takes 84 bits here, less than the 132 of the uncompressed encoding, and
the search stops, where base 4 with difference 1 takes 68. -/
theorem not_least_of_small : 8 ∣ small_bdi.blkSize ∧
    [1, 2].length = small_bdi.qwordsPerCacheLine ∧ ¬small_bdi.isZeroPackable [1, 2] = true ∧
    ¬small_bdi.isSameValuePackable [1, 2] = true ∧
    ∃ fuel bdi' result, small_bdi.compress fuel [1, 2] = .ok (bdi', result) ∧
      ¬IsLeast (small_bdi.sizesFrom [1, 2] 2) result.bdi_data.getSizeBits := by
  refine ⟨by decide, by decide, by decide, by decide, 8, _, _, rfl, fun least => ?_⟩
  obtain ⟨d, found, size⟩ : ∃ d, small_bdi.attempt [1, 2] 4 1 = some d ∧ d.getSizeBits = 68 :=
    ⟨_, rfl, by decide⟩
  have other := least.2 (.inr ⟨4, 1, d, .base4_1, by decide, found, rfl⟩)
  rw [size] at other
  revert other
  decide

end Gem5.Cache.BDI
