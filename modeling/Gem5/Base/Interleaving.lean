import Gem5.Base.AddrRange
import Gem5.Lib.DropBits
import Mathlib.Data.Fintype.EquivFin
import Mathlib.Data.Fintype.Prod
import Mathlib.Data.Set.Function

/-!
# Interleaved ranges partition memory

The lowest bits of the masks are deleted from an address to get its offset. Together with the
select value the remaining bits determine the address: the highest deleted bit in which two
addresses differ is the only difference its mask sees. Counting then shows that every select
value occurs with every offset.
-/

namespace Gem5.Base.AddrRange

open DropBits

variable {k : Nat} {a : Addr}

theorem getLsbD_removeBit (a : Addr) {i : Nat} (h : i ≤ k) (j : Nat) :
    (removeBit a i k).getLsbD j = drop (k - i) a.getLsbD j := by
  rw [removeBit, drop]
  split
  · have hbits : ((k : Int) - i - 1 + 1).toNat = k - i := by omega
    simp only [insertBitsFromZero, BitVec.getLsbD_or, BitVec.getLsbD_and, BitVec.getLsbD_not,
      getLsbD_mask]
    by_cases hj : j < 64
    · grind
    · grind
  · grind

theorem getLsbD_removeBits (i : Nat) (lsbs : List Nat) (a : Addr) (sorted : lsbs.Pairwise (· < ·))
    (from_i : ∀ k ∈ lsbs, i ≤ k) : (removeBits i lsbs a).getLsbD = dropAll i lsbs a.getLsbD := by
  induction lsbs generalizing i a with
  | nil => rfl
  | cons k lsbs ih =>
    have hk := from_i k List.mem_cons_self
    rw [removeBits, dropAll, ih (i + 1) _ (List.Pairwise.of_cons sorted)]
    · congr 1
      funext j
      exact getLsbD_removeBit a hk j
    · grind [List.rel_of_pairwise_cons]

/-- The parity of the masked bits. -/
def odd (a m : Addr) : Bool := popCount (a &&& m) % 2 == 1

theorem getLsbD_parity (p i j : Nat) (hi : i < 32) :
    (BitVec.ofNat 32 (p % 2) <<< i).getLsbD j = (decide (j = i) && (p % 2 == 1)) := by
  rw [BitVec.getLsbD_shiftLeft, BitVec.getLsbD_ofNat]
  by_cases hj : j = i
  · grind
  · by_cases hlt : j < i
    · simp [hj, hlt]
    · have hpos : 0 < j - i := by omega
      have hbit : (p % 2).testBit (j - i) = false := by
        refine Nat.testBit_lt_two_pow ?_
        have : 2 ^ 1 ≤ 2 ^ (j - i) := Nat.pow_le_pow_right (by omega) hpos
        omega
      simp [hj, hbit]

theorem getLsbD_select (a : Addr) (i : Nat) (masks : List Addr) (sel : BitVec 32)
    (fits : i + masks.length ≤ 32) (j : Nat) :
    (select a i masks sel).getLsbD j =
      (sel.getLsbD j || (decide (i ≤ j) && (masks[j - i]?).elim false (odd a))) := by
  induction masks generalizing i sel with
  | nil => simp [select]
  | cons m masks ih =>
    rw [List.length_cons] at fits
    rw [select, ih (i + 1) _ (by omega), BitVec.getLsbD_or, getLsbD_parity _ _ _ (by omega)]
    by_cases hj : j = i
    · subst hj
      simp [odd]
    · by_cases hlt : i ≤ j
      · grind
      · grind

theorem select_lt (a : Addr) {masks : List Addr} (fits : masks.length ≤ 32) :
    (select a 0 masks 0).toNat < 2 ^ masks.length := by
  refine Nat.lt_pow_two_of_testBit _ fun j hj => ?_
  have hbit := getLsbD_select a 0 masks 0 (by omega) j
  rw [List.getElem?_eq_none (by omega)] at hbit
  simpa [BitVec.getLsbD] using hbit

theorem odd_eq_of_select_eq {b : Addr} {masks : List Addr} (fits : masks.length ≤ 32)
    (h : select a 0 masks 0 = select b 0 masks 0) {m : Addr} (hm : m ∈ masks) :
    odd a m = odd b m := by
  obtain ⟨j, hj, rfl⟩ := List.mem_iff_getElem.mp hm
  have ha := getLsbD_select a 0 masks 0 (by omega) j
  have hb := getLsbD_select b 0 masks 0 (by omega) j
  rw [h, hb] at ha
  simpa [List.getElem?_eq_getElem hj] using ha.symm

theorem ctz64_spec {m : Addr} (h : m ≠ 0) :
    ctz64 m < 64 ∧ m.getLsbD (ctz64 m) = true ∧ ∀ j, j < ctz64 m → m.getLsbD j = false := by
  cases hf : (List.range 64).find? m.getLsbD with
  | none =>
    rw [List.find?_eq_none] at hf
    refine absurd (BitVec.eq_of_getLsbD_eq fun i hi => ?_) h
    have := hf i (List.mem_range.mpr hi)
    simpa using this
  | some l =>
    have hl : ctz64 m = l := by rw [ctz64, hf]; rfl
    rw [hl]
    rw [List.find?_range_eq_some] at hf
    refine ⟨List.mem_range.mp hf.2.1, hf.1, fun j hj => ?_⟩
    simpa using hf.2.2 j hj

theorem countP_differ {p q : Nat → Bool} {l : Nat} {js : List Nat} (nodup : js.Nodup)
    (mem : l ∈ js) (hp : p l = true) (hq : q l = false) (same : ∀ j, j ≠ l → p j = q j) :
    js.countP p = js.countP q + 1 := by
  induction js with
  | nil => simp at mem
  | cons j js ih => grind [List.countP_congr]

theorem popCount_differ {x y : Addr} {l : Nat} (hl : l < 64) (hx : x.getLsbD l = true)
    (hy : y.getLsbD l = false) (same : ∀ j, j ≠ l → x.getLsbD j = y.getLsbD j) :
    popCount x = popCount y + 1 :=
  countP_differ List.nodup_range (List.mem_range.mpr hl) hx hy same

theorem odd_ne_of_last_difference {b m : Addr} (hm : m ≠ 0)
    (differ : a.getLsbD (ctz64 m) ≠ b.getLsbD (ctz64 m))
    (above : ∀ j, ctz64 m < j → a.getLsbD j = b.getLsbD j) : odd a m ≠ odd b m := by
  obtain ⟨hlt, hbit, hbelow⟩ := ctz64_spec hm
  have same : ∀ j, j ≠ ctz64 m → (a &&& m).getLsbD j = (b &&& m).getLsbD j := by grind
  have flip {x y : Addr} (h : popCount x = popCount y + 1) :
      (popCount x % 2 == 1) ≠ (popCount y % 2 == 1) := by
    rw [h]
    rcases Nat.mod_two_eq_zero_or_one (popCount y) with h2 | h2 <;> simp [Nat.add_mod, h2]
  cases ha : a.getLsbD (ctz64 m) with
  | true =>
    have hb : b.getLsbD (ctz64 m) = false := by grind
    refine flip (popCount_differ hlt ?_ ?_ same)
    · rw [BitVec.getLsbD_and, ha, hbit]
      rfl
    · rw [BitVec.getLsbD_and, hb]
      rfl
  | false =>
    have hb : b.getLsbD (ctz64 m) = true := by grind
    refine (flip (popCount_differ hlt ?_ ?_ fun j hj => (same j hj).symm)).symm
    · rw [BitVec.getLsbD_and, hb, hbit]
      rfl
    · rw [BitVec.getLsbD_and, ha]
      rfl

/-- The masks of an interleaving, at most as many as the match value has bits. -/
structure Masks (masks : List Addr) (m : Nat) : Prop where
  some : masks ≠ []
  short : masks.length ≤ 8
  nonzero : ∀ x ∈ masks, x ≠ 0
  distinct : (masks.map ctz64).Nodup
  largest : ∀ x ∈ masks, ctz64 x ≤ m
  attained : ∃ x ∈ masks, ctz64 x = m

variable {masks : List Addr} {m : Nat}

theorem mem_masksLsb : k ∈ masksLsb masks ↔ ∃ x ∈ masks, ctz64 x = k := by
  rw [masksLsb, List.mem_insertionSort, List.mem_map]

theorem length_masksLsb : (masksLsb masks).length = masks.length := by
  rw [masksLsb, List.length_insertionSort, List.length_map]

theorem Masks.sorted (h : Masks masks m) : (masksLsb masks).Pairwise (· < ·) := by
  have nodup : (masksLsb masks).Nodup :=
    (List.perm_insertionSort (· ≤ ·) _).nodup_iff.mpr h.distinct
  have le : (masksLsb masks).Pairwise (· ≤ ·) := List.pairwise_insertionSort (· ≤ ·) _
  exact (le.and nodup).imp fun hab => lt_of_le_of_ne hab.1 hab.2

theorem Masks.lsb_le (h : Masks masks m) (hk : k ∈ masksLsb masks) : k ≤ m := by
  obtain ⟨x, hx, rfl⟩ := mem_masksLsb.mp hk
  exact h.largest x hx

theorem Masks.m_lt (h : Masks masks m) : m < 64 := by
  obtain ⟨x, hx, rfl⟩ := h.attained
  exact (ctz64_spec (h.nonzero x hx)).1

theorem Masks.length_le (h : Masks masks m) : masks.length ≤ m + 1 := by
  have sub : masks.map ctz64 ⊆ List.range (m + 1) := by
    intro k hk
    obtain ⟨x, hx, rfl⟩ := List.mem_map.mp hk
    exact List.mem_range.mpr (Nat.lt_succ_of_le (h.largest x hx))
  have := (List.subperm_of_subset h.distinct sub).length_le
  simpa using this

theorem Masks.getLsbD_removed (h : Masks masks m) (a : Addr) :
    (removeBits 0 (masksLsb masks) a).getLsbD = dropAll 0 (masksLsb masks) a.getLsbD :=
  getLsbD_removeBits 0 _ a h.sorted fun _ _ => Nat.zero_le _

theorem Masks.injective (h : Masks masks m) {b : Addr}
    (select_eq : select a 0 masks 0 = select b 0 masks 0)
    (left_eq : removeBits 0 (masksLsb masks) a = removeBits 0 (masksLsb masks) b) : a = b := by
  by_contra hne
  have hfun : a.getLsbD ≠ b.getLsbD := fun hf =>
    hne (BitVec.eq_of_getLsbD_eq fun i _ => congrFun hf i)
  have outside : ∀ j, 64 ≤ j → a.getLsbD j = b.getLsbD j := by grind
  obtain ⟨l, differ, above⟩ := last_difference hfun outside
  have dropped : dropAll 0 (masksLsb masks) a.getLsbD = dropAll 0 (masksLsb masks) b.getLsbD := by
    rw [← h.getLsbD_removed, ← h.getLsbD_removed, left_eq]
  have hl : l ∈ masksLsb masks := by
    by_contra hnot
    refine differ (eq_of_dropAll_eq h.sorted (fun _ _ => Nat.zero_le _) dropped ?_)
    rwa [Nat.zero_add]
  obtain ⟨x, hx, rfl⟩ := mem_masksLsb.mp hl
  refine odd_ne_of_last_difference (h.nonzero x hx) differ above ?_
  exact odd_eq_of_select_eq (h.short.trans (by decide)) select_eq hx

theorem Masks.left_div (h : Masks masks m) (a : Addr) :
    (removeBits 0 (masksLsb masks) a).toNat / 2 ^ (m + 1 - masks.length)
      = a.toNat / 2 ^ (m + 1) := by
  have hlen := h.length_le
  refine Nat.eq_of_testBit_eq fun j => ?_
  rw [Nat.testBit_div_two_pow, Nat.testBit_div_two_pow]
  change (removeBits 0 (masksLsb masks) a).getLsbD _ = a.getLsbD _
  rw [h.getLsbD_removed, dropAll_above]
  · rw [length_masksLsb]
    congr 1
    omega
  · intro k hk
    have := h.lsb_le hk
    rw [length_masksLsb]
    omega

theorem Masks.left_aligned (h : Masks masks m) (aligned : 2 ^ (m + 1) ∣ a.toNat) :
    2 ^ (m + 1 - masks.length) ∣ (removeBits 0 (masksLsb masks) a).toNat := by
  refine Nat.dvd_of_mod_eq_zero (Nat.eq_of_testBit_eq fun j => ?_)
  rw [Nat.testBit_mod_two_pow, Nat.zero_testBit, Bool.and_eq_false_iff]
  by_cases hj : j < m + 1 - masks.length
  · right
    obtain ⟨i, -, hi, heq⟩ := dropAll_from 0 (masksLsb masks) a.getLsbD j
    change (removeBits 0 (masksLsb masks) a).getLsbD j = false
    rw [h.getLsbD_removed, heq]
    rw [length_masksLsb] at hi
    have hbit := Nat.testBit_mod_two_pow a.toNat (m + 1) i
    rw [Nat.mod_eq_zero_of_dvd aligned, Nat.zero_testBit] at hbit
    have him : i < m + 1 := by omega
    simpa [him, BitVec.getLsbD] using hbit.symm
  · exact Or.inl (by simpa using hj)

theorem Masks.left_lt (h : Masks masks m) (a : Addr) :
    (removeBits 0 (masksLsb masks) a).toNat < 2 ^ (64 - masks.length) := by
  have hlen := h.length_le
  have hm := h.m_lt
  have hdiv := h.left_div a
  have hshift : a.toNat / 2 ^ (m + 1) < 2 ^ (64 - (m + 1)) := by
    rw [Nat.div_lt_iff_lt_mul (Nat.two_pow_pos _), ← Nat.pow_add,
      show 64 - (m + 1) + (m + 1) = 64 by omega]
    exact a.isLt
  rw [← hdiv, Nat.div_lt_iff_lt_mul (Nat.two_pow_pos _), ← Nat.pow_add,
    show 64 - (m + 1) + (m + 1 - masks.length) = 64 - masks.length by omega] at hshift
  exact hshift

theorem Masks.surjective (h : Masks masks m) {v : Nat} (hv : v < 2 ^ (64 - masks.length))
    (hk : k < 2 ^ masks.length) :
    ∃ a : Addr, (removeBits 0 (masksLsb masks) a).toNat = v ∧ (select a 0 masks 0).toNat = k := by
  have hshort := h.short
  let pair : Fin (2 ^ 64) → Fin (2 ^ (64 - masks.length)) × Fin (2 ^ masks.length) := fun i =>
    (⟨_, h.left_lt (BitVec.ofFin i)⟩, ⟨_, select_lt (BitVec.ofFin i) (hshort.trans (by decide))⟩)
  have injective : Function.Injective pair := by
    intro i j hij
    obtain ⟨hleft, hsel⟩ := Prod.mk.inj hij
    have heq := h.injective (BitVec.eq_of_toNat_eq (Fin.mk.inj hsel))
      (BitVec.eq_of_toNat_eq (Fin.mk.inj hleft))
    simpa using heq
  have card : Fintype.card (Fin (2 ^ 64))
      = Fintype.card (Fin (2 ^ (64 - masks.length)) × Fin (2 ^ masks.length)) := by
    rw [Fintype.card_prod, Fintype.card_fin, Fintype.card_fin, Fintype.card_fin, ← Nat.pow_add,
      show 64 - masks.length + masks.length = 64 by omega]
  obtain ⟨i, hi⟩ := ((Fintype.bijective_iff_injective_and_card pair).mpr
    ⟨injective, card⟩).surjective (⟨v, hv⟩, ⟨k, hk⟩)
  obtain ⟨hleft, hsel⟩ := Prod.mk.inj hi
  exact ⟨BitVec.ofFin i, Fin.mk.inj hleft, Fin.mk.inj hsel⟩

/-- The range of match value `k`; a `uint8_t` keeps its low eight bits. -/
def interleave (start stop : Addr) (masks : List Addr) (k : Nat) : AddrRange :=
  ⟨start, stop, masks, BitVec.ofNat 8 k⟩

/-- The interleaved ranges split the interval, and each numbers its part without gaps. -/
structure Partitions (start stop : Addr) (masks : List Addr) : Prop where
  inside : ∀ k a, (interleave start stop masks k).contains a = true → start ≤ a ∧ a ≤ stop
  once : ∀ a, start ≤ a → a ≤ stop →
    ∃! k, k < 2 ^ masks.length ∧ (interleave start stop masks k).contains a = true
  offsets : ∀ k, k < 2 ^ masks.length →
    Set.BijOn (fun a => ((interleave start stop masks k).getOffset a).toNat)
      {a | (interleave start stop masks k).contains a = true}
      (Set.Iio (interleave start stop masks k).size.toNat)

theorem contains_iff {start stop : Addr} (hk : k < 2 ^ 8) (a : Addr) :
    (interleave start stop masks k).contains a = true ↔
      start ≤ a ∧ a ≤ stop ∧ (select a 0 masks 0).toNat = k := by
  have hmatch : (interleave start stop masks k).intlvMatch.setWidth 32 = BitVec.ofNat 32 k := by
    apply BitVec.eq_of_toNat_eq
    simp [interleave]
    omega
  rw [contains, Bool.and_eq_true, beq_iff_eq, hmatch, inRange, Bool.and_eq_true,
    decide_eq_true_iff, decide_eq_true_iff, and_assoc]
  refine and_congr Iff.rfl (and_congr Iff.rfl ?_)
  constructor
  · intro h
    change select a 0 masks 0 = BitVec.ofNat 32 k at h
    rw [h, BitVec.toNat_ofNat, Nat.mod_eq_of_lt (by omega)]
  · aesop

/-- The bounds of an interval that is aligned above the masks and not all of memory. -/
structure Aligned (start stop : Addr) (m : Nat) : Prop where
  start_aligned : 2 ^ (m + 1) ∣ start.toNat
  stop_aligned : 2 ^ (m + 1) ∣ stop.toNat + 1
  ordered : start.toNat ≤ stop.toNat + 1
  notWhole : ¬ (start = 0 ∧ stop = maxAddr)

variable {start stop : Addr}

theorem Aligned.length_lt (h : Aligned start stop m) : stop.toNat + 1 - start.toNat < 2 ^ 64 := by
  by_contra hge
  refine h.notWhole ⟨BitVec.eq_of_toNat_eq ?_, BitVec.eq_of_toNat_eq ?_⟩
  · change start.toNat = 0
    omega
  · simp only [maxAddr, BitVec.toNat_allOnes]
    omega

theorem Aligned.toNat_length (h : Aligned start stop m) :
    (stop - start + 1).toNat = stop.toNat + 1 - start.toNat := by
  have hlt := h.length_lt
  have hordered := h.ordered
  have one : (1 : Addr).toNat = 1 := rfl
  rw [BitVec.toNat_add, BitVec.toNat_sub, one]
  omega

theorem Masks.size (h : Masks masks m) (aligned : Aligned start stop m) (k : Nat) :
    (interleave start stop masks k).size.toNat
      = ((stop.toNat + 1) / 2 ^ (m + 1) - start.toNat / 2 ^ (m + 1))
        * 2 ^ (m + 1 - masks.length) := by
  have hlen := h.length_le
  have hP : (2 : Nat) ^ (m + 1) = 2 ^ (m + 1 - masks.length) * 2 ^ masks.length := by
    rw [← Nat.pow_add, Nat.sub_add_cancel hlen]
  change ((stop - start + 1) >>> masks.length).toNat = _
  rw [BitVec.toNat_ushiftRight, aligned.toNat_length, Nat.shiftRight_eq_div_pow]
  obtain ⟨s, hs⟩ := aligned.start_aligned
  obtain ⟨e, he⟩ := aligned.stop_aligned
  rw [hs, he, Nat.mul_div_cancel_left _ (Nat.two_pow_pos _),
    Nat.mul_div_cancel_left _ (Nat.two_pow_pos _), ← Nat.mul_sub, hP,
    Nat.mul_comm (2 ^ (m + 1 - masks.length)), Nat.mul_assoc,
    Nat.mul_div_cancel_left _ (Nat.two_pow_pos _), Nat.mul_comm]

theorem Aligned.mem_iff (h : Aligned start stop m) (a : Addr) :
    (start ≤ a ∧ a ≤ stop) ↔
      start.toNat / 2 ^ (m + 1) ≤ a.toNat / 2 ^ (m + 1) ∧
        a.toNat / 2 ^ (m + 1) < (stop.toNat + 1) / 2 ^ (m + 1) := by
  obtain ⟨s, hs⟩ := h.start_aligned
  obtain ⟨e, he⟩ := h.stop_aligned
  have pos : 0 < 2 ^ (m + 1) := Nat.two_pow_pos _
  rw [BitVec.le_def, BitVec.le_def, hs, he, Nat.mul_div_cancel_left _ pos,
    Nat.mul_div_cancel_left _ pos, Nat.le_div_iff_mul_le pos, Nat.div_lt_iff_lt_mul pos,
    Nat.mul_comm s, Nat.mul_comm e, ← he]
  omega

theorem Masks.offset (h : Masks masks m) (aligned : Aligned start stop m) (k : Nat)
    (inside : start ≤ a ∧ a ≤ stop) : ((interleave start stop masks k).getOffset a).toNat
        + start.toNat / 2 ^ (m + 1) * 2 ^ (m + 1 - masks.length)
      = (removeBits 0 (masksLsb masks) a).toNat := by
  have pos : 0 < 2 ^ (m + 1 - masks.length) := Nat.two_pow_pos _
  have hstart : (removeBits 0 (masksLsb masks) start).toNat
      = start.toNat / 2 ^ (m + 1) * 2 ^ (m + 1 - masks.length) := by
    rw [← h.left_div start, Nat.div_mul_cancel (h.left_aligned aligned.start_aligned)]
  have hle : (removeBits 0 (masksLsb masks) start).toNat
      ≤ (removeBits 0 (masksLsb masks) a).toNat := by
    rw [hstart, ← Nat.le_div_iff_mul_le pos, h.left_div]
    exact ((aligned.mem_iff a).mp inside).1
  have hin : (interleave start stop masks k).inRange a = true := by
    rw [inRange, Bool.and_eq_true, decide_eq_true_iff, decide_eq_true_iff]
    exact inside
  have hinter : (interleave start stop masks k).interleaved = true := by
    have := h.some
    cases hm : masks with
    | nil => exact absurd hm this
    | cons => rfl
  rw [getOffset, hin, hinter]
  change (removeBits 0 (masksLsb masks) a - removeBits 0 (masksLsb masks) start).toNat + _ = _
  rw [BitVec.toNat_sub_of_le hle, ← hstart]
  omega

/-- Interleaved ranges with at most eight masks partition every aligned interval short of the
whole address space, and number the addresses of each part from 0. -/
theorem interleaved_partition (h : Masks masks m) (aligned : Aligned start stop m) :
    Partitions start stop masks := by
  have pos : 0 < 2 ^ (m + 1 - masks.length) := Nat.two_pow_pos _
  have small : ∀ {k}, k < 2 ^ masks.length → k < 2 ^ 8 := fun hk =>
    hk.trans_le (Nat.pow_le_pow_right (by decide) h.short)
  refine ⟨?_, ?_, ?_⟩
  · intro k a hc
    rw [contains, Bool.and_eq_true, inRange, Bool.and_eq_true, decide_eq_true_iff,
      decide_eq_true_iff] at hc
    exact hc.1
  · intro a hstart hstop
    have hlt := select_lt a (h.short.trans (by decide))
    refine ⟨(select a 0 masks 0).toNat, ⟨hlt, ?_⟩, ?_⟩
    · exact (contains_iff (small hlt) a).mpr ⟨hstart, hstop, rfl⟩
    · rintro k ⟨hk, hc⟩
      exact ((contains_iff (small hk) a).mp hc).2.2.symm
  · intro k hk
    have blocks : ∀ a, start ≤ a ∧ a ≤ stop →
        ((interleave start stop masks k).getOffset a).toNat
            < (interleave start stop masks k).size.toNat := by
      intro a inside
      have hoff := h.offset aligned k inside
      have hblock := (aligned.mem_iff a).mp inside
      rw [← h.left_div a, Nat.div_lt_iff_lt_mul pos] at hblock
      rw [h.size aligned k, Nat.sub_mul]
      omega
    refine ⟨?_, ?_, ?_⟩
    · intro a hc
      obtain ⟨hstart, hstop, -⟩ := (contains_iff (small hk) a).mp hc
      exact blocks a ⟨hstart, hstop⟩
    · intro a ha b hb hab
      obtain ⟨hsa, hea, hka⟩ := (contains_iff (small hk) a).mp ha
      obtain ⟨hsb, heb, hkb⟩ := (contains_iff (small hk) b).mp hb
      have hoffa := h.offset aligned k ⟨hsa, hea⟩
      have hoffb := h.offset aligned k ⟨hsb, heb⟩
      have hab' : ((interleave start stop masks k).getOffset a).toNat
          = ((interleave start stop masks k).getOffset b).toNat := hab
      refine h.injective (BitVec.eq_of_toNat_eq (hka.trans hkb.symm)) (BitVec.eq_of_toNat_eq ?_)
      omega
    · intro o ho
      have hsize : o < (interleave start stop masks k).size.toNat := ho
      rw [h.size aligned k, Nat.sub_mul] at hsize
      have hstop : (stop.toNat + 1) / 2 ^ (m + 1) * 2 ^ (m + 1 - masks.length)
          ≤ 2 ^ (64 - masks.length) := by
        have hm := h.m_lt
        have hlen := h.length_le
        have hle : (stop.toNat + 1) / 2 ^ (m + 1) ≤ 2 ^ (64 - (m + 1)) := by
          refine Nat.div_le_of_le_mul ?_
          rw [← Nat.pow_add, show m + 1 + (64 - (m + 1)) = 64 by omega]
          exact stop.isLt
        refine (Nat.mul_le_mul_right _ hle).trans ?_
        rw [← Nat.pow_add]
        exact Nat.pow_le_pow_right (by decide) (by omega)
      obtain ⟨a, hleft, hsel⟩ := h.surjective
        (v := start.toNat / 2 ^ (m + 1) * 2 ^ (m + 1 - masks.length) + o) (by omega) hk
      have inside : start ≤ a ∧ a ≤ stop := by
        rw [aligned.mem_iff, ← h.left_div a, hleft]
        constructor
        · rw [Nat.le_div_iff_mul_le pos]
          omega
        · rw [Nat.div_lt_iff_lt_mul pos]
          omega
      refine ⟨a, (contains_iff (small hk) a).mpr ⟨inside.1, inside.2, hsel⟩, ?_⟩
      have hoff := h.offset aligned k inside
      change ((interleave start stop masks k).getOffset a).toNat = o
      omega

theorem interleaved_partition_xor :
    Partitions 0x40 0x7F [0x5#64, 0x6#64] := by
  have five : ctz64 0x5#64 = 0 := by decide +kernel
  have six : ctz64 0x6#64 = 1 := by decide +kernel
  refine interleaved_partition (m := 1)
    ⟨by simp, by simp, by simp, by simp [five, six], by simp [five, six], ?_⟩
    ⟨by decide, by decide, by decide, by decide⟩
  exact ⟨0x6#64, by simp, six⟩

/-- All of memory has size 0, and with nine masks the match value of some addresses does not
fit its eight bits. -/
theorem whole_memory_and_nine_masks :
    ¬ Partitions 0 maxAddr [1#64] ∧
      ¬ Partitions 0 0x1FF#64 ((List.range 9).map fun i => 1#64 <<< i) := by
  constructor
  · intro h
    have hin : (interleave 0 maxAddr [1#64] 0).contains 0 = true := by decide +kernel
    have hsize : (interleave 0 maxAddr [1#64] 0).size.toNat = 0 := by decide
    have hlt : _ < (interleave 0 maxAddr [1#64] 0).size.toNat :=
      (h.offsets 0 (by decide)).mapsTo hin
    omega
  · intro h
    obtain ⟨k, ⟨hk, hc⟩, -⟩ := h.once 0x100#64 (by decide) (by decide)
    have hsel : select 0x100#64 0 ((List.range 9).map fun i => 1#64 <<< i) 0 = 0x100#32 := by
      decide +kernel
    rw [contains, Bool.and_eq_true, beq_iff_eq] at hc
    have hmatch := hc.2
    change select 0x100#64 0 ((List.range 9).map fun i => 1#64 <<< i) 0
      = (BitVec.ofNat 8 k).setWidth 32 at hmatch
    rw [hsel] at hmatch
    have hnat := congrArg BitVec.toNat hmatch
    simp at hnat
    omega

end Gem5.Base.AddrRange
