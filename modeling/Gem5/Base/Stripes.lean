import Gem5.Base.Interleaving

/-!
# Stripes of consecutive bits

When the lowest bits of the masks are consecutive, a stripe takes one address for everything
that is below and above these bits.
-/

namespace Gem5.Base.AddrRange

open DropBits BitVec

variable {masks : List Addr} {b n : Nat} {a e : Addr}

/-- Every bit from `b` on below `b + n` is the lowest one of a mask. -/
def Consecutive (masks : List Addr) (b n : Nat) : Prop :=
  ∀ l, b ≤ l → l < b + n → ∃ x ∈ masks, ctz64 x = l

theorem testBit_of_mod_eq {x y l : Nat} (same : x % 2 ^ b = y % 2 ^ b) (below : l < b) :
    x.testBit l = y.testBit l := by
  have bit := congrArg (fun z => z.testBit l) same
  simpa only [Nat.testBit_mod_two_pow, decide_eq_true below, Bool.true_and] using bit

theorem testBit_of_div_eq {x y l : Nat} (same : x / 2 ^ b = y / 2 ^ b) (above : b ≤ l) :
    x.testBit l = y.testBit l := by
  have bit := congrArg (fun z => z.testBit (l - b)) same
  simp only [Nat.testBit_div_two_pow, Nat.sub_add_cancel above] at bit
  exact bit

theorem Consecutive.eq_of_select (lsbs : Consecutive masks b n) (fits : b + n ≤ 64)
    (short : masks.length ≤ 32) (low : a.toNat % 2 ^ b = e.toNat % 2 ^ b)
    (high : a.toNat / 2 ^ (b + n) = e.toNat / 2 ^ (b + n))
    (selects : select a 0 masks 0 = select e 0 masks 0) : a = e := by
  by_contra other
  have differs : a.getLsbD ≠ e.getLsbD := fun same =>
    other (eq_of_getLsbD_eq fun i _ => congrFun same i)
  obtain ⟨l, differ, above⟩ := last_difference (w := 64) differs fun j outside => by
    rw [getLsbD_of_ge a j outside, getLsbD_of_ge e j outside]
  have from_b : b ≤ l := by
    by_contra below
    exact differ (testBit_of_mod_eq low (Nat.lt_of_not_le below))
  have below : l < b + n := by
    by_contra from_
    exact differ (testBit_of_div_eq high (Nat.le_of_not_lt from_))
  obtain ⟨x, mem, rfl⟩ := lsbs l from_b below
  have nonzero : x ≠ 0 := by
    rintro rfl
    have zero : ctz64 0 = 64 := by decide
    omega
  exact odd_ne_of_last_difference nonzero differ above (odd_eq_of_select_eq short selects mem)

theorem Consecutive.exists_select (lsbs : Consecutive masks b n) (fits : b + n ≤ 64)
    (length : masks.length = n) (short : n ≤ 32) {low high k : Nat} (below : low < 2 ^ b)
    (above : high < 2 ^ (64 - (b + n))) (selects : k < 2 ^ n) :
    ∃ a : Addr, a.toNat % 2 ^ b = low ∧ a.toNat / 2 ^ (b + n) = high ∧
      (select a 0 masks 0).toNat = k := by
  have short' : masks.length ≤ 32 := length ▸ short
  let word : Fin (2 ^ n) → Nat := fun mid => low + 2 ^ b * (mid.val + 2 ^ n * high)
  have lowest : ∀ mid, word mid % 2 ^ b = low := fun mid => by
    rw [Nat.add_mul_mod_self_left, Nat.mod_eq_of_lt below]
  have middle : ∀ mid, word mid / 2 ^ b = mid.val + 2 ^ n * high := fun mid => by
    rw [Nat.add_mul_div_left _ _ (Nat.two_pow_pos b), Nat.div_eq_of_lt below, Nat.zero_add]
  have highest : ∀ mid, word mid / 2 ^ (b + n) = high := fun mid => by
    rw [Nat.pow_add, ← Nat.div_div_eq_div_mul, middle,
      Nat.add_mul_div_left _ _ (Nat.two_pow_pos n), Nat.div_eq_of_lt mid.isLt, Nat.zero_add]
  have small : ∀ mid, word mid < 2 ^ 64 := fun mid => by
    have whole : (2 : Nat) ^ 64 = 2 ^ (64 - (b + n)) * 2 ^ (b + n) := by
      rw [← Nat.pow_add, Nat.sub_add_cancel fits]
    rw [whole, ← Nat.div_lt_iff_lt_mul (Nat.two_pow_pos _), highest]
    exact above
  have toNat : ∀ mid, (BitVec.ofNat 64 (word mid)).toNat = word mid := fun mid => by
    rw [toNat_ofNat, Nat.mod_eq_of_lt (small mid)]
  let chosen : Fin (2 ^ n) → Fin (2 ^ n) := fun mid =>
    ⟨(select (BitVec.ofNat 64 (word mid)) 0 masks 0).toNat, length ▸ select_lt _ short'⟩
  have injective : Function.Injective chosen := by
    intro mid mid' same
    have eq := lsbs.eq_of_select fits short' (a := BitVec.ofNat 64 (word mid))
      (e := BitVec.ofNat 64 (word mid')) (by rw [toNat, toNat, lowest, lowest])
      (by rw [toNat, toNat, highest, highest]) (eq_of_toNat_eq (Fin.mk.inj same))
    have words := congrArg (fun x : Addr => x.toNat / 2 ^ b) eq
    rw [toNat, toNat, middle, middle] at words
    exact Fin.ext (Nat.add_right_cancel words)
  obtain ⟨mid, hit⟩ := Finite.surjective_of_injective injective ⟨k, selects⟩
  exact ⟨BitVec.ofNat 64 (word mid), by rw [toNat, lowest], by rw [toNat, highest],
    Fin.mk.inj hit⟩

theorem contains_iff_div {r : AddrRange} {length top : Nat}
    (size : (r.stop - r.start + 1).toNat = length) (some_ : 0 < length) (whole : length ∣ 2 ^ 64)
    (start : r.start.toNat = top * length) : (top + 1) * length ≤ 2 ^ 64 ∧
      ∀ a, r.contains a = true ↔ a.toNat / length = top ∧
        (select a 0 r.masks 0).toNat = r.intlvMatch.toNat := by
  obtain ⟨count, total⟩ := whole
  have room : (top + 1) * length ≤ 2 ^ 64 := by
    have below := r.start.isLt
    rw [start, total, Nat.mul_comm length] at below
    rw [total, Nat.mul_comm length]
    exact Nat.mul_le_mul_right _ ((Nat.mul_lt_mul_right some_).mp below)
  have next : (top + 1) * length = top * length + length := by rw [Nat.add_mul, Nat.one_mul]
  have stop : r.stop.toNat = top * length + length - 1 := by
    have back : r.stop = r.start + ((r.stop - r.start + 1) - 1) := by
      rw [BitVec.add_sub_cancel, BitVec.add_comm, BitVec.sub_add_cancel]
    have one : (1 : Addr) ≤ r.stop - r.start + 1 := by
      rw [le_def, size]
      exact some_
    rw [back, toNat_add, toNat_sub_of_le one, size, start,
      show BitVec.toNat (1 : Addr) = 1 from rfl, Nat.mod_eq_of_lt (by omega)]
    omega
  refine ⟨room, fun a => ?_⟩
  have matched : select a 0 r.masks 0 = r.intlvMatch.setWidth 32
      ↔ (select a 0 r.masks 0).toNat = r.intlvMatch.toNat := by
    rw [← toNat_inj, toNat_setWidth_of_le (by decide)]
  rw [contains, Bool.and_eq_true, beq_iff_eq, matched, inRange, Bool.and_eq_true,
    decide_eq_true_iff, decide_eq_true_iff, le_def, le_def, start, stop]
  rw [Nat.div_eq_iff some_]

end Gem5.Base.AddrRange
