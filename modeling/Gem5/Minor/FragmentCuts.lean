import Gem5.Minor.Fragments
import Mathlib.Data.Nat.ModEq

/-!
# Where the fragments lie

The loop of `makeFragmentRequests` visits the pieces of the access between line boundaries in
order and keeps those with an enabled byte. The end of a line is computed in 64 bits. It
wraps for the last line of the address space only, and an access that ends inside that line
gets a last fragment with the size of the line.
-/

namespace Gem5.Minor

open FlexCPU (Addr)

variable {s : FragmentLoop} {pieces : List (Nat × Nat)}

variable {p : SplitAccessParams}

namespace SplitAccessParams

/-- What the callers of a split request see to. -/
structure IsSplit (p : SplitAccessParams) : Prop where
  width : ∃ k, p.lineWidth.toNat = 2 ^ k
  needed : transferNeedsBurst p.vaddr p.size p.lineWidth
  mask : p.byteEnable = [] ∨ p.byteEnable.length = p.size.toNat
  fits : p.vaddr.toNat + p.size.toNat < 2 ^ 64

/-- The byte at an address is one of the access, and enabled. -/
def IsEnabled (p : SplitAccessParams) (y : Nat) : Prop :=
  p.vaddr.toNat ≤ y ∧ y < p.vaddr.toNat + p.size.toNat
    ∧ (p.byteEnable = [] ∨ p.byteEnable[y - p.vaddr.toNat]? = some true)

/-- The request for a piece of the access, if one is made. -/
def fragment (p : SplitAccessParams) (piece : Nat × Nat) : Option FragmentRequest :=
  let byteEnable := (p.byteEnable.drop (piece.1 - p.vaddr.toNat)).take piece.2
  if p.byteEnable.isEmpty then some ⟨.ofNat 64 piece.1, .ofNat 32 piece.2, []⟩
  else if byteEnable.any id then some ⟨.ofNat 64 piece.1, .ofNat 32 piece.2, byteEnable⟩
  else none

end SplitAccessParams

open SplitAccessParams Chunks

theorem toNat_addrBlockOffset {addr blockSize : Addr} {k : Nat} (block : blockSize.toNat = 2 ^ k) :
    (addrBlockOffset addr blockSize).toNat = addr.toNat % blockSize.toNat := by
  have pos : 1 ≤ blockSize.toNat := block ▸ Nat.two_pow_pos k
  have low : (blockSize - 1).toNat = 2 ^ k - 1 := by
    rw [← block]
    exact BitVec.toNat_sub_of_le pos
  rw [addrBlockOffset, BitVec.toNat_and, low, Nat.and_two_pow_sub_one_eq_mod, block]

theorem Size.toNat_addr (size : Size) : size.addr.toNat = size.toNat := by
  rw [Size.addr, BitVec.toNat_setWidth]
  exact Nat.mod_eq_of_lt (by omega)

namespace SplitAccessParams.IsSplit

variable (h : p.IsSplit)

include h

theorem pos : 0 < p.lineWidth.toNat := by
  obtain ⟨k, width⟩ := h.width
  exact width ▸ Nat.two_pow_pos k

theorem toNat_addrBlockOffset (addr : Addr) :
    (addrBlockOffset addr p.lineWidth.addr).toNat = addr.toNat % p.lineWidth.toNat := by
  obtain ⟨k, width⟩ := h.width
  have block : p.lineWidth.addr.toNat = 2 ^ k := (Size.toNat_addr _).trans width
  rw [Minor.toNat_addrBlockOffset block, Size.toNat_addr]

theorem width_dvd : p.lineWidth.toNat ∣ 2 ^ 64 := by
  obtain ⟨k, width⟩ := h.width
  have small := p.lineWidth.isLt
  rw [width] at small
  have less : k < 32 := (Nat.pow_lt_pow_iff_right (by decide)).mp small
  exact width ▸ Nat.pow_dvd_pow 2 (by omega)

theorem crosses : (p.vaddr.toNat / p.lineWidth.toNat + 1) * p.lineWidth.toNat < p.vaddr.toNat + p.size.toNat := by
  have offset := h.toNat_addrBlockOffset p.vaddr
  have less := Nat.mod_lt p.vaddr.toNat h.pos
  have needed := of_decide_eq_true h.needed
  have sum : (addrBlockOffset p.vaddr p.lineWidth.addr + p.size.addr).toNat
      = p.vaddr.toNat % p.lineWidth.toNat + p.size.toNat := by
    rw [BitVec.toNat_add, offset, Size.toNat_addr]
    exact Nat.mod_eq_of_lt (by omega)
  rw [BitVec.lt_def, sum, Size.toNat_addr] at needed
  have split := Nat.div_add_mod p.vaddr.toNat p.lineWidth.toNat
  rw [Nat.add_mul, Nat.one_mul, Nat.mul_comm]
  omega

theorem toNat_firstFragmentSize : p.firstFragmentSize.toNat = p.lineWidth.toNat - p.vaddr.toNat % p.lineWidth.toNat := by
  have less := Nat.mod_lt p.vaddr.toNat h.pos
  have offset : p.firstFragmentOffset.toNat = p.vaddr.toNat % p.lineWidth.toNat := by
    rw [firstFragmentOffset, BitVec.toNat_setWidth, h.toNat_addrBlockOffset]
    exact Nat.mod_eq_of_lt (by omega)
  rw [firstFragmentSize, BitVec.toNat_sub_of_le (BitVec.le_def.mpr (by omega)), offset]

theorem toNat_endAddr : p.endAddr.toNat = p.vaddr.toNat + p.size.toNat := by
  exact Nat.mod_eq_of_lt h.fits

theorem toNat_lastFragmentSize :
    p.lastFragmentSize.toNat = (p.vaddr.toNat + p.size.toNat) % p.lineWidth.toNat := by
  have less := Nat.mod_lt (p.vaddr.toNat + p.size.toNat) h.pos
  rw [lastFragmentSize, BitVec.toNat_setWidth, h.toNat_addrBlockOffset]
  rw [show (p.vaddr + p.size.addr).toNat = p.vaddr.toNat + p.size.toNat from h.toNat_endAddr]
  exact Nat.mod_eq_of_lt (by omega)

theorem exists_lines : ∃ m, (p.vaddr.toNat + p.size.toNat) / p.lineWidth.toNat
      = p.vaddr.toNat / p.lineWidth.toNat + 1 + m
    ∧ p.size.toNat = p.firstFragmentSize.toNat + p.lineWidth.toNat * m
      + p.lastFragmentSize.toNat := by
  have first := h.toNat_firstFragmentSize
  have last := h.toNat_lastFragmentSize
  have crosses := h.crosses
  have less := Nat.mod_lt p.vaddr.toNat h.pos
  have start := Nat.div_add_mod p.vaddr.toNat p.lineWidth.toNat
  have stop := Nat.div_add_mod (p.vaddr.toNat + p.size.toNat) p.lineWidth.toNat
  have further : p.vaddr.toNat / p.lineWidth.toNat + 1
      ≤ (p.vaddr.toNat + p.size.toNat) / p.lineWidth.toNat :=
    (Nat.le_div_iff_mul_le h.pos).mpr (Nat.le_of_lt crosses)
  obtain ⟨m, lines⟩ := Nat.exists_eq_add_of_le further
  refine ⟨m, lines, ?_⟩
  rw [lines, Nat.mul_add, Nat.mul_add, Nat.mul_one] at stop
  omega

theorem middle : ∃ m, (p.vaddr.toNat + p.size.toNat) / p.lineWidth.toNat
      = p.vaddr.toNat / p.lineWidth.toNat + 1 + m
    ∧ p.middleFragmentsTotalSize.toNat = p.lineWidth.toNat * m
    ∧ p.middleFragmentCount.toNat = m
    ∧ p.size.toNat = p.firstFragmentSize.toNat + p.lineWidth.toNat * m
      + p.lastFragmentSize.toNat := by
  obtain ⟨m, lines, whole⟩ := h.exists_lines
  have sum : (p.firstFragmentSize + p.lastFragmentSize).toNat
      = p.firstFragmentSize.toNat + p.lastFragmentSize.toNat :=
    BitVec.toNat_add_of_lt (by omega)
  have total : p.middleFragmentsTotalSize.toNat = p.lineWidth.toNat * m := by
    rw [middleFragmentsTotalSize, BitVec.toNat_sub_of_le (BitVec.le_def.mpr (by omega)), sum]
    omega
  refine ⟨m, lines, total, ?_, whole⟩
  rw [middleFragmentCount, BitVec.toNat_udiv, total]
  exact Nat.mul_div_cancel_left m h.pos

theorem asserts : p.asserts := by
  obtain ⟨m, -, total, count, whole⟩ := h.middle
  rw [SplitAccessParams.asserts, Bool.and_eq_true, beq_iff_eq, beq_iff_eq]
  constructor
  · apply BitVec.eq_of_toNat_eq
    rw [h.toNat_addrBlockOffset, Size.toNat_addr, total]
    exact Nat.mul_mod_right _ _
  · apply BitVec.eq_of_toNat_eq
    have lines : (p.middleFragmentCount * p.lineWidth).toNat = p.lineWidth.toNat * m := by
      rw [BitVec.toNat_mul, count, Nat.mul_comm]
      exact Nat.mod_eq_of_lt (by omega)
    have front : (p.middleFragmentCount * p.lineWidth + p.firstFragmentSize).toNat
        = p.lineWidth.toNat * m + p.firstFragmentSize.toNat := by
      rw [BitVec.toNat_add_of_lt] <;> omega
    rw [BitVec.toNat_add_of_lt] <;> omega

theorem toNat_fragmentCount : p.fragmentCount.toNat
    = count p.lineWidth.toNat p.vaddr.toNat (p.vaddr.toNat + p.size.toNat) := by
  obtain ⟨m, -, -, middle, whole⟩ := h.middle
  have small := p.size.isLt
  have first := h.toNat_firstFragmentSize
  have last := h.toNat_lastFragmentSize
  have pos := h.pos
  have start := Nat.mod_lt p.vaddr.toNat pos
  have stop := Nat.mod_lt (p.vaddr.toNat + p.size.toNat) pos
  have fewer : m ≤ p.lineWidth.toNat * m := Nat.le_mul_of_pos_left m pos
  have up : p.vaddr.toNat % p.lineWidth.toNat
        + (p.vaddr.toNat + p.size.toNat - p.vaddr.toNat) + p.lineWidth.toNat - 1
      = p.lastFragmentSize.toNat + p.lineWidth.toNat - 1 + p.lineWidth.toNat * (1 + m) := by
    rw [Nat.mul_add, Nat.mul_one]
    omega
  have front : (1 + p.middleFragmentCount).toNat = 1 + m := by grind
  have tail : (if p.lastFragmentSize = 0 then 0 else 1 : Size).toNat
      = (p.lastFragmentSize.toNat + p.lineWidth.toNat - 1) / p.lineWidth.toNat := by
    split
    next none =>
      have zero : p.lastFragmentSize.toNat = 0 := by rw [none]; rfl
      exact (Nat.div_eq_of_lt (by omega)).symm
    next some_ =>
      have one : p.lastFragmentSize.toNat ≠ 0 := fun zero => some_ (BitVec.eq_of_toNat_eq zero)
      have up : (p.lastFragmentSize.toNat + p.lineWidth.toNat - 1) / p.lineWidth.toNat = 1 :=
        Nat.div_eq_of_lt_le (by omega) (by omega)
      exact up.symm
  have room : (p.lastFragmentSize.toNat + p.lineWidth.toNat - 1) / p.lineWidth.toNat
      ≤ p.lastFragmentSize.toNat := by
    refine Nat.lt_succ_iff.mp ((Nat.div_lt_iff_lt_mul pos).mpr ?_)
    rw [Nat.succ_mul]
    have more : p.lastFragmentSize.toNat ≤ p.lastFragmentSize.toNat * p.lineWidth.toNat :=
      Nat.le_mul_of_pos_right _ pos
    omega
  rw [count, up, Nat.add_mul_div_left _ _ pos, fragmentCount, BitVec.toNat_add_of_lt, front, tail,
    Nat.add_comm]
  omega

end SplitAccessParams.IsSplit

/-- An address that the loop can be at. -/
structure SplitAccessParams.AtCut (p : SplitAccessParams) (addr : Addr) : Prop where
  low : p.vaddr.toNat ≤ addr.toNat
  start : addr = p.vaddr ∨ p.lineWidth.toNat ∣ addr.toNat
    ∨ addr.toNat = p.vaddr.toNat + p.size.toNat

namespace SplitAccessParams

/-- Where the fragment at an address ends. -/
abbrev cut (p : SplitAccessParams) (addr : Addr) : Nat :=
  nextCut p.lineWidth.toNat addr.toNat (p.vaddr.toNat + p.size.toNat)

namespace IsSplit

variable (h : p.IsSplit) {addr : Addr}

include h

omit h in
theorem atCut_vaddr : p.AtCut p.vaddr := ⟨Nat.le_refl _, .inl rfl⟩

theorem toNat_fragmentSize (at_ : p.AtCut addr) (inside : addr.toNat < p.vaddr.toNat + p.size.toNat)
    (room : addr.toNat + p.lineWidth.toNat < 2 ^ 64) :
    (p.fragmentSize addr).toNat = p.cut addr - addr.toNat := by
  by_cases first : addr = p.vaddr
  · subst first
    have split := Nat.div_add_mod p.vaddr.toNat p.lineWidth.toNat
    rw [fragmentSize, if_pos rfl, h.toNat_firstFragmentSize, cut, nextCut,
      Nat.min_eq_right (Nat.le_of_lt h.crosses), Nat.add_mul, Nat.mul_comm]
    omega
  · have aligned : p.lineWidth.toNat ∣ addr.toNat := by
      rcases at_.start with start | aligned | stop
      · exact absurd start first
      · exact aligned
      · omega
    have next : (addr.toNat / p.lineWidth.toNat + 1) * p.lineWidth.toNat
        = addr.toNat + p.lineWidth.toNat := by
      rw [Nat.add_mul, Nat.one_mul, Nat.div_mul_cancel aligned]
    have stop : (addr + p.lineWidth.addr).toNat = addr.toNat + p.lineWidth.toNat := by grind
    have test : p.endAddr < addr + p.lineWidth.addr
        ↔ p.vaddr.toNat + p.size.toNat < addr.toNat + p.lineWidth.toNat := by
      rw [BitVec.lt_def, h.toNat_endAddr, stop]
    rw [fragmentSize, if_neg first, cut, nextCut, next]
    split
    next last =>
      have left : (p.endAddr - addr).toNat = p.vaddr.toNat + p.size.toNat - addr.toNat := by
        rw [BitVec.toNat_sub_of_le, h.toNat_endAddr]
        rw [BitVec.le_def, h.toNat_endAddr]
        exact Nat.le_of_lt inside
      rw [test] at last
      rw [Nat.min_eq_left (Nat.le_of_lt last), BitVec.toNat_setWidth, left]
      exact Nat.mod_eq_of_lt (by omega)
    next middle => grind

omit h in
theorem fragmentSize_last (later : p.vaddr.toNat < addr.toNat)
    (wraps : addr.toNat + p.lineWidth.toNat = 2 ^ 64) : p.fragmentSize addr = p.lineWidth := by
  have other : addr ≠ p.vaddr := fun same => Nat.lt_irrefl _ (same ▸ later)
  have zero : (addr + p.lineWidth.addr).toNat = 0 := by
    rw [BitVec.toNat_add, Size.toNat_addr, wraps]
    exact Nat.mod_self _
  rw [fragmentSize, if_neg other]
  refine if_neg fun less => ?_
  rw [BitVec.lt_def, zero] at less
  exact Nat.not_lt_zero _ less

theorem makeFragment_eq (size : Size) (low : p.vaddr.toNat ≤ addr.toNat)
    (inside : addr.toNat + size.toNat ≤ p.vaddr.toNat + p.size.toNat) :
    p.makeFragment addr size = some (p.fragment (addr.toNat, size.toNat)) := by
  have start : (addr - p.vaddr).toNat = addr.toNat - p.vaddr.toNat :=
    BitVec.toNat_sub_of_le (BitVec.le_def.mpr low)
  rw [makeFragment, fragment, BitVec.ofNat_toNat, BitVec.ofNat_toNat, BitVec.setWidth_eq,
    BitVec.setWidth_eq]
  rcases h.mask with none | whole
  · rw [none]
    rfl
  · have slice : p.enabled addr size = some
        ((p.byteEnable.drop (addr.toNat - p.vaddr.toNat)).take size.toNat) := by
      rw [enabled, start]
      exact if_pos (by omega)
    rw [slice, Option.map_some]
    split <;> rfl

theorem turn_eq (at_ : p.AtCut s.fragmentAddr)
    (inside : s.fragmentAddr.toNat < p.vaddr.toNat + p.size.toNat)
    (room : s.fragmentAddr.toNat + p.lineWidth.toNat < 2 ^ 64) :
    ∃ s', s.turn p = some s' ∧ p.AtCut s'.fragmentAddr
      ∧ s'.fragmentAddr.toNat = p.cut s.fragmentAddr
      ∧ s'.fragmentRequests = s.fragmentRequests
        ++ (p.fragment (s.fragmentAddr.toNat, p.cut s.fragmentAddr - s.fragmentAddr.toNat)).toList
      ∧ s'.numDisabledFragments = s.numDisabledFragments
        + if (p.fragment (s.fragmentAddr.toNat,
            p.cut s.fragmentAddr - s.fragmentAddr.toNat)).isNone then 1 else 0 := by
  have size := h.toNat_fragmentSize at_ inside room
  have forward : s.fragmentAddr.toNat < p.cut s.fragmentAddr := lt_nextCut h.pos inside
  have stays : p.cut s.fragmentAddr ≤ p.vaddr.toNat + p.size.toNat := nextCut_le
  have fits := h.fits
  have made := h.makeFragment_eq (p.fragmentSize s.fragmentAddr) at_.low (by omega)
  have next : (s.fragmentAddr + (p.fragmentSize s.fragmentAddr).addr).toNat
      = p.cut s.fragmentAddr := by
    rw [BitVec.toNat_add, Size.toNat_addr, size, Nat.mod_eq_of_lt] <;> omega
  have cutNext : p.AtCut (s.fragmentAddr + (p.fragmentSize s.fragmentAddr).addr) := by
    refine ⟨by rw [next]; exact Nat.le_trans at_.low (Nat.le_of_lt forward), .inr ?_⟩
    rw [next]
    rcases Nat.le_total (p.vaddr.toNat + p.size.toNat)
      ((s.fragmentAddr.toNat / p.lineWidth.toNat + 1) * p.lineWidth.toNat) with last | middle
    · exact .inr (Nat.min_eq_left last)
    · exact .inl ⟨_, (Nat.min_eq_right middle).trans (Nat.mul_comm _ _)⟩
  rw [size] at made
  rw [FragmentLoop.turn, made]
  cases p.fragment (s.fragmentAddr.toNat, p.cut s.fragmentAddr - s.fragmentAddr.toNat) with
  | none => exact ⟨_, rfl, cutNext, next, (List.append_nil _).symm, rfl⟩
  | some => exact ⟨_, rfl, cutNext, next, rfl, (BitVec.add_zero _).symm⟩

theorem line_le (x : Nat) (below : (x / p.lineWidth.toNat + 1) * p.lineWidth.toNat < 2 ^ 64) :
    (x / p.lineWidth.toNat + 1) * p.lineWidth.toNat + p.lineWidth.toNat ≤ 2 ^ 64 := by
  obtain ⟨lines, space⟩ := h.width_dvd
  rw [space, Nat.mul_comm] at below ⊢
  have fewer := Nat.lt_of_mul_lt_mul_left below
  have more := Nat.mul_le_mul_left p.lineWidth.toNat fewer
  exact more

theorem vaddr_room : p.vaddr.toNat + p.lineWidth.toNat < 2 ^ 64 := by
  have next := lt_next h.pos p.vaddr.toNat
  have room := h.line_le _ (Nat.lt_trans h.crosses h.fits)
  omega

theorem last_line (at_ : p.AtCut addr) (inside : addr.toNat < p.vaddr.toNat + p.size.toNat)
    (full : 2 ^ 64 ≤ addr.toNat + p.lineWidth.toNat) : addr.toNat + p.lineWidth.toNat = 2 ^ 64 := by
  have room := h.vaddr_room
  rcases at_.start with rfl | ⟨line, aligned⟩ | stop
  · omega
  · obtain ⟨lines, space⟩ := h.width_dvd
    have fewer : line < lines := by
      refine Nat.lt_of_mul_lt_mul_left (a := p.lineWidth.toNat) ?_
      omega
    have more := Nat.mul_le_mul_left p.lineWidth.toNat fewer
    rw [Nat.mul_succ] at more
    omega
  · omega

end IsSplit

open FragmentLoop (loop)

theorem loop_eq (h : p.IsSplit)
    (room : p.vaddr.toNat + p.size.toNat + p.lineWidth.toNat ≤ 2 ^ 64) (at_ : p.AtCut s.fragmentAddr)
    (cut : Cut p.lineWidth.toNat s.fragmentAddr.toNat pieces (p.vaddr.toNat + p.size.toNat)) :
    ∃ s', loop p pieces.length s = some s'
      ∧ s'.fragmentRequests = s.fragmentRequests ++ pieces.filterMap p.fragment
      ∧ s'.numDisabledFragments = s.numDisabledFragments
        + .ofNat 32 (pieces.countP fun piece => (p.fragment piece).isNone) := by
  induction pieces generalizing s with
  | nil => exact ⟨s, rfl, (List.append_nil _).symm, (BitVec.add_zero _).symm⟩
  | cons piece rest ih =>
    obtain ⟨rfl, inside, tail⟩ := cut
    obtain ⟨s', turn, atNext, next, requests, disabled⟩ := h.turn_eq at_ inside (by omega)
    obtain ⟨last, run, made, dropped⟩ := ih atNext (next ▸ tail)
    refine ⟨last, ?_, ?_, ?_⟩
    · rw [List.length_cons, loop, turn]
      exact run
    · grind
    · rw [dropped, disabled, List.countP_cons, BitVec.add_assoc, BitVec.ofNat_add,
        BitVec.add_comm (BitVec.ofNat 32 _)]
      split <;> rfl

/-- When the access ends inside the last line of the address space, the loop fails or ends
with a fragment that goes on to the end of that line. -/
theorem loop_wraps (h : p.IsSplit)
    (wraps : 2 ^ 64 < p.vaddr.toNat + p.size.toNat + p.lineWidth.toNat) {s' : FragmentLoop} (at_ : p.AtCut s.fragmentAddr)
    (inside : s.fragmentAddr.toNat < p.vaddr.toNat + p.size.toNat)
    (cut : Cut p.lineWidth.toNat s.fragmentAddr.toNat pieces (p.vaddr.toNat + p.size.toNat))
    (run : loop p pieces.length s = some s') :
    ∃ f ∈ s'.fragmentRequests, f.vaddr.toNat < p.vaddr.toNat + p.size.toNat
      ∧ f.vaddr.toNat + f.size.toNat = 2 ^ 64 := by
  have fits := h.fits
  induction pieces generalizing s with
  | nil =>
    obtain stop : s.fragmentAddr.toNat = p.vaddr.toNat + p.size.toNat := cut
    omega
  | cons piece rest ih =>
    obtain ⟨rfl, -, tail⟩ := cut
    rw [List.length_cons, loop] at run
    rcases Nat.lt_or_ge (s.fragmentAddr.toNat + p.lineWidth.toNat) (2 ^ 64) with room | full
    · obtain ⟨mid, turn, atNext, next, -, -⟩ := h.turn_eq at_ inside room
      rw [turn] at run
      refine ih atNext ?_ (next ▸ tail) run
      rw [next]
      have split := Nat.div_mul_le_self s.fragmentAddr.toNat p.lineWidth.toNat
      have below := h.line_le s.fragmentAddr.toNat (by rw [Nat.add_mul]; omega)
      exact Nat.lt_of_le_of_lt (Nat.min_le_right _ _) (by omega)
    · have last := h.last_line at_ inside full
      have later : p.vaddr.toNat < s.fragmentAddr.toNat := by
        have room := h.vaddr_room
        omega
      have width := IsSplit.fragmentSize_last later last
      have nothing : rest = [] := by
        have stop : nextCut p.lineWidth.toNat s.fragmentAddr.toNat
            (p.vaddr.toNat + p.size.toNat) = p.vaddr.toNat + p.size.toNat := by
          have forward := lt_next h.pos s.fragmentAddr.toNat
          refine Nat.min_eq_left (Nat.le_of_not_lt fun beyond => ?_)
          have line := h.line_le s.fragmentAddr.toNat (by omega)
          omega
        rw [stop] at tail
        exact tail.eq_nil
      rw [nothing] at run
      rcases h.mask with none | whole
      · rw [FragmentLoop.turn, width, makeFragment, none] at run
        obtain rfl := Option.some.inj run
        exact ⟨_, List.mem_append_right _ (List.mem_singleton_self _), inside, last⟩
      · have some_ : p.byteEnable.isEmpty = false := by
          rw [List.isEmpty_eq_false_iff, ← List.length_pos_iff]
          omega
        have outside : p.enabled s.fragmentAddr p.lineWidth = none := by
          have start : (s.fragmentAddr - p.vaddr).toNat = s.fragmentAddr.toNat - p.vaddr.toNat :=
            BitVec.toNat_sub_of_le (BitVec.le_def.mpr at_.low)
          exact if_neg (by omega)
        rw [FragmentLoop.turn, width, makeFragment, some_, outside] at run
        cases run

namespace IsSplit

variable (h : p.IsSplit)

include h

theorem makeFragmentRequests_eq (room : p.vaddr.toNat + p.size.toNat + p.lineWidth.toNat ≤ 2 ^ 64)
    (cut : Cut p.lineWidth.toNat p.vaddr.toNat pieces (p.vaddr.toNat + p.size.toNat)) :
    ∃ made, p.makeFragmentRequests = some made
      ∧ made.fragmentRequests = pieces.filterMap p.fragment
      ∧ made.numFragments.toNat = made.fragmentRequests.length := by
  have crosses := h.crosses
  have forward := lt_next h.pos p.vaddr.toNat
  have turns : pieces.length = p.fragmentCount.toNat := by
    rw [h.toNat_fragmentCount, cut.length_eq h.pos (by omega)]
  obtain ⟨s, run, made, dropped⟩ := loop_eq h room (s := { fragmentAddr := p.vaddr }) atCut_vaddr cut
  have kept : pieces.length = (pieces.countP fun piece => (p.fragment piece).isNone)
      + (pieces.filterMap p.fragment).length := by
    rw [List.length_filterMap_eq_countP, List.length_eq_countP_add_countP]
    congr 2
    funext piece
    cases p.fragment piece <;> rfl
  have small := p.fragmentCount.isLt
  have numDisabled : s.numDisabledFragments.toNat
      = pieces.countP fun piece => (p.fragment piece).isNone := by
    rw [dropped.trans (BitVec.zero_add _), BitVec.toNat_ofNat]
    exact Nat.mod_eq_of_lt (by omega)
  have fewer : s.numDisabledFragments ≤ p.fragmentCount := by
    rw [BitVec.le_def]
    omega
  refine ⟨⟨p.fragmentCount - s.numDisabledFragments, s.fragmentRequests⟩, ?_, made, ?_⟩
  · rw [makeFragmentRequests, if_pos h.asserts, ← turns, run, Option.bind_some, if_pos fewer]
  · grind

end IsSplit

end SplitAccessParams

end Gem5.Minor
