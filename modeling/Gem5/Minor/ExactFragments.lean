import Gem5.Minor.FragmentCuts

/-!
# Split accesses are partitioned exactly

The fragments are the pieces of the access that have an enabled byte, and the responses to
them can be put together in any order. The one exception is an access that ends inside the
last line of the address space.
-/

namespace Gem5.Minor

open List Option BitVec

open FlexCPU (Addr)
open SplitAccessParams Chunks

def FragmentRequest.Covers (f : FragmentRequest) (y : Nat) : Prop :=
  f.vaddr.toNat ≤ y ∧ y < f.vaddr.toNat + f.size.toNat

variable {p : SplitAccessParams}

/-- The fragments cut the access at the line boundaries. -/
structure Partition (p : SplitAccessParams) (fragments : List FragmentRequest) : Prop where
  sized : ∀ f ∈ fragments, 0 < f.size.toNat
  inside : ∀ f ∈ fragments, ∀ y, f.Covers y →
    y / p.lineWidth.toNat = f.vaddr.toNat / p.lineWidth.toNat
  increasing : fragments.Pairwise fun f g => f.vaddr.toNat + f.size.toNat ≤ g.vaddr.toNat
  union : ∀ y, (∃ f ∈ fragments, f.Covers y) ↔
    p.vaddr.toNat ≤ y ∧ y < p.vaddr.toNat + p.size.toNat
      ∧ ∃ z, p.IsEnabled z ∧ z / p.lineWidth.toNat = y / p.lineWidth.toNat

namespace SplitAccessParams

variable {piece : Nat × Nat} {f : FragmentRequest}

theorem fragment_place (made : p.fragment piece = some f) :
    f.vaddr = .ofNat 64 piece.1 ∧ f.size = .ofNat 32 piece.2 := by
  unfold fragment at made
  split at made
  · grind
  · grind

theorem exists_fragment_iff (low : p.vaddr.toNat ≤ piece.1) (some_ : 0 < piece.2)
    (high : piece.1 + piece.2 ≤ p.vaddr.toNat + p.size.toNat) :
    (∃ f, p.fragment piece = some f) ↔
      ∃ z, piece.1 ≤ z ∧ z < piece.1 + piece.2 ∧ p.IsEnabled z := by
  by_cases none : p.byteEnable = []
  · have enabled : p.IsEnabled piece.1 := ⟨low, by omega, .inl none⟩
    rw [fragment, none]
    exact ⟨fun _ => ⟨piece.1, Nat.le_refl _, by omega, enabled⟩, fun _ => ⟨_, rfl⟩⟩
  · have any : ((p.byteEnable.drop (piece.1 - p.vaddr.toNat)).take piece.2).any id = true ↔
        ∃ z, piece.1 ≤ z ∧ z < piece.1 + piece.2 ∧ p.IsEnabled z := by
      rw [List.any_eq_true]
      constructor
      · rintro ⟨byte, mem, on⟩
        obtain rfl : byte = true := on
        obtain ⟨i, at_⟩ := mem_iff_getElem?.mp mem
        rw [List.getElem?_take] at at_
        split at at_
        next inside =>
          rw [List.getElem?_drop] at at_
          refine ⟨piece.1 + i, by omega, by omega, by omega, by omega, .inr ?_⟩
          rw [← at_]
          congr 1
          omega
        next => cases at_
      · rintro ⟨z, start, stop, -, -, empty | on⟩
        · exact absurd empty none
        · refine ⟨true, mem_iff_getElem?.mpr ⟨z - piece.1, ?_⟩, rfl⟩
          rw [List.getElem?_take, if_pos (by omega), List.getElem?_drop, ← on]
          congr 1
          omega
    have masked : p.byteEnable.isEmpty = false := List.isEmpty_eq_false_iff.mpr none
    rw [← any, fragment, masked]
    constructor
    · grind
    · simp_all

variable {pieces : List (Nat × Nat)}

theorem IsSplit.fragment_toNat (h : p.IsSplit)
    (cut : Cut p.lineWidth.toNat p.vaddr.toNat pieces (p.vaddr.toNat + p.size.toNat))
    (mem : piece ∈ pieces) (made : p.fragment piece = some f) :
    f.vaddr.toNat = piece.1 ∧ f.size.toNat = piece.2 := by
  obtain ⟨start, size⟩ := fragment_place made
  obtain ⟨low, some_, high, -⟩ := cut.mem h.pos mem
  have fits := h.fits
  rw [start, size, toNat_ofNat, toNat_ofNat]
  exact ⟨Nat.mod_eq_of_lt (by omega), Nat.mod_eq_of_lt (by omega)⟩

theorem IsSplit.partition (h : p.IsSplit)
    (cut : Cut p.lineWidth.toNat p.vaddr.toNat pieces (p.vaddr.toNat + p.size.toNat)) :
    Partition p (pieces.filterMap p.fragment) where
  sized := by
    intro f mem
    obtain ⟨piece, among, made⟩ := List.mem_filterMap.mp mem
    rw [(h.fragment_toNat cut among made).2]
    exact (cut.mem h.pos among).2.1
  inside := by
    intro f mem y covers
    obtain ⟨piece, among, made⟩ := List.mem_filterMap.mp mem
    obtain ⟨start, size⟩ := h.fragment_toNat cut among made
    rw [FragmentRequest.Covers, start, size] at covers
    rw [start]
    exact (((cut.mem h.pos among).2.2.2 y).mp covers).2.2
  increasing := by
    rw [pairwise_filterMap]
    refine (cut.pairwise h.pos).imp_of_mem ?_
    intro piece later amongst among after f made g made'
    obtain ⟨start, size⟩ := h.fragment_toNat cut amongst made
    rw [start, size, (h.fragment_toNat cut among made').1]
    exact after
  union := by
    intro y
    constructor
    · rintro ⟨f, mem, covers⟩
      obtain ⟨piece, among, made⟩ := List.mem_filterMap.mp mem
      obtain ⟨start, size⟩ := h.fragment_toNat cut among made
      rw [FragmentRequest.Covers, start, size] at covers
      obtain ⟨low, some_, high, chunk⟩ := cut.mem h.pos among
      obtain ⟨above, below, line⟩ := (chunk y).mp covers
      obtain ⟨z, start', stop', enabled⟩ := (exists_fragment_iff low some_ high).mp ⟨f, made⟩
      refine ⟨above, below, z, enabled, ?_⟩
      rw [((chunk z).mp ⟨start', stop'⟩).2.2, line]
    · rintro ⟨above, below, z, enabled, line⟩
      obtain ⟨piece, among, covers⟩ := cut.covers above below
      obtain ⟨low, some_, high, chunk⟩ := cut.mem h.pos among
      have place := ((chunk y).mp covers).2.2
      have also := (chunk z).mpr ⟨enabled.1, enabled.2.1, line.trans place⟩
      obtain ⟨f, made⟩ := (exists_fragment_iff low some_ high).mpr ⟨z, also.1, also.2, enabled⟩
      obtain ⟨start, size⟩ := h.fragment_toNat cut among made
      refine ⟨f, List.mem_filterMap.mpr ⟨piece, among, made⟩, ?_⟩
      rw [FragmentRequest.Covers, start, size]
      exact covers

end SplitAccessParams

theorem memcpy_eq {dst src : List DataByte} {offset size : Nat}
    (room : offset + size ≤ dst.length) (data : size ≤ src.length) :
    ∃ out, memcpy dst offset src size = some out ∧ out.length = dst.length
      ∧ ∀ i, out[i]? = if offset ≤ i ∧ i < offset + size then src[i - offset]? else dst[i]? := by
  refine ⟨_, if_pos ⟨room, data⟩, ?_, fun i => ?_⟩
  · grind
  · have front : (dst.take offset).length = offset := by
      rw [length_take]
      omega
    rw [List.append_assoc]
    rcases Nat.lt_or_ge i offset with before | after
    · rw [List.getElem?_append_left (by omega), if_neg (by omega), List.getElem?_take_of_lt before]
    · grind

/-- A response with data for a part of the access. -/
structure FragmentResponse.Answers (p : SplitAccessParams) (response : FragmentResponse) :
    Prop where
  ok : response.isError = false
  data : response.data.length = response.req.size.toNat
  low : p.vaddr.toNat ≤ response.req.vaddr.toNat
  high : response.req.vaddr.toNat + response.req.size.toNat ≤ p.vaddr.toNat + p.size.toNat

namespace SplitLoad

/-- A number of responses are still to come. -/
structure Collecting (p : SplitAccessParams) (left : Nat) (x : SplitLoad) : Prop where
  vaddr : x.vaddr = p.vaddr
  size : x.size = p.size
  buffer : (x.data.getD x.fresh).length = p.size.toNat
  packet : x.packet.length = p.size.toNat
  left : x.numRetiredFragments + left = x.numTranslatedFragments
  unskipped : x.skipped = false
  incomplete : x.complete = false

variable {x : SplitLoad} {left : Nat} {response : FragmentResponse}

theorem Collecting.memcpy_eq (h : Collecting p left x) (answers : response.Answers p) :
    ∃ buffer, memcpy (x.data.getD x.fresh) (response.req.vaddr - x.vaddr).toNat response.data
        response.req.size.toNat = some buffer ∧ buffer.length = p.size.toNat
      ∧ ∀ y, p.vaddr.toNat ≤ y → buffer[y - p.vaddr.toNat]? =
        if response.req.vaddr.toNat ≤ y ∧ y < response.req.vaddr.toNat + response.req.size.toNat
        then response.data[y - response.req.vaddr.toNat]?
        else (x.data.getD x.fresh)[y - p.vaddr.toNat]? := by
  have low := answers.low
  have high := answers.high
  have offset : (response.req.vaddr - x.vaddr).toNat
      = response.req.vaddr.toNat - p.vaddr.toNat := by
    rw [h.vaddr]
    exact toNat_sub_of_le (BitVec.le_def.mpr low)
  have room : (response.req.vaddr - x.vaddr).toNat + response.req.size.toNat
      ≤ (x.data.getD x.fresh).length := by
    rw [offset, h.buffer]
    omega
  obtain ⟨buffer, copied, length, bytes⟩ := Minor.memcpy_eq room (Nat.le_of_eq answers.data.symm)
  refine ⟨buffer, copied, length.trans h.buffer, fun y above => ?_⟩
  rw [bytes, offset]
  by_cases covers : response.req.vaddr.toNat ≤ y
      ∧ y < response.req.vaddr.toNat + response.req.size.toNat
  · grind
  · rw [if_neg covers, if_neg (by omega)]

theorem absorb_eq {buffer : List DataByte} (unskipped : x.skipped = false)
    (ok : response.isError = false)
    (copied : memcpy (x.data.getD x.fresh) (response.req.vaddr - x.vaddr).toNat response.data
      response.req.size.toNat = some buffer) :
    x.absorb response = some { x with data := some buffer } := by
  rw [absorb, unskipped, ok, if_neg Bool.false_ne_true, if_neg Bool.false_ne_true, copied]
  rfl

theorem Collecting.retireResponse_more (h : Collecting p (left + 1) x) (more : 0 < left)
    {buffer : List DataByte} (ok : response.isError = false) (length : buffer.length = p.size.toNat)
    (copied : memcpy (x.data.getD x.fresh) (response.req.vaddr - x.vaddr).toNat response.data
    response.req.size.toNat = some buffer) :
    ∃ x', x.retireResponse response = some x' ∧ Collecting p left x' ∧ x'.data = some buffer := by
  have left_ := h.left
  refine ⟨{ x with
    numRetiredFragments := x.numRetiredFragments + 1
    data := some buffer }, ?_, ⟨h.vaddr, h.size, length, h.packet, ?_, h.unskipped, h.incomplete⟩,
    rfl⟩
  · have open_ : x.numRetiredFragments + 1 ≠ x.numTranslatedFragments := by omega
    have absorbed := absorb_eq (x := { x with numRetiredFragments := x.numRetiredFragments + 1 })
      h.unskipped ok copied
    rw [retireResponse, if_pos (by omega), absorbed, bind_some]
    simp [finish, h.unskipped, h.incomplete, open_]
  · dsimp only
    omega

theorem Collecting.retireResponse_last (h : Collecting p 1 x) {buffer : List DataByte}
    (ok : response.isError = false) (length : buffer.length = p.size.toNat) (copied : memcpy
    (x.data.getD x.fresh) (response.req.vaddr - x.vaddr).toNat response.data response.req.size.toNat
    = some buffer) :
    ∃ x', x.retireResponse response = some x' ∧ x'.complete ∧ x'.packetIsResponse
      ∧ x'.packet = buffer := by
  have left_ := h.left
  have whole : memcpy x.packet 0 buffer x.size.toNat = some buffer := by
    rw [memcpy, h.size, if_pos ⟨by rw [h.packet]; omega, by omega⟩]
    rw [Nat.zero_add, take_zero, nil_append, take_of_length_le (by omega),
      drop_of_length_le (by rw [h.packet]), append_nil]
  have absorbed := absorb_eq (x := { x with numRetiredFragments := x.numRetiredFragments + 1 })
    h.unskipped ok copied
  rw [retireResponse, if_pos (by omega), absorbed, bind_some]
  simp [finish, h.unskipped, left_, whole]

theorem Collecting.retire_all {responses : List FragmentResponse} (some_ : responses ≠ [])
    (h : Collecting p responses.length x) (answers : ∀ r ∈ responses, r.Answers p)
    (apart : responses.Pairwise fun r r' => ∀ y, ¬(r.req.Covers y ∧ r'.req.Covers y)) :
    ∃ x', responses.foldlM retireResponse x = some x' ∧ x'.complete ∧ x'.packetIsResponse
      ∧ ∀ y, p.vaddr.toNat ≤ y →
        (∀ r ∈ responses, r.req.Covers y →
          x'.packet[y - p.vaddr.toNat]? = r.data[y - r.req.vaddr.toNat]?)
        ∧ ((∀ r ∈ responses, ¬r.req.Covers y) →
          x'.packet[y - p.vaddr.toNat]? = (x.data.getD x.fresh)[y - p.vaddr.toNat]?) := by
  induction responses generalizing x with
  | nil => exact absurd rfl some_
  | cons response rest ih =>
    have mine := answers response (List.mem_cons_self ..)
    obtain ⟨buffer, copied, length, bytes⟩ := h.memcpy_eq mine
    obtain ⟨others, apart⟩ := List.pairwise_cons.mp apart
    have bytes_of_covers : ∀ y, p.vaddr.toNat ≤ y → response.req.Covers y →
        buffer[y - p.vaddr.toNat]? = response.data[y - response.req.vaddr.toNat]? :=
      fun y above covers => (bytes y above).trans (if_pos covers)
    have bytes_of_not : ∀ y, p.vaddr.toNat ≤ y → ¬response.req.Covers y →
        buffer[y - p.vaddr.toNat]? = (x.data.getD x.fresh)[y - p.vaddr.toNat]? :=
      fun y above away => (bytes y above).trans (if_neg away)
    rcases Decidable.em (rest = []) with rfl | more
    · obtain ⟨x', retired, complete, isResponse, rfl⟩ :=
        h.retireResponse_last mine.ok length copied
      refine ⟨x', by rw [foldlM_cons, retired]; rfl, complete, isResponse, ?_⟩
      refine fun y above => ⟨?_, fun away => bytes_of_not y above (away _ List.mem_cons_self)⟩
      rintro r mem covers
      obtain rfl := List.mem_singleton.mp mem
      exact bytes_of_covers y above covers
    · obtain ⟨mid, retired, collecting, data⟩ := h.retireResponse_more
        (List.length_pos_iff.mpr more) mine.ok length copied
      obtain ⟨x', run, complete, isResponse, result⟩ := ih more collecting
        (fun r mem => answers r (List.mem_cons_of_mem _ mem)) apart
      refine ⟨x', by rw [foldlM_cons, retired]; exact run, complete, isResponse, ?_⟩
      refine fun y above => ⟨fun r mem covers => ?_, fun away => ?_⟩
      · grind
      · grind

end SplitLoad

/-- A split load with all of its fragments sent and no response so far. -/
structure SplitLoad.Awaits (p : SplitAccessParams) (fragments : Nat) (x : SplitLoad) : Prop where
  vaddr : x.vaddr = p.vaddr
  size : x.size = p.size
  fresh : x.fresh.length = p.size.toNat
  packet : x.packet.length = p.size.toNat
  translated : x.numTranslatedFragments = fragments
  retired : x.numRetiredFragments = 0
  unskipped : x.skipped = false
  incomplete : x.complete = false
  empty : x.data = none

/-- Responses to all fragments, in any order and without an error, give a packet with the
enabled bytes of the responses. -/
def Reassembles (p : SplitAccessParams) (fragments : List FragmentRequest) : Prop :=
  ∀ (responses : List FragmentResponse) (x : SplitLoad),
    (responses.map FragmentResponse.req).Perm fragments →
    (∀ r ∈ responses, r.isError = false ∧ r.data.length = r.req.size.toNat) →
    x.Awaits p fragments.length →
    ∃ x', responses.foldlM SplitLoad.retireResponse x = some x'
      ∧ (fragments ≠ [] → x'.complete ∧ x'.packetIsResponse)
      ∧ ∀ y, p.IsEnabled y → ∃ r ∈ responses, r.req.Covers y ∧ ∃ byte,
        r.data[y - r.req.vaddr.toNat]? = some byte
          ∧ x'.packet[y - p.vaddr.toNat]? = some byte

namespace Partition

variable {fragments : List FragmentRequest}

theorem bounds (part : Partition p fragments) {f : FragmentRequest} (mem : f ∈ fragments) :
    p.vaddr.toNat ≤ f.vaddr.toNat
      ∧ f.vaddr.toNat + f.size.toNat ≤ p.vaddr.toNat + p.size.toNat := by
  have sized := part.sized f mem
  obtain ⟨low, -, -⟩ := (part.union f.vaddr.toNat).mp ⟨f, mem, Nat.le_refl _, by omega⟩
  obtain ⟨-, high, -⟩ := (part.union (f.vaddr.toNat + f.size.toNat - 1)).mp
    ⟨f, mem, by omega, by omega⟩
  exact ⟨low, by omega⟩

theorem apart (part : Partition p fragments) :
    fragments.Pairwise fun f g => ∀ y, ¬(f.Covers y ∧ g.Covers y) := by
  refine part.increasing.imp ?_
  rintro f g after y ⟨⟨-, before⟩, behind, -⟩
  omega

theorem covers (part : Partition p fragments) {y : Nat} (enabled : p.IsEnabled y) :
    ∃ f ∈ fragments, f.Covers y :=
  (part.union y).mpr ⟨enabled.1, enabled.2.1, y, enabled, rfl⟩

theorem reassembles (part : Partition p fragments) : Reassembles p fragments := by
  intro responses x perm ok awaits
  have all : ∀ r ∈ responses, r.Answers p := by
    intro r mem
    have among := perm.subset (List.mem_map_of_mem mem)
    obtain ⟨low, high⟩ := part.bounds among
    exact ⟨(ok r mem).1, (ok r mem).2, low, high⟩
  have apart : responses.Pairwise fun r r' => ∀ y, ¬(r.req.Covers y ∧ r'.req.Covers y) := by
    have mapped := (perm.pairwise_iff fun away y both => away y both.symm).mpr part.apart
    exact List.pairwise_map.mp mapped
  have total : responses.length = fragments.length := by
    rw [← perm.length_eq, length_map]
  have answered : ∀ y, p.IsEnabled y → ∃ r ∈ responses, r.req.Covers y := by grind [covers]
  have collecting : x.Collecting p responses.length := by
    refine ⟨awaits.vaddr, awaits.size, ?_, awaits.packet, ?_, awaits.unskipped,
      awaits.incomplete⟩
    · rw [awaits.empty]
      exact awaits.fresh
    · rw [awaits.retired, awaits.translated, total, Nat.zero_add]
  rcases Decidable.em (responses = []) with rfl | some_
  · simp_all
  · obtain ⟨x', run, complete, isResponse, bytes⟩ := collecting.retire_all some_ all apart
    refine ⟨x', run, fun _ => ⟨complete, isResponse⟩, fun y enabled => ?_⟩
    obtain ⟨r, mem, covers⟩ := answered y enabled
    have there : y - r.req.vaddr.toNat < r.data.length := by
      rw [(ok r mem).2]
      have within := covers.2
      have from_ := covers.1
      omega
    refine ⟨r, mem, covers, _, List.getElem?_eq_getElem there, ?_⟩
    rw [(bytes y enabled.1).1 r mem covers, List.getElem?_eq_getElem there]

end Partition

/-- The number of the fragments is kept, they partition the access, and the responses to them
can be put together. -/
structure ExactFragments (p : SplitAccessParams) (made : MadeFragments) : Prop where
  numFragments : made.numFragments.toNat = made.fragmentRequests.length
  partition : Partition p made.fragmentRequests
  reassembles : Reassembles p made.fragmentRequests

theorem ExactFragments.room {made : MadeFragments} (h : p.IsSplit)
    (run : p.makeFragmentRequests = some made) (exact_ : ExactFragments p made) :
    p.vaddr.toNat + p.size.toNat ≤ 2 ^ 64 - p.lineWidth.toNat := by
  have crosses := h.crosses
  have forward := lt_next h.pos p.vaddr.toNat
  obtain ⟨pieces, cut⟩ := exists_cut h.pos (Nat.le_add_right p.vaddr.toNat p.size.toNat)
  by_contra wraps
  rw [makeFragmentRequests, if_pos h.asserts] at run
  obtain ⟨s, looped, kept⟩ := Option.bind_eq_some_iff.mp run
  split at kept
  next =>
    obtain rfl := Option.some.inj kept
    rw [h.toNat_fragmentCount, ← cut.length_eq h.pos (by omega)] at looped
    obtain ⟨f, mem, start, stop⟩ := loop_wraps h (by omega) (s := { fragmentAddr := p.vaddr })
      IsSplit.atCut_vaddr (by dsimp only; omega) cut looped
    have fits := h.fits
    have high := (exact_.partition.bounds mem).2
    omega
  next => cases kept

/-- Split accesses are cut and put together exactly when they end before the last line of the
address space. -/
theorem makeFragmentRequests_exact_iff (h : p.IsSplit) :
    (∃ made, p.makeFragmentRequests = some made ∧ ExactFragments p made)
      ↔ p.vaddr.toNat + p.size.toNat ≤ 2 ^ 64 - p.lineWidth.toNat := by
  have line := p.lineWidth.isLt
  constructor
  · rintro ⟨made, run, exact_⟩
    exact exact_.room h run
  · intro room
    obtain ⟨pieces, cut⟩ := exists_cut h.pos (Nat.le_add_right p.vaddr.toNat p.size.toNat)
    obtain ⟨made, run, requests, count⟩ := h.makeFragmentRequests_eq (by omega) cut
    have part : Partition p made.fragmentRequests := by
      rw [requests]
      exact h.partition cut
    exact ⟨made, run, count, part, part.reassembles⟩

/-- Eight bytes that reach into three lines, with no byte of the middle one enabled. -/
def maskedMiddle : SplitAccessParams :=
  ⟨2, 8, [true, true, false, false, false, false, true, false], 4⟩

theorem makeFragmentRequests_exact_masked :
    maskedMiddle.makeFragmentRequests = some ⟨2, [⟨2, 2, [true, true]⟩, ⟨8, 2, [true, false]⟩]⟩
      ∧ ∃ made, maskedMiddle.makeFragmentRequests = some made
        ∧ ExactFragments maskedMiddle made := by
  have split : maskedMiddle.IsSplit := ⟨⟨2, rfl⟩, by decide, .inr (by decide), by decide⟩
  exact ⟨by decide, (makeFragmentRequests_exact_iff split).mpr (by decide)⟩

/-- Sixteen bytes, the last eight of them in the last line of the address space. -/
def intoLastLine : SplitAccessParams := ⟨0xffffffffffffffb8, 16, [], 64⟩

theorem makeFragmentRequests_lastLine :
    intoLastLine.makeFragmentRequests
        = some ⟨2, [⟨0xffffffffffffffb8, 8, []⟩, ⟨0xffffffffffffffc0, 64, []⟩]⟩
      ∧ intoLastLine.IsSplit
      ∧ ¬∀ p : SplitAccessParams, p.IsSplit →
        ∃ made, p.makeFragmentRequests = some made ∧ ExactFragments p made := by
  have split : intoLastLine.IsSplit := ⟨⟨6, rfl⟩, by decide, .inl rfl, by decide⟩
  refine ⟨by decide, split, fun claim => ?_⟩
  obtain ⟨made, run, exact_⟩ := claim intoLastLine split
  exact absurd (exact_.room split run) (by decide)

end Gem5.Minor
