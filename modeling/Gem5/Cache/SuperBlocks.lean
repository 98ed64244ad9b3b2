import Gem5.Cache.CompressedTags
import Gem5.Cache.SectorPlaces

/-!
# Superblocks never exceed their capacity

The blocks that share a superblock are all compressed to their share, so the first valid one
speaks for all.
-/

namespace Gem5.Cache

namespace CompressedTags

open SectorTags (Holds Placed)

variable {blkSizeBits : Nat} {transient : Nat → Bool → Bool}

variable {g : Geometry} {numSectors : Nat} {policy : IndexingPolicy g numSectors}
  {t t' : SectorTags g numSectors} {l : Loc g numSectors}

theorem modifyBlk_blk (t : SectorTags g numSectors) (l l' : Loc g numSectors)
    (f : SubBlk → SubBlk) :
    (modifyBlk t l f).blk l' = if l' = l then f (t.blk l) else t.blk l' :=
  SectorTags.setBlk_blk t l l' (f (t.blk l))

theorem modifyBlk_tag (t : SectorTags g numSectors) (l : Loc g numSectors) (f : SubBlk → SubBlk)
    (i : Fin numSectors) : ((modifyBlk t l f).sectors i).tag = (t.sectors i).tag :=
  SectorTags.setBlk_tag t l (f (t.blk l)) i

theorem placed_modifyBlk (h : Placed policy t) {f : SubBlk → SubBlk} (same : (f (t.blk l)).valid =
    (t.blk l).valid ∧ (f (t.blk l)).tag = (t.blk l).tag ∧ (f (t.blk l)).secure = (t.blk l).secure)
    (clear : (t.blk l).Clear → (f (t.blk l)).Clear) : Placed policy (modifyBlk t l f) :=
  h.setBlk same clear

/-- Compressed blocks have at most their share, and blocks that share a superblock are
compressed. -/
structure Packed (t : SectorTags g numSectors) : Prop where
  sizes : ∀ l, (t.blk l).valid = true → (t.blk l).compressed = true →
    (t.blk l).sizeBits ≤ SuperBlk.share g
  pairs : ∀ l l', l.1 = l'.1 → l ≠ l' → (t.blk l).valid = true → (t.blk l').valid = true →
    (t.blk l).compressed = true

/-- One block changes and others may become invalid; the changed one is compressed to its share,
with compressed neighbours, or alone. -/
theorem Packed.change (h : Packed t) (l : Loc g numSectors)
    (others : ∀ l', l' ≠ l → (t'.blk l').valid = true → t'.blk l' = t.blk l') (own : (t'.blk
    l).valid = true → (t'.blk l).compressed = true → (t'.blk l).sizeBits ≤ SuperBlk.share g) (shared
    : (t'.blk l).valid = true → ∀ l', l' ≠ l → l'.1 = l.1 → (t'.blk l').valid = true → (t'.blk
    l).compressed = true ∧ (t.blk l').compressed = true) : Packed t' := by
  constructor
  · intro d valid compressed
    by_cases hd : d = l
    · grind
    · have same := others d hd valid
      rw [same] at valid compressed ⊢
      exact h.sizes d valid compressed
  · intro d d' sector hne valid valid'
    by_cases hd : d = l
    · grind
    · have same := others d hd valid
      by_cases hd' : d' = l
      · grind
      · have same' := others d' hd' valid'
        rw [same] at valid ⊢
        rw [same'] at valid'
        exact h.pairs d d' sector hne valid valid'

theorem Packed.isCompressed (h : Packed t) {i : Fin numSectors}
    {ignored : Option (Fin g.numBlocksPerSector)}
    (compressed : SuperBlk.isCompressed (t.sectors i) ignored = true)
    {k : Fin g.numBlocksPerSector} (valid : (t.blk (i, k)).valid = true)
    (counts : some k ≠ ignored) : (t.blk (i, k)).compressed = true := by
  rw [SuperBlk.isCompressed] at compressed
  split at compressed
  · rename_i k₀ found
    have first := List.find?_some found
    simp only [Bool.and_eq_true] at first
    by_cases hk : k = k₀
    · rw [hk]
      exact compressed
    · exact h.pairs (i, k) (i, k₀) rfl (by simp [hk]) valid first.1
  · rename_i none
    have missed := List.find?_eq_none.mp none k (List.mem_finRange k)
    have valid' : ((t.sectors i).blks k).valid = true := valid
    simp [valid', counts] at missed

theorem isCompressed_congr {i : Fin numSectors} (same : ∀ k, (t'.blk (i, k)).valid = (t.blk (i,
    k)).valid ∧ (t'.blk (i, k)).compressed = (t.blk (i, k)).compressed)
    (ignored : Option (Fin g.numBlocksPerSector)) :
    SuperBlk.isCompressed (t'.sectors i) ignored = SuperBlk.isCompressed (t.sectors i) ignored := by
  have blks : ∀ k, ((t'.sectors i).blks k).valid = ((t.sectors i).blks k).valid ∧
      ((t'.sectors i).blks k).compressed = ((t.sectors i).blks k).compressed := same
  rw [SuperBlk.isCompressed, SuperBlk.isCompressed]
  simp [blks]

theorem packed_init : Packed (SectorTags.tagsInit : SectorTags g numSectors) := by
  constructor
  · intro l valid
    cases valid
  · intro l l' _ _ valid
    cases valid

theorem Packed.fewer (h : Packed t)
    (same : ∀ l, (t'.blk l).valid = true → t'.blk l = t.blk l) : Packed t' := by
  constructor
  · intro l valid compressed
    have eq := same l valid
    rw [eq] at valid compressed ⊢
    exact h.sizes l valid compressed
  · intro l l' sector hne valid valid'
    have eq := same l valid
    have eq' := same l' valid'
    rw [eq] at valid ⊢
    rw [eq'] at valid'
    exact h.pairs l l' sector hne valid valid'

theorem Packed.invalidate (h : Packed t) (ok : t.invalidate l = .ok t') : Packed t' := by
  refine h.fewer fun l' valid => ?_
  rw [SectorTags.invalidate_blk ok] at valid ⊢
  by_cases hl : l' = l
  · rw [if_pos hl] at valid
    cases valid
  · rw [if_neg hl]

variable {addr : Nat} {isSecure : Bool}

/-- The victim of a miss: a place in a superblock that can be shared, or one of a superblock that
is evicted. -/
theorem findVictim_ok {compressedSize : Nat} {choice : Fin numSectors}
    {evictBlks : List (Loc g numSectors)} (candidate : choice ∈ policy.getPossibleEntries addr)
    (ok : findVictim policy t addr isSecure compressedSize choice = .ok (l, evictBlks)) :
    (l.1 ∈ policy.getPossibleEntries addr ∧ l.2 = g.extractSectorOffset addr) ∧
      ((evictBlks = [] ∧ (t.sectors l.1).tag = policy.extractTag addr ∧
          (t.blk l).valid = false ∧ SuperBlk.isCompressed (t.sectors l.1) none = true ∧
          SuperBlk.canCoAllocate g compressedSize = true) ∨
        ∀ k, (l.1, k) ∈ evictBlks) := by
  rw [findVictim] at ok
  split at ok
  · grind
  · grind

theorem insertBlock_ok (ok : insertBlock policy t addr isSecure l = .ok t') :
    ∃ r, t.insertBlock policy addr isSecure l = .ok r ∧
      t' = modifyBlk r l fun b => { b with
        compressed := SuperBlk.isCompressed (t.sectors l.1) none &&
          SuperBlk.canCoAllocate g (t.blk l).sizeBits } := by
  rw [insertBlock] at ok
  split at ok
  · cases ok
  · grind

theorem Packed.evict (h : Packed t) {evictBlks : List (Loc g numSectors)}
    (ok : t.evict evictBlks = .ok t') : Packed t' :=
  h.fewer fun l valid => (SectorTags.evict_blk ok l).2.2 valid

/-- A place for the address that no valid block takes: the superblock can be shared, or it has
no valid block. -/
structure Room (policy : IndexingPolicy g numSectors) (t : SectorTags g numSectors)
    (l : Loc g numSectors) (addr blkSizeBits : Nat) : Prop where
  place : l.1 ∈ policy.getPossibleEntries addr ∧ l.2 = g.extractSectorOffset addr
  free : (t.blk l).valid = false
  joins : ((t.sectors l.1).tag = policy.extractTag addr ∧
      SuperBlk.isCompressed (t.sectors l.1) none = true ∧
      SuperBlk.canCoAllocate g blkSizeBits = true) ∨
    ∀ k, (t.blk (l.1, k)).valid = false

theorem Room.resize (room : Room policy t l addr blkSizeBits) :
    Room policy (modifyBlk t l fun b => { b with sizeBits := blkSizeBits }) l addr
      blkSizeBits := by
  have same : ∀ k, ((modifyBlk t l fun b => { b with sizeBits := blkSizeBits }).blk
      (l.1, k)).valid = (t.blk (l.1, k)).valid ∧
      ((modifyBlk t l fun b => { b with sizeBits := blkSizeBits }).blk (l.1, k)).compressed
        = (t.blk (l.1, k)).compressed := by
    intro k
    rw [modifyBlk_blk]
    split
    · rename_i hl
      rw [hl]
      exact ⟨rfl, rfl⟩
    · exact ⟨rfl, rfl⟩
  refine ⟨room.place, (same l.2).1.trans room.free, ?_⟩
  rcases room.joins with ⟨tag, compressed, fits⟩ | idle
  · grind [modifyBlk_tag, isCompressed_congr]
  · exact Or.inr fun k => (same k).1.trans (idle k)

theorem insertBlock_keeps (placed : Placed policy t) (packed : Packed t)
    (room : Room policy t l addr blkSizeBits) (sized : (t.blk l).sizeBits = blkSizeBits)
    (miss : ∀ l', Holds policy t l' addr → (t.blk l').valid = true → (t.blk l').secure ≠ isSecure)
    (ok : insertBlock policy t addr isSecure l = .ok t') : Placed policy t' ∧ Packed t' := by
  obtain ⟨r, inserted, rfl⟩ := insertBlock_ok ok
  have blks := SectorTags.insertBlock_blk inserted
  have placedR : Placed policy r := by
    refine placed.insertBlock inserted room.place miss fun k valid => ?_
    rcases room.joins with ⟨tag, -⟩ | idle
    · exact tag
    · rw [idle k] at valid
      cases valid
  have valid : (r.blk l).valid = true := by
    rw [blks, if_pos rfl]
  constructor
  · refine placed_modifyBlk placedR ⟨rfl, rfl, rfl⟩ fun clear => ?_
    rw [clear.1] at valid
    cases valid
  · refine packed.change l ?_ ?_ ?_
    · intro l' hl _
      rw [modifyBlk_blk, if_neg hl, blks, if_neg hl]
    · simp [modifyBlk_blk, blks, SuperBlk.canCoAllocate]
    · intro _ l' hl sector valid'
      rw [modifyBlk_blk, if_neg hl, blks, if_neg hl] at valid'
      have beside : l' = (l.1, l'.2) := by rw [← sector]
      rw [beside] at valid'
      rcases room.joins with ⟨-, compressed, fits⟩ | idle
      · rw [modifyBlk_blk, if_pos rfl, beside]
        refine ⟨?_, packed.isCompressed compressed valid' (by simp)⟩
        simp [compressed, sized, fits]
      · rw [idle l'.2] at valid'
        cases valid'

theorem allocateBlock_keeps {choice : Fin numSectors} {r : Option (Loc g numSectors)}
    (placed : Placed policy t) (packed : Packed t) (miss : t.findBlock policy addr isSecure = none)
    (candidate : choice ∈ policy.getPossibleEntries addr)
    (ok : allocateBlock policy t transient addr isSecure blkSizeBits choice = .ok (r, t')) :
    Placed policy t' ∧ Packed t' := by
  rw [allocateBlock] at ok
  split at ok
  · cases ok
  · rename_i l evictBlks victim
    obtain ⟨place, joins⟩ := findVictim_ok candidate victim
    split at ok
    · cases ok
      exact ⟨placed, packed⟩
    · split at ok
      · cases ok
      · rename_i t₁ evicted
        dsimp only at ok
        have room : Room policy t₁ l addr blkSizeBits := by
          rcases joins with ⟨rfl, tag, free, compressed, fits⟩ | all
          · cases evicted
            exact ⟨place, free, Or.inl ⟨tag, compressed, fits⟩⟩
          · have gone : ∀ k, (t₁.blk (l.1, k)).valid = false :=
              fun k => (SectorTags.evict_blk evicted (l.1, k)).1 (all k)
            exact ⟨place, gone l.2, Or.inr gone⟩
        have placed₁ := placed.evict evicted
        have packed₁ := packed.evict evicted
        have others : ∀ l', ((modifyBlk t₁ l fun b => { b with sizeBits := blkSizeBits }).blk
            l').valid = true →
            (modifyBlk t₁ l fun b => { b with sizeBits := blkSizeBits }).blk l' = t₁.blk l' := by
          intro l' valid
          rw [modifyBlk_blk] at valid ⊢
          by_cases hl : l' = l
          · grind [room.free]
          · rw [if_neg hl]
        split at ok
        · cases ok
        · rename_i inserted
          cases ok
          refine insertBlock_keeps (placed_modifyBlk placed₁ ⟨rfl, rfl, rfl⟩ id)
            (packed₁.fewer others) room.resize ?_ ?_ inserted
          · rw [modifyBlk_blk, if_pos rfl]
          · intro l' holds valid
            have same := others l' valid
            rw [same] at valid ⊢
            exact SectorTags.miss_evict miss evicted
              (holds.of_tag (modifyBlk_tag t₁ l _ l'.1).symm) valid

theorem mem_coAllocated {l l' : Loc g numSectors} :
    l' ∈ coAllocated t l ↔ l'.1 = l.1 ∧ l' ≠ l ∧ (t.blk l').valid = true := by
  rw [coAllocated, List.mem_map]
  constructor
  · grind
  · grind

theorem packed_resized (packed : Packed t) {compressed : Bool} {sizeBits : Nat}
    (others : ∀ l', l' ≠ l → (t'.blk l').valid = true → t'.blk l' = t.blk l')
    (own : t'.blk l = { t.blk l with compressed := compressed, sizeBits := sizeBits })
    (fits : compressed = true → sizeBits ≤ SuperBlk.share g)
    (beside : ∀ l', l' ≠ l → l'.1 = l.1 → (t'.blk l').valid = true →
      compressed = true ∧ (t.blk l').compressed = true) : Packed t' := by
  refine packed.change l others ?_ ?_
  · grind
  · grind

theorem updateCompressionData_keeps {compressionSize : Nat}
    {done : Bool} (placed : Placed policy t) (packed : Packed t) (valid : (t.blk l).valid = true)
    (ok : updateCompressionData policy t transient l compressionSize = .ok (done, t')) :
    Placed policy t' ∧ (done = true → Packed t') ∧
      (done = false → ∀ l', l' ≠ l → t'.blk l' = t.blk l') := by
  have modified (compressed : Bool) (sizeBits : Nat) : Placed policy (modifyBlk t l fun b =>
      { b with compressed := compressed, sizeBits := sizeBits }) := by
    refine placed_modifyBlk placed ⟨rfl, rfl, rfl⟩ fun clear => ?_
    rw [clear.1] at valid
    cases valid
  rw [updateCompressionData] at ok
  generalize joins : (SuperBlk.isCompressed (t.sectors l.1) (some l.2) &&
    SuperBlk.canCoAllocate g compressionSize) = co at ok
  have fits : co = true → compressionSize ≤ SuperBlk.share g := by
    intro flagged
    rw [flagged, Bool.and_eq_true] at joins
    simpa [SuperBlk.canCoAllocate] using joins.2
  have friends : co = true → ∀ l', l' ≠ l → l'.1 = l.1 → (t.blk l').valid = true →
      (t.blk l').compressed = true := by
    intro flagged l' hl sector valid'
    rw [flagged, Bool.and_eq_true] at joins
    have beside : l' = (l.1, l'.2) := by rw [← sector]
    rw [beside] at valid' ⊢
    refine packed.isCompressed joins.1 valid' fun hk => hl ?_
    rw [beside, Option.some.inj hk]
  have kept : ∀ l', l' ≠ l → (modifyBlk t l fun b =>
      { b with compressed := co, sizeBits := compressionSize }).blk l' = t.blk l' := by
    intro l' hl
    rw [modifyBlk_blk, if_neg hl]
  have own : (modifyBlk t l fun b =>
      { b with compressed := co, sizeBits := compressionSize }).blk l
      = { t.blk l with compressed := co, sizeBits := compressionSize } := by
    rw [modifyBlk_blk, if_pos rfl]
  split at ok
  · rename_i expands
    split at ok
    · cases ok
      refine ⟨modified _ _, by simp, fun _ l' hl => ?_⟩
      rw [modifyBlk_blk, if_neg hl]
    · split at ok
      · cases ok
      · rename_i evicted
        cases ok
        have notListed : l ∉ coAllocated t l := fun listed => (mem_coAllocated.mp listed).2.1 rfl
        refine ⟨(modified _ _).evict evicted, fun _ => ?_, by simp⟩
        refine packed_resized (l := l) packed (fun l' hl valid' => ?_) ?_ fits
          fun l' hl sector valid' => ?_
        · exact ((SectorTags.evict_blk evicted l').2.2 valid').trans (kept l' hl)
        · exact ((SectorTags.evict_blk evicted l).2.1 notListed).trans own
        · have same := (SectorTags.evict_blk evicted l').2.2 valid'
          have listed : l' ∈ coAllocated t l := by
            rw [same, kept l' hl] at valid'
            exact mem_coAllocated.mpr ⟨sector, hl, valid'⟩
          rw [(SectorTags.evict_blk evicted l').1 listed] at valid'
          cases valid'
  · rename_i stays
    cases ok
    refine ⟨modified _ _, fun _ => ?_, by simp⟩
    refine packed_resized (l := l) packed (fun l' hl _ => kept l' hl) own fits
      fun l' hl sector valid' => ?_
    rw [kept l' hl] at valid'
    have flagged : co = true := by
      have both := packed.pairs l l' sector.symm (Ne.symm hl) valid valid'
      simpa [both] using stays
    exact ⟨flagged, friends flagged l' hl sector valid'⟩

theorem overwrite_keeps {compressionSize : Nat}
    (placed : Placed policy t) (packed : Packed t) (valid : (t.blk l).valid = true)
    (ok : overwrite policy t transient l compressionSize = .ok t') :
    Placed policy t' ∧ Packed t' := by
  rw [overwrite] at ok
  split at ok
  · cases ok
  · grind [updateCompressionData_keeps]
  · rename_i updated
    obtain ⟨placed', -, kept⟩ := updateCompressionData_keeps placed packed valid updated
    refine ⟨placed'.invalidate ok, packed.fewer fun l' valid' => ?_⟩
    rw [SectorTags.invalidate_blk ok] at valid' ⊢
    by_cases hl : l' = l
    · rw [if_pos hl] at valid'
      cases valid'
    · rw [if_neg hl]
      exact kept rfl l' hl

theorem Reachable.keeps (run : Reachable policy t) : Placed policy t ∧ Packed t := by
  induction run with
  | init => exact ⟨SectorTags.placed_init, packed_init⟩
  | @step t t' e _ takes ok ih =>
    obtain ⟨placed, packed⟩ := ih
    cases e with
    | allocate transient addr isSecure blkSizeBits choice =>
      rw [CompressedTags.step] at ok
      split at ok
      · cases ok
      · rename_i allocated
        cases ok
        exact allocateBlock_keeps placed packed takes.1 takes.2 allocated
    | overwrite => exact overwrite_keeps placed packed takes ok
    | invalidate => exact ⟨placed.invalidate ok, packed.invalidate ok⟩

/-- Two valid blocks of a superblock are compressed to their share. -/
def WithinCapacity (t : SectorTags g numSectors) : Prop :=
  ∀ l l', l.1 = l'.1 → l ≠ l' → (t.blk l).valid = true → (t.blk l').valid = true →
    (t.blk l).compressed = true ∧ (t.blk l).sizeBits ≤ SuperBlk.share g

/-- An allocation that returns no block leaves the tags and the blocks. -/
def FailsClean (policy : IndexingPolicy g numSectors) (t : SectorTags g numSectors) : Prop :=
  ∀ transient addr isSecure blkSizeBits choice t',
    allocateBlock policy t transient addr isSecure blkSizeBits choice = .ok (none, t') → t' = t

/-- A block address is valid in one superblock at most, in each security space. -/
def OneSuperblock (policy : IndexingPolicy g numSectors) (t : SectorTags g numSectors) : Prop :=
  ∀ l l', (t.blk l).valid = true → (t.blk l').valid = true →
    t.regenerateBlkAddr policy l = t.regenerateBlkAddr policy l' →
    (t.blk l).secure = (t.blk l').secure → l.1 = l'.1

theorem failsClean (policy : IndexingPolicy g numSectors) (t : SectorTags g numSectors) :
    FailsClean policy t := by
  intro transient addr isSecure blkSizeBits choice t' ok
  rw [allocateBlock] at ok
  split at ok
  · cases ok
  · grind

/-- In every reachable state the superblocks are within their capacity, a block address is valid
in one of them at most, and a failed allocation changes nothing. -/
theorem reachable_withinCapacity (run : Reachable policy t) :
    WithinCapacity t ∧ OneSuperblock policy t ∧ FailsClean policy t := by
  obtain ⟨placed, packed⟩ := run.keeps
  refine ⟨fun l l' sector hne valid valid' => ?_, fun l l' valid valid' same secure => ?_,
    failsClean policy t⟩
  · have compressed := packed.pairs l l' sector hne valid valid'
    exact ⟨compressed, packed.sizes l valid compressed⟩
  · rw [placed.blkAddr_unique valid valid' same secure]

/-- An address of both security spaces is valid in two superblocks. -/
theorem secure_alias :
    ¬ ∀ (g : Geometry) (numSectors : Nat) (policy : IndexingPolicy g numSectors)
      (t : SectorTags g numSectors), Reachable policy t →
      WithinCapacity t ∧ (∀ l l', (t.blk l).valid = true → (t.blk l').valid = true →
        t.regenerateBlkAddr policy l = t.regenerateBlkAddr policy l' → l.1 = l'.1) ∧
        FailsClean policy t := by
  intro claim
  have first : Reachable (SetAssociative.policy ⟨6, 1⟩ 1 2) _ :=
    .step (e := .allocate (fun _ _ => false) 0x1000 false 100 0) .init ⟨by decide, by decide⟩ rfl
  have second := Reachable.step (e := .allocate (fun _ _ => false) 0x1000 true 100 1) first
    ⟨by decide, by decide⟩ rfl
  have one := (claim _ _ _ _ second).2.1 (0, ⟨0, by decide⟩) (1, ⟨0, by decide⟩) (by decide)
    (by decide) (by decide)
  exact absurd one (by decide)

/-- Two blocks share a superblock until one of them grows. -/
theorem reachable_withinCapacity_pair :
    ∃ t : SectorTags ⟨6, 1⟩ (2 ^ 1 * 2), Reachable (SetAssociative.policy ⟨6, 1⟩ 1 2) t ∧
      ((t.blk (0, ⟨0, by decide⟩)).valid = true ∧ (t.blk (0, ⟨1, by decide⟩)).valid = true) ∧
        WithinCapacity t ∧ OneSuperblock (SetAssociative.policy ⟨6, 1⟩ 1 2) t ∧
        FailsClean (SetAssociative.policy ⟨6, 1⟩ 1 2) t := by
  have first : Reachable (SetAssociative.policy ⟨6, 1⟩ 1 2) _ :=
    .step (e := .allocate (fun _ _ => false) 0x1000 false 100 0) .init ⟨by decide, by decide⟩ rfl
  have second := Reachable.step (e := .allocate (fun _ _ => false) 0x1040 false 200 0) first
    ⟨by decide, by decide⟩ rfl
  exact ⟨_, second, by decide, reachable_withinCapacity second⟩

end CompressedTags

end Gem5.Cache
