import Gem5.Cache.SectorTags

/-!
# Where the valid blocks of a sector cache are

A valid block holds an address: the policy lists its sector for it, the sector has the address's
tag, and the block has its offset. A block is inserted only for an address that `findBlock` does
not find, so no address is held twice in one security space.
-/

namespace Gem5.Cache

/-- No status bit is set. -/
def SubBlk.Clear (b : SubBlk) : Prop :=
  b.valid = false ∧ b.secure = false ∧ b.compressed = false

namespace SectorBlk

variable {n : Nat} {s s' : SectorBlk n} {k : Fin n} {tag : Nat} {isSecure : Bool}

/-- A sector that would be overwritten while it is valid. -/
def Overwrites (s : SectorBlk n) (tag : Nat) (isSecure : Bool) : Prop :=
  s.isValid = true ∧ (s.tag ≠ tag ∨ s.secureBit ≠ isSecure)

/-- The sector after an insertion. -/
def inserted (s : SectorBlk n) (k : Fin n) (tag : Nat) (isSecure : Bool) : SectorBlk n where
  tag := tag
  validCounter := (s.validCounter + 1) % 256
  secureBit := isSecure || s.secureBit
  blks := Function.update s.blks k ⟨tag, true, isSecure, false, 1, (s.blks k).sizeBits⟩

theorem insertCacheBlk_clear (clear : (s.blks k).Clear) (tag : Nat) (isSecure : Bool) :
    s.insertCacheBlk k tag isSecure = .ok { s.inserted k tag isSecure with tag := s.tag } := by
  obtain ⟨invalid, insecure, uncompressed⟩ := clear
  cases isSecure with
  | false =>
    simp [insertCacheBlk, setBlk, setValid, validateSubBlk, inserted, invalid, insecure,
      uncompressed]
  | true =>
    simp [insertCacheBlk, setBlk, setSecure, setValid, validateSubBlk, inserted, invalid,
      insecure, uncompressed]

theorem insert_clear (clear : (s.blks k).Clear) (kept : ¬ s.Overwrites tag isSecure) :
    s.insert k tag isSecure = .ok (s.inserted k tag isSecure) := by
  have passes : ¬ (s.isValid && (s.tag != tag || s.secureBit != isSecure)) = true := by
    simpa [Overwrites] using kept
  rw [insert, if_neg passes, insertCacheBlk_clear clear]
  rfl

theorem insert_ok (h : s.insert k tag isSecure = .ok s') :
    s' = s.inserted k tag isSecure ∧ (s.blks k).Clear ∧ ¬ s.Overwrites tag isSecure := by
  have kept : ¬ s.Overwrites tag isSecure := by grind [insert, Overwrites]
  have clear : (s.blks k).Clear := by
    by_contra set
    have stops : ((s.blks k).valid || (s.blks k).secure || (s.blks k).compressed) = true := by
      by_contra none
      simp only [Bool.or_eq_true, not_or, Bool.not_eq_true] at none
      exact set ⟨none.1.1, none.1.2, none.2⟩
    rw [insert, insertCacheBlk, if_pos stops] at h
    split at h
    · cases h
    · cases h
  rw [insert_clear clear kept] at h
  cases h
  exact ⟨rfl, clear, kept⟩

end SectorBlk

namespace SectorTags

variable {g : Geometry} {numSectors : Nat} {policy : IndexingPolicy g numSectors}
  {t t' : SectorTags g numSectors} {l l' : Loc g numSectors} {addr : Nat} {isSecure : Bool}

section Update

variable {s : SectorBlk g.numBlocksPerSector}

theorem blk_of_update {b : SubBlk} (sectors : t'.sectors = Function.update t.sectors l.1 s)
    (blks : s.blks = Function.update (t.sectors l.1).blks l.2 b) (l' : Loc g numSectors) :
    t'.blk l' = if l' = l then b else t.blk l' := by
  obtain ⟨i, k⟩ := l
  obtain ⟨i', k'⟩ := l'
  rw [blk, sectors]
  by_cases hi : i' = i
  · aesop
  · aesop

theorem tag_of_update (sectors : t'.sectors = Function.update t.sectors l.1 s)
    (i : Fin numSectors) :
    (t'.sectors i).tag = if i = l.1 then s.tag else (t.sectors i).tag := by
  rw [sectors]
  by_cases hi : i = l.1
  · rw [hi, Function.update_self, if_pos rfl]
  · rw [Function.update_of_ne hi, if_neg hi]

theorem setBlk_blk (t : SectorTags g numSectors) (l l' : Loc g numSectors) (b : SubBlk) :
    (t.setSector l.1 ((t.sectors l.1).setBlk l.2 b)).blk l' = if l' = l then b else t.blk l' :=
  blk_of_update rfl rfl l'

theorem setBlk_tag (t : SectorTags g numSectors) (l : Loc g numSectors) (b : SubBlk)
    (i : Fin numSectors) :
    ((t.setSector l.1 ((t.sectors l.1).setBlk l.2 b)).sectors i).tag = (t.sectors i).tag := by
  rw [tag_of_update (t := t) (l := l) rfl]
  split
  · rename_i hi
    rw [hi]
    rfl
  · rfl

end Update

theorem invalidate_ok (h : t.invalidate l = .ok t') :
    (t.blk l).valid = true ∧ t'.sectors = Function.update t.sectors l.1
      ((t.sectors l.1).invalidate l.2) := by
  rw [invalidate] at h
  split at h
  · rename_i valid
    cases h
    exact ⟨valid, rfl⟩
  · cases h

theorem invalidate_blk (h : t.invalidate l = .ok t') (l' : Loc g numSectors) :
    t'.blk l' = if l' = l then (t.blk l).invalidate else t.blk l' :=
  blk_of_update (invalidate_ok h).2 rfl l'

theorem invalidate_tag (h : t.invalidate l = .ok t') (i : Fin numSectors) :
    (t'.sectors i).tag = (t.sectors i).tag := by
  rw [tag_of_update (invalidate_ok h).2]
  split
  · rename_i hi
    rw [hi]
    rfl
  · rfl

theorem insertBlock_ok (h : t.insertBlock policy addr isSecure l = .ok t') :
    (t.blk l).Clear ∧ ¬ (t.sectors l.1).Overwrites (policy.extractTag addr) isSecure ∧
      t'.sectors = Function.update t.sectors l.1
        ((t.sectors l.1).inserted l.2 (policy.extractTag addr) isSecure) := by
  rw [insertBlock] at h
  split at h
  · cases h
  · split at h
    · cases h
    · rename_i inserts
      cases h
      obtain ⟨rfl, clear, kept⟩ := SectorBlk.insert_ok inserts
      exact ⟨clear, kept, rfl⟩

theorem insertBlock_blk (h : t.insertBlock policy addr isSecure l = .ok t')
    (l' : Loc g numSectors) :
    t'.blk l' = if l' = l then
      ⟨policy.extractTag addr, true, isSecure, false, 1, (t.blk l).sizeBits⟩ else t.blk l' :=
  blk_of_update (insertBlock_ok h).2.2 rfl l'

theorem insertBlock_tag (h : t.insertBlock policy addr isSecure l = .ok t') (i : Fin numSectors) :
    (t'.sectors i).tag = if i = l.1 then policy.extractTag addr else (t.sectors i).tag :=
  tag_of_update (insertBlock_ok h).2.2 i

/-- The place of an address: a candidate sector with its tag, at its offset. -/
def Holds (policy : IndexingPolicy g numSectors) (t : SectorTags g numSectors)
    (l : Loc g numSectors) (addr : Nat) : Prop :=
  l.1 ∈ policy.getPossibleEntries addr ∧ (t.sectors l.1).tag = policy.extractTag addr ∧
    l.2 = g.extractSectorOffset addr

theorem Holds.of_blkAddr {a b : Nat} (h : Holds policy t l a) (same : g.blkAddr a = g.blkAddr b) :
    Holds policy t l b := by
  obtain ⟨mem, tag, offset⟩ := h
  have sector := g.sector_of_blkAddr same
  exact ⟨policy.entries_of_sector a b sector ▸ mem, tag.trans (policy.tag_of_sector a b sector),
    offset.trans (g.offset_of_blkAddr same)⟩

theorem Holds.of_tag (h : Holds policy t l addr)
    (same : (t'.sectors l.1).tag = (t.sectors l.1).tag) : Holds policy t' l addr :=
  ⟨h.1, same.trans h.2.1, h.2.2⟩

theorem Holds.blkAddr_eq {a b : Nat} (h : Holds policy t l a) (h' : Holds policy t l b) :
    g.blkAddr a = g.blkAddr b := by
  have sector : g.sectorAddr a = g.sectorAddr b := by
    rw [← policy.regenerate a l.1 h.1, ← policy.regenerate b l.1 h'.1, ← h.2.1, ← h'.2.1]
  rw [← g.sectorAddr_or_offset a, ← g.sectorAddr_or_offset b, ← h.2.2, ← h'.2.2, sector]

theorem findBlock_some (h : t.findBlock policy addr isSecure = some l) :
    Holds policy t l addr ∧ (t.blk l).valid = true ∧ (t.blk l).secure = isSecure := by
  obtain ⟨i, found, rfl⟩ := Option.map_eq_some_iff.mp h
  have mem := List.mem_of_find?_eq_some found
  have hit := List.find?_some found
  simp only [Bool.and_eq_true, beq_iff_eq] at hit
  exact ⟨⟨mem, hit.1.1, rfl⟩, hit.1.2, hit.2⟩

theorem findBlock_none (h : t.findBlock policy addr isSecure = none) (holds : Holds policy t l addr)
    (valid : (t.blk l).valid = true) : (t.blk l).secure ≠ isSecure := by
  obtain ⟨i, k⟩ := l
  obtain ⟨mem, tag, offset⟩ := holds
  subst offset
  have miss := List.find?_eq_none.mp (Option.map_eq_none_iff.mp h) i mem
  simpa [tag, valid] using miss

/-- What holds of the places of the valid blocks. -/
structure Placed (policy : IndexingPolicy g numSectors) (t : SectorTags g numSectors) : Prop where
  tags : ∀ l, (t.blk l).valid = true → (t.blk l).tag = (t.sectors l.1).tag
  clear : ∀ l, (t.blk l).valid = false → (t.blk l).Clear
  home : ∀ l, (t.blk l).valid = true → ∃ addr, Holds policy t l addr
  unique : ∀ l l' addr, (t.blk l).valid = true → (t.blk l').valid = true →
    Holds policy t l addr → Holds policy t l' addr → (t.blk l).secure = (t.blk l').secure → l = l'

theorem placed_init : Placed policy (tagsInit : SectorTags g numSectors) := by
  refine ⟨?_, fun _ _ => ⟨rfl, rfl, rfl⟩, ?_, ?_⟩
  · intro l valid
    cases valid
  · intro l valid
    cases valid
  · intro l l' addr valid
    cases valid

theorem Placed.drop (h : Placed policy t) (tags : ∀ i, (t'.sectors i).tag = (t.sectors i).tag) (blks
    : ∀ l, (t'.blk l).Clear ∨ (t'.blk l).valid = (t.blk l).valid ∧ (t'.blk l).tag = (t.blk l).tag ∧
    (t'.blk l).secure = (t.blk l).secure ∧ ((t.blk l).Clear → (t'.blk l).Clear)) :
    Placed policy t' := by
  have back : ∀ l, (t'.blk l).valid = true → (t.blk l).valid = true ∧
      (t'.blk l).tag = (t.blk l).tag ∧ (t'.blk l).secure = (t.blk l).secure := by
    intro l valid
    rcases blks l with clear | ⟨same, tag, secure, -⟩
    · rw [clear.1] at valid
      cases valid
    · exact ⟨same ▸ valid, tag, secure⟩
  have homes : ∀ l addr, Holds policy t' l addr → Holds policy t l addr :=
    fun l addr holds => holds.of_tag (tags l.1).symm
  refine ⟨?_, ?_, ?_, ?_⟩
  · intro l valid
    obtain ⟨before, tag, -⟩ := back l valid
    rw [tag, tags]
    exact h.tags l before
  · intro l invalid
    rcases blks l with clear | ⟨same, -, -, clear⟩
    · exact clear
    · exact clear (h.clear l (same ▸ invalid))
  · intro l valid
    obtain ⟨addr, holds⟩ := h.home l (back l valid).1
    exact ⟨addr, holds.of_tag (tags l.1)⟩
  · intro l l' addr valid valid' holds holds' secure
    obtain ⟨before, -, own⟩ := back l valid
    obtain ⟨before', -, own'⟩ := back l' valid'
    exact h.unique l l' addr before before' (homes l addr holds) (homes l' addr holds')
      (own.symm.trans (secure.trans own'))

theorem Placed.invalidate (h : Placed policy t) (ok : t.invalidate l = .ok t') :
    Placed policy t' := by
  refine h.drop (invalidate_tag ok) fun l' => ?_
  rw [invalidate_blk ok]
  by_cases hl : l' = l
  · rw [if_pos hl]
    exact Or.inl ⟨rfl, rfl, rfl⟩
  · simp [if_neg hl]

/-- A block is inserted for an address that no valid block holds, into a sector whose valid
blocks, if any, have its tag. -/
theorem Placed.insertBlock (h : Placed policy t)
    (ok : t.insertBlock policy addr isSecure l = .ok t')
    (place : l.1 ∈ policy.getPossibleEntries addr ∧ l.2 = g.extractSectorOffset addr)
    (miss : ∀ l', Holds policy t l' addr → (t.blk l').valid = true → (t.blk l').secure ≠ isSecure)
    (shared : ∀ k, (t.blk (l.1, k)).valid = true → (t.sectors l.1).tag = policy.extractTag addr) :
    Placed policy t' := by
  have old : ∀ l', l' ≠ l → (t'.blk l').valid = true →
      (t'.sectors l'.1).tag = (t.sectors l'.1).tag := by
    intro l' hl valid
    rw [insertBlock_blk ok, if_neg hl] at valid
    rw [insertBlock_tag ok]
    split
    · grind
    · rfl
  have new : Holds policy t' l addr := by
    refine ⟨place.1, ?_, place.2⟩
    rw [insertBlock_tag ok, if_pos rfl]
  refine ⟨?_, ?_, ?_, ?_⟩
  · intro l' valid
    by_cases hl : l' = l
    · rw [insertBlock_blk ok, if_pos hl, insertBlock_tag ok, if_pos (by rw [hl])]
    · rw [old l' hl valid]
      rw [insertBlock_blk ok, if_neg hl] at valid ⊢
      exact h.tags l' valid
  · intro l' invalid
    rw [insertBlock_blk ok] at invalid ⊢
    split at invalid
    · cases invalid
    · rename_i hl
      rw [if_neg hl]
      exact h.clear l' invalid
  · intro l' valid
    by_cases hl : l' = l
    · exact ⟨addr, hl ▸ new⟩
    · have tag := old l' hl valid
      rw [insertBlock_blk ok, if_neg hl] at valid
      obtain ⟨a, holds⟩ := h.home l' valid
      exact ⟨a, holds.of_tag tag⟩
  · have other : ∀ l' a, l' ≠ l → (t'.blk l').valid = true → Holds policy t' l a →
        Holds policy t' l' a → (t'.blk l').secure ≠ isSecure := by
      intro l' a hl valid holds holds'
      have before := (holds'.of_tag (old l' hl valid).symm).of_blkAddr (holds.blkAddr_eq new)
      rw [insertBlock_blk ok, if_neg hl] at valid ⊢
      exact miss l' before valid
    have own : (t'.blk l).secure = isSecure := by
      rw [insertBlock_blk ok, if_pos rfl]
    intro l₁ l₂ a valid₁ valid₂ holds₁ holds₂ secure
    by_cases h₁ : l₁ = l
    · grind
    · by_cases h₂ : l₂ = l
      · grind
      · have tag₁ := old l₁ h₁ valid₁
        have tag₂ := old l₂ h₂ valid₂
        rw [insertBlock_blk ok, if_neg h₁] at valid₁ secure
        rw [insertBlock_blk ok, if_neg h₂] at valid₂ secure
        exact h.unique l₁ l₂ a valid₁ valid₂ (holds₁.of_tag tag₁.symm) (holds₂.of_tag tag₂.symm)
          secure

theorem Placed.regenerateBlkAddr (h : Placed policy t) (valid : (t.blk l).valid = true)
    (holds : Holds policy t l addr) : t.regenerateBlkAddr policy l = g.blkAddr addr := by
  rw [SectorTags.regenerateBlkAddr, h.tags l valid, holds.2.1, policy.regenerate addr l.1 holds.1,
    holds.2.2]
  exact g.sectorAddr_or_offset addr

theorem Placed.holds (h : Placed policy t) (valid : (t.blk l).valid = true)
    (own : g.blkAddr addr = t.regenerateBlkAddr policy l) : Holds policy t l addr := by
  obtain ⟨a, holds⟩ := h.home l valid
  exact holds.of_blkAddr ((h.regenerateBlkAddr valid holds).symm.trans own.symm)

theorem Placed.blkAddr_unique (h : Placed policy t) (valid : (t.blk l).valid = true)
    (valid' : (t.blk l').valid = true)
    (same : t.regenerateBlkAddr policy l = t.regenerateBlkAddr policy l')
    (secure : (t.blk l).secure = (t.blk l').secure) : l = l' := by
  obtain ⟨a, holds⟩ := h.home l valid
  have own := h.regenerateBlkAddr valid holds
  exact h.unique l l' a valid valid' holds (h.holds valid' (own.symm.trans same)) secure

theorem Placed.findBlock (h : Placed policy t) (valid : (t.blk l).valid = true)
    (own : g.blkAddr addr = t.regenerateBlkAddr policy l) :
    t.findBlock policy addr (t.blk l).secure = some l := by
  have holds := h.holds valid own
  cases found : t.findBlock policy addr (t.blk l).secure with
  | none => exact absurd rfl (findBlock_none found holds valid)
  | some l' =>
    obtain ⟨holds', valid', secure⟩ := findBlock_some found
    rw [h.unique l' l addr valid' valid holds' holds secure]

theorem Placed.setBlk (h : Placed policy t) {b : SubBlk}
    (same : b.valid = (t.blk l).valid ∧ b.tag = (t.blk l).tag ∧ b.secure = (t.blk l).secure)
    (clear : (t.blk l).Clear → b.Clear) :
    Placed policy (t.setSector l.1 ((t.sectors l.1).setBlk l.2 b)) := by
  refine h.drop (setBlk_tag t l b) fun l' => Or.inr ?_
  rw [setBlk_blk]
  by_cases hl : l' = l
  · grind
  · rw [if_neg hl]
    exact ⟨rfl, rfl, rfl, id⟩

theorem Placed.accessBlock (h : Placed policy t) :
    Placed policy (t.accessBlock policy addr isSecure) := by
  rw [SectorTags.accessBlock]
  split
  · exact h
  · rename_i l _
    exact h.setBlk ⟨rfl, rfl, rfl⟩ id

theorem invalidate_valid (valid : (t.blk l).valid = true) : ∃ t', t.invalidate l = .ok t' := by
  rw [invalidate, if_pos valid]
  exact ⟨_, rfl⟩

theorem evict_total (t : SectorTags g numSectors) (evictBlks : List (Loc g numSectors)) :
    ∃ t', t.evict evictBlks = .ok t' := by
  induction evictBlks generalizing t with
  | nil => exact ⟨t, rfl⟩
  | cons l evictBlks ih =>
    rw [evict]
    split
    · rename_i valid
      obtain ⟨next, ok⟩ := invalidate_valid valid
      rw [ok]
      exact ih next
    · exact ih t

theorem evict_keeps {P : SectorTags g numSectors → Prop} {evictBlks : List (Loc g numSectors)}
    (ok : t.evict evictBlks = .ok t') (start : P t)
    (keep : ∀ r r' l, P r → r.invalidate l = .ok r' → P r') : P t' := by
  induction evictBlks generalizing t with
  | nil =>
    cases ok
    exact start
  | cons l evictBlks ih => grind [evict]

theorem evict_tag {evictBlks : List (Loc g numSectors)} (ok : t.evict evictBlks = .ok t')
    (i : Fin numSectors) : (t'.sectors i).tag = (t.sectors i).tag :=
  evict_keeps (P := fun r => (r.sectors i).tag = (t.sectors i).tag) ok rfl
    fun _ _ _ before step => (invalidate_tag step i).trans before

theorem evict_blk {evictBlks : List (Loc g numSectors)} (ok : t.evict evictBlks = .ok t')
    (l : Loc g numSectors) :
    (l ∈ evictBlks → (t'.blk l).valid = false) ∧ (l ∉ evictBlks → t'.blk l = t.blk l) ∧
      ((t'.blk l).valid = true → t'.blk l = t.blk l) := by
  induction evictBlks generalizing t with
  | nil =>
    cases ok
    exact ⟨by simp, fun _ => rfl, fun _ => rfl⟩
  | cons d evictBlks ih =>
    rw [evict] at ok
    split at ok
    · rename_i valid
      split at ok
      · cases ok
      · rename_i next step
        obtain ⟨gone, kept, same⟩ := ih ok
        have own := invalidate_blk step l
        refine ⟨fun mem => ?_, fun mem => ?_, fun valid => ?_⟩
        · by_cases listed : l ∈ evictBlks
          · exact gone listed
          · aesop
        · grind
        · have after := same valid
          by_cases hd : l = d
          · rw [own, if_pos hd] at after
            rw [after] at valid
            cases valid
          · rw [after, own, if_neg hd]
    · grind

theorem Placed.evict (h : Placed policy t) {evictBlks : List (Loc g numSectors)}
    (ok : t.evict evictBlks = .ok t') : Placed policy t' :=
  evict_keeps ok h fun _ _ _ before step => before.invalidate step

theorem miss_evict {evictBlks : List (Loc g numSectors)}
    (miss : t.findBlock policy addr isSecure = none) (ok : t.evict evictBlks = .ok t')
    (holds : Holds policy t' l addr) (valid : (t'.blk l).valid = true) :
    (t'.blk l).secure ≠ isSecure := by
  have same := (evict_blk ok l).2.2 valid
  rw [same] at valid ⊢
  exact findBlock_none miss (holds.of_tag (evict_tag ok l.1).symm) valid

end SectorTags

end Gem5.Cache
