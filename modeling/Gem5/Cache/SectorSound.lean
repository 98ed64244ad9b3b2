import Gem5.Cache.SectorPlaces
import Gem5.Lib.Tables

/-!
# Sector tags are a sound associative store

The counter and the secure bit of a sector agree with its blocks, so the tests on the sector
tell what its blocks are, and neither the panic of an insertion nor the assert of `findVictim`
is reached.
-/

namespace Gem5.Cache

open Function

namespace SectorBlk

variable {n : Nat} {s : SectorBlk n} {k : Fin n} {tag : Nat} {isSecure : Bool}

/-- The sector's own state agrees with its blocks. -/
structure Counted (s : SectorBlk n) : Prop where
  counter : s.validCounter = Tally.count SubBlk.valid s.blks
  secure : ∀ k, (s.blks k).valid = true → (s.blks k).secure = s.secureBit
  idle : (∀ k, (s.blks k).valid = false) → s.secureBit = false

theorem Counted.isValid_false (h : Counted s) :
    s.isValid = false ↔ ∀ k, (s.blks k).valid = false := by
  rw [isValid, h.counter, ← Tally.count_eq_zero]
  simp

def hasValid (s : SectorBlk n) : Bool := decide (∃ k, (s.blks k).valid = true)

theorem Counted.isValid_eq (h : Counted s) : s.isValid = s.hasValid := by
  cases busy : s.isValid with
  | false =>
    have idle := h.isValid_false.mp busy
    simp [hasValid, idle]
  | true =>
    rw [hasValid, eq_comm, decide_eq_true_eq]
    by_contra none
    rw [h.isValid_false.mpr fun k => by simpa using fun valid => none ⟨k, valid⟩] at busy
    cases busy

theorem Counted.isValid_of_blk (h : Counted s) (valid : (s.blks k).valid = true) :
    s.isValid = true := by
  by_contra idle
  rw [h.isValid_false.mp (by simpa using idle) k] at valid
  cases valid

theorem Counted.invalidate (h : Counted s) (small : n < 256) (valid : (s.blks k).valid = true) :
    Counted (s.invalidate k) := by
  have lose : Tally.count SubBlk.valid (s.invalidate k).blks + 1
      = Tally.count SubBlk.valid s.blks := Tally.count_update_lose valid rfl
  have bound : Tally.count SubBlk.valid s.blks ≤ n := by
    simpa using Tally.count_le (p := SubBlk.valid) (f := s.blks)
  have counter : (s.invalidate k).validCounter
      = Tally.count SubBlk.valid (s.invalidate k).blks := by
    have step : (s.invalidate k).validCounter = (s.validCounter + 255) % 256 := rfl
    rw [step, h.counter]
    omega
  have bit : (s.invalidate k).secureBit
      = if (s.invalidate k).validCounter = 0 then false else s.secureBit := rfl
  have others : ∀ k', ((s.invalidate k).blks k').valid = true →
      (s.invalidate k).blks k' = s.blks k' := by
    intro k' valid'
    by_cases hk : k' = k
    · subst hk
      have gone : ((s.invalidate k').blks k') = (s.blks k').invalidate := update_self _ _ _
      rw [gone] at valid'
      cases valid'
    · exact update_of_ne hk _ _
  refine ⟨counter, fun k' valid' => ?_, fun idle => ?_⟩
  · have busy : (s.invalidate k).validCounter ≠ 0 := by
      rw [counter]
      intro zero
      rw [Tally.count_eq_zero.mp zero k'] at valid'
      cases valid'
    have same := others k' valid'
    rw [same] at valid' ⊢
    rw [bit, if_neg busy]
    exact h.secure k' valid'
  · rw [bit, counter, if_pos (Tally.count_eq_zero.mpr idle)]

theorem inserted_valid (s : SectorBlk n) (k : Fin n) (tag : Nat) (isSecure : Bool) :
    ((s.inserted k tag isSecure).blks k).valid = true := by
  simp [inserted]

theorem Counted.setBlk (h : Counted s) {b : SubBlk} (valid : b.valid = (s.blks k).valid)
    (secure : b.secure = (s.blks k).secure) : Counted (s.setBlk k b) := by
  have same : ∀ k', ((s.setBlk k b).blks k').valid = (s.blks k').valid ∧
      ((s.setBlk k b).blks k').secure = (s.blks k').secure := by
    intro k'
    dsimp only [SectorBlk.setBlk]
    by_cases hk : k' = k
    · grind
    · grind
  refine ⟨?_, fun k' valid' => ?_, fun idle => ?_⟩
  · have count : Tally.count SubBlk.valid (s.setBlk k b).blks = Tally.count SubBlk.valid s.blks :=
      Tally.count_update_same valid
    rw [count]
    exact h.counter
  · rw [(same k').2]
    exact h.secure k' ((same k').1 ▸ valid')
  · exact h.idle fun k' => (same k').1 ▸ idle k'

theorem Counted.inserted (h : Counted s) (small : n < 256) (clear : (s.blks k).Clear)
    (kept : ¬ s.Overwrites tag isSecure) : Counted (s.inserted k tag isSecure) := by
  have gain : Tally.count SubBlk.valid (s.inserted k tag isSecure).blks
      = Tally.count SubBlk.valid s.blks + 1 := Tally.count_update_gain clear.1 rfl
  have bound : Tally.count SubBlk.valid (s.inserted k tag isSecure).blks ≤ n := by
    simpa using Tally.count_le (p := SubBlk.valid) (f := (s.inserted k tag isSecure).blks)
  have bit : (s.inserted k tag isSecure).secureBit = isSecure := by
    have step : (s.inserted k tag isSecure).secureBit = (isSecure || s.secureBit) := rfl
    rw [step]
    cases busy : s.isValid with
    | true =>
      have same : s.secureBit = isSecure := by
        by_contra other
        exact kept ⟨busy, Or.inr other⟩
      rw [same, Bool.or_self]
    | false => rw [h.idle (h.isValid_false.mp busy), Bool.or_false]
  have own : (s.inserted k tag isSecure).blks k
      = ⟨tag, true, isSecure, false, 1, (s.blks k).sizeBits⟩ := update_self _ _ _
  refine ⟨?_, fun k' valid' => ?_, fun idle => ?_⟩
  · have step : (s.inserted k tag isSecure).validCounter = (s.validCounter + 1) % 256 := rfl
    rw [step, h.counter, gain]
    omega
  · rw [bit]
    by_cases hk : k' = k
    · rw [hk, own]
    · have same : (s.inserted k tag isSecure).blks k' = s.blks k' := update_of_ne hk _ _
      rw [same] at valid' ⊢
      rw [h.secure k' valid']
      by_contra other
      exact kept ⟨h.isValid_of_blk valid', Or.inr other⟩
  · grind

end SectorBlk

namespace SectorTags

variable {g : Geometry} {numSectors : Nat} {policy : IndexingPolicy g numSectors}
  {t t' : SectorTags g numSectors} {l : Loc g numSectors} {addr : Nat} {isSecure : Bool}

/-- The invariant: the blocks are placed, every sector is counted, and so are the tags. -/
structure Kept (policy : IndexingPolicy g numSectors) (t : SectorTags g numSectors) : Prop where
  placed : Placed policy t
  counted : ∀ i, (t.sectors i).Counted
  inUse : t.tagsInUse = Tally.count SectorBlk.isValid t.sectors

theorem kept_init : Kept policy (tagsInit : SectorTags g numSectors) := by
  have none : Tally.count SubBlk.valid (SectorBlk.new : SectorBlk g.numBlocksPerSector).blks = 0 :=
    Tally.count_eq_zero.mpr fun _ => rfl
  have idle : Tally.count SectorBlk.isValid (tagsInit : SectorTags g numSectors).sectors = 0 :=
    Tally.count_eq_zero.mpr fun _ => rfl
  refine ⟨placed_init, fun _ => ⟨none.symm, ?_, fun _ => rfl⟩, ?_⟩
  · intro k valid
    cases valid
  · rw [idle]
    rfl

theorem Kept.counted_setSector (h : Kept policy t) {i : Fin numSectors}
    {s : SectorBlk g.numBlocksPerSector} (own : s.Counted) :
    ∀ j, ((t.setSector i s).sectors j).Counted :=
  (forall_update_iff t.sectors _).mpr ⟨own, fun j _ => h.counted j⟩

theorem Kept.invalidate (h : Kept policy t) (small : g.numBlocksPerSector < 256)
    (ok : t.invalidate l = .ok t') : Kept policy t' := by
  have placed := h.placed.invalidate ok
  rw [SectorTags.invalidate] at ok
  split at ok
  · rename_i valid
    have busy : (t.sectors l.1).isValid = true := (h.counted l.1).isValid_of_blk valid
    cases ok
    refine ⟨placed, fun i => ?_, ?_⟩
    · exact h.counted_setSector ((h.counted l.1).invalidate small valid) i
    · dsimp only [setSector]
      cases left : ((t.sectors l.1).invalidate l.2).isValid with
      | true => rw [Tally.count_update_same (left.trans busy.symm), if_pos rfl, h.inUse]
      | false =>
        have lose := Tally.count_update_lose (f := t.sectors) busy left
        rw [if_neg (by simp), h.inUse]
        omega
  · cases ok

theorem Kept.evict (h : Kept policy t) (small : g.numBlocksPerSector < 256)
    {evictBlks : List (Loc g numSectors)} (ok : t.evict evictBlks = .ok t') : Kept policy t' :=
  evict_keeps ok h fun _ _ _ before step => before.invalidate small step

theorem Kept.insertBlock (h : Kept policy t) (small : g.numBlocksPerSector < 256)
    (place : l.1 ∈ policy.getPossibleEntries addr ∧ l.2 = g.extractSectorOffset addr)
    (miss : ∀ l', Holds policy t l' addr → (t.blk l').valid = true → (t.blk l').secure ≠ isSecure)
    (room : ((t.sectors l.1).tag = policy.extractTag addr ∧ (t.sectors l.1).secureBit = isSecure ∧
    (t.blk l).valid = false) ∨ ∀ k, (t.blk (l.1, k)).valid = false) :
    ∃ t', t.insertBlock policy addr isSecure l = .ok t' ∧ Kept policy t' := by
  have invalid : (t.blk l).valid = false := room.elim (fun own => own.2.2) fun idle => idle l.2
  have clear := h.placed.clear l invalid
  have kept : ¬ (t.sectors l.1).Overwrites (policy.extractTag addr) isSecure := by
    rintro ⟨busy, other⟩
    rcases room with ⟨tag, secure, -⟩ | idle
    · grind
    · rw [(h.counted l.1).isValid_false.mpr idle] at busy
      cases busy
  have ok : ∃ t', t.insertBlock policy addr isSecure l = .ok t' := by
    rw [SectorTags.insertBlock, if_neg (by simp [invalid]), SectorBlk.insert_clear clear kept]
    exact ⟨_, rfl⟩
  obtain ⟨t', ok⟩ := ok
  have placed : Placed policy t' := by
    refine h.placed.insertBlock ok place miss fun k valid => ?_
    rcases room with ⟨tag, -⟩ | idle
    · exact tag
    · rw [idle k] at valid
      cases valid
  refine ⟨t', ok, ?_⟩
  rw [SectorTags.insertBlock, if_neg (by simp [invalid]), SectorBlk.insert_clear clear kept] at ok
  cases ok
  have counted := (h.counted l.1).inserted small clear kept
  have busy := counted.isValid_of_blk (SectorBlk.inserted_valid _ _ _ _)
  refine ⟨placed, fun i => ?_, ?_⟩
  · exact h.counted_setSector counted i
  · dsimp only [setSector]
    cases before : (t.sectors l.1).isValid with
    | true => rw [Tally.count_update_same (busy.trans before.symm), if_pos rfl, h.inUse]
    | false =>
      rw [Tally.count_update_gain before busy, if_neg (by simp), h.inUse]
      omega

theorem findVictim_miss (h : Kept policy t) {choice : Fin numSectors}
    (miss : t.findBlock policy addr isSecure = none)
    (candidate : choice ∈ policy.getPossibleEntries addr) :
    ∃ l evictBlks, t.findVictim policy addr isSecure choice = .ok (l, evictBlks) ∧
      (l.1 ∈ policy.getPossibleEntries addr ∧ l.2 = g.extractSectorOffset addr) ∧
      ((evictBlks = [] ∧ (t.sectors l.1).tag = policy.extractTag addr ∧
          (t.sectors l.1).secureBit = isSecure ∧ (t.blk l).valid = false) ∨
        ∀ k, (l.1, k) ∈ evictBlks) := by
  rw [findVictim]
  generalize found : ((policy.getPossibleEntries addr).find? fun i =>
    policy.extractTag addr == (t.sectors i).tag && (t.sectors i).isValid &&
      isSecure == (t.sectors i).secureBit).getD choice = i
  have mem : i ∈ policy.getPossibleEntries addr := by
    rw [← found]
    cases hfind : (policy.getPossibleEntries addr).find? _ with
    | none => exact candidate
    | some => exact List.mem_of_find?_eq_some hfind
  split
  · rename_i own
    have invalid : (t.blk (i, g.extractSectorOffset addr)).valid = false := by
      by_contra valid
      have valid : (t.blk (i, g.extractSectorOffset addr)).valid = true := by simpa using valid
      refine findBlock_none miss ⟨mem, own.1.symm, rfl⟩ valid ?_
      rw [own.2]
      exact (h.counted i).secure _ valid
    rw [if_neg (by simp [invalid])]
    exact ⟨_, _, rfl, ⟨mem, rfl⟩, Or.inl ⟨rfl, own.1.symm, own.2.symm, invalid⟩⟩
  · grind

theorem Kept.allocateBlock (h : Kept policy t) (small : g.numBlocksPerSector < 256)
    {choice : Fin numSectors} (miss : t.findBlock policy addr isSecure = none)
    (candidate : choice ∈ policy.getPossibleEntries addr) :
    ∃ t', t.allocateBlock policy addr isSecure choice = .ok t' ∧ Kept policy t' := by
  obtain ⟨l, evictBlks, victim, place, room⟩ := findVictim_miss h miss candidate
  obtain ⟨next, evicted⟩ := t.evict_total evictBlks
  rw [SectorTags.allocateBlock, victim]
  dsimp only
  rw [evicted]
  refine (h.evict small evicted).insertBlock small place
    (fun l' holds valid => miss_evict miss evicted holds valid) ?_
  rcases room with ⟨rfl, own⟩ | all
  · cases evicted
    exact Or.inl own
  · exact Or.inr fun k => (evict_blk evicted (l.1, k)).1 (all k)

theorem Kept.accessBlock (h : Kept policy t) :
    Kept policy (t.accessBlock policy addr isSecure) := by
  have placed : Placed policy (t.accessBlock policy addr isSecure) := h.placed.accessBlock
  revert placed
  rw [SectorTags.accessBlock]
  split
  · exact fun _ => h
  · rename_i l _
    intro placed
    have touched := (h.counted l.1).setBlk (k := l.2)
      (b := { t.blk l with refCount := (t.blk l).refCount + 1 }) rfl rfl
    refine ⟨placed, fun i => ?_, ?_⟩
    · exact h.counted_setSector touched i
    · dsimp only [setSector]
      rw [Tally.count_update_same]
      · exact h.inUse
      · rfl

theorem Kept.step (h : Kept policy t) (small : g.numBlocksPerSector < 256) {e : Step g numSectors}
    (takes : t.Takes policy e) : ∃ t', t.step policy e = .ok t' ∧ Kept policy t' := by
  cases e with
  | miss => exact h.allocateBlock small takes.1 takes.2
  | invalidate =>
    obtain ⟨t', ok⟩ := invalidate_valid takes
    exact ⟨t', ok, h.invalidate small ok⟩
  | access => exact ⟨_, rfl, h.accessBlock⟩

theorem Reachable.kept (run : Reachable policy t) (small : g.numBlocksPerSector < 256) :
    Kept policy t := by
  induction run with
  | init => exact kept_init
  | step _ takes ok ih =>
    obtain ⟨t'', ok', kept⟩ := ih.step small takes
    rw [ok] at ok'
    cases ok'
    exact kept

/-- A sound associative store. -/
structure SoundStore (policy : IndexingPolicy g numSectors) (t : SectorTags g numSectors) :
    Prop where
  counter : ∀ i, (t.sectors i).validCounter = Tally.count SubBlk.valid (t.sectors i).blks
  secure : ∀ l, (t.blk l).valid = true → (t.sectors l.1).secureBit = (t.blk l).secure
  tags : ∀ l, (t.blk l).valid = true → (t.blk l).tag = (t.sectors l.1).tag
  inUse : t.tagsInUse = Tally.count SectorBlk.hasValid t.sectors
  unique : ∀ l l', (t.blk l).valid = true → (t.blk l').valid = true →
    t.regenerateBlkAddr policy l = t.regenerateBlkAddr policy l' →
    (t.blk l).secure = (t.blk l').secure → l = l'
  found : ∀ l addr, (t.blk l).valid = true → g.blkAddr addr = t.regenerateBlkAddr policy l →
    t.findBlock policy addr (t.blk l).secure = some l
  safe : ∀ e, t.Takes policy e → ∃ t', t.step policy e = .ok t'

/-- Sectors of fewer than 256 blocks make a sound associative store in every reachable state,
and no step that the cache takes reaches a panic or an assert. -/
theorem reachable_sound (small : g.numBlocksPerSector < 256) (run : Reachable policy t) :
    SoundStore policy t := by
  have h := run.kept small
  refine ⟨fun i => (h.counted i).counter, ?_, h.placed.tags, ?_, ?_, ?_, ?_⟩
  · exact fun l valid => ((h.counted l.1).secure l.2 valid).symm
  · rw [h.inUse, Tally.count_congr fun i => (h.counted i).isValid_eq]
  · exact fun l l' valid valid' same secure => h.placed.blkAddr_unique valid valid' same secure
  · exact fun l addr valid own => h.placed.findBlock valid own
  · intro e takes
    obtain ⟨t', ok, -⟩ := h.step small takes
    exact ⟨t', ok⟩

/-- Two misses to one sector, the second of them of another security space. -/
theorem reachable_sound_pair :
    ∃ t : SectorTags ⟨6, 1⟩ (2 ^ 1 * 2),
      Reachable (SetAssociative.policy ⟨6, 1⟩ 1 2) t ∧ t.tagsInUse = 2 ∧
        SoundStore (SetAssociative.policy ⟨6, 1⟩ 1 2) t := by
  have first : Reachable (SetAssociative.policy ⟨6, 1⟩ 1 2) _ :=
    .step (e := .miss 0x1000 false 0) .init ⟨by decide, by decide⟩ rfl
  have second := Reachable.step (e := .miss 0x1040 true 1) first ⟨by decide, by decide⟩ rfl
  exact ⟨_, second, by decide, reachable_sound (by decide) second⟩

end SectorTags

end Gem5.Cache
