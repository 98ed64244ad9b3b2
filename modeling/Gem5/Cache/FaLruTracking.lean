import Gem5.Cache.FaLru

/-!
# The boundaries of the tracked caches

A tracked cache holds the blocks up to its position in the list. Its boundary and its bit of the
masks are one slot; a turn of a loop brings one slot to the list after the move.
-/

namespace Gem5.Cache.FaLru

open Chains List Function Option BitVec

namespace Params

variable {i j b : Nat} {m : CachesMask}

variable {prm : Params}

/-- The position of the last block of a tracked cache. -/
def lastPos (prm : Params) (i : Nat) : Nat := prm.minTrackedSize * 2 ^ i / prm.blkSize - 1

theorem blkSize_pos (prm : Params) : 0 < prm.blkSize := by
  obtain ⟨k, pow⟩ := prm.blkPow
  exact pow ▸ Nat.two_pow_pos k

theorem exists_blocks (prm : Params) : ∃ m, 2 ≤ m ∧ prm.minTrackedSize = m * prm.blkSize ∧
    ∀ i, prm.lastPos i + 1 = m * 2 ^ i := by
  obtain ⟨m, blocks⟩ := prm.whole
  have two : 2 ≤ m := by
    have le := prm.twoBlocks
    rw [blocks, Nat.mul_comm] at le
    exact Nat.le_of_mul_le_mul_left le prm.blkSize_pos
  refine ⟨m, two, blocks.trans (Nat.mul_comm _ _), fun i => ?_⟩
  have split : prm.minTrackedSize * 2 ^ i / prm.blkSize = m * 2 ^ i := by
    rw [blocks, Nat.mul_assoc, Nat.mul_div_cancel_left _ prm.blkSize_pos]
  have pos : 0 < m * 2 ^ i := Nat.mul_pos (by omega) (Nat.two_pow_pos i)
  rw [lastPos, split]
  omega

theorem lastPos_pos (prm : Params) (i : Nat) : 1 ≤ prm.lastPos i := by
  obtain ⟨m, two, -, last⟩ := prm.exists_blocks
  have grow : 2 ≤ m * 2 ^ i := Nat.le_trans two (Nat.le_mul_of_pos_right m (Nat.two_pow_pos i))
  have := last i
  omega

theorem lastPos_lt_succ (prm : Params) (i : Nat) : prm.lastPos i < prm.lastPos (i + 1) := by
  obtain ⟨m, two, -, last⟩ := prm.exists_blocks
  have here := last i
  have there := last (i + 1)
  rw [Nat.pow_succ, ← Nat.mul_assoc, ← here] at there
  omega

theorem lastPos_mono (prm : Params) {k : Nat} (le : i ≤ k) : prm.lastPos i ≤ prm.lastPos k :=
  monotone_nat_of_le_succ (fun i => Nat.le_of_lt (prm.lastPos_lt_succ i)) le

theorem numTrackedCaches_eq (prm : Params) :
    prm.numTrackedCaches = Nat.log2 prm.size - Nat.log2 prm.minTrackedSize :=
  if_pos prm.below

theorem size_bounds (prm : Params) :
    (∀ i < prm.numTrackedCaches, prm.minTrackedSize * 2 ^ i < prm.size) ∧
      prm.size ≤ prm.minTrackedSize * 2 ^ prm.numTrackedCaches ∧
      prm.minTrackedSize * 2 ^ prm.numTrackedCaches < 2 * prm.size := by
  obtain ⟨k, pow⟩ := prm.sizePow
  have some_ : prm.minTrackedSize ≠ 0 := by
    have := prm.twoBlocks
    have := prm.blkSize_pos
    omega
  have low := Nat.log2_self_le some_
  have high : prm.minTrackedSize < 2 ^ (prm.minTrackedSize.log2 + 1) := Nat.lt_log2_self
  have fewer : prm.minTrackedSize.log2 < k := by
    have below := prm.below
    rw [pow] at below
    exact (Nat.pow_lt_pow_iff_right (by decide)).mp (Nat.lt_of_le_of_lt low below)
  have count : prm.numTrackedCaches = k - prm.minTrackedSize.log2 := by
    rw [numTrackedCaches_eq, pow, Nat.log2_two_pow]
  have top : 2 ^ prm.minTrackedSize.log2 * 2 ^ prm.numTrackedCaches = prm.size := by
    rw [count, pow, ← Nat.pow_add, Nat.add_sub_cancel' (Nat.le_of_lt fewer)]
  refine ⟨fun i small => ?_, ?_, ?_⟩
  · calc prm.minTrackedSize * 2 ^ i
        < 2 ^ (prm.minTrackedSize.log2 + 1) * 2 ^ i :=
          Nat.mul_lt_mul_of_pos_right high (Nat.two_pow_pos i)
      _ = 2 ^ (prm.minTrackedSize.log2 + 1 + i) := (Nat.pow_add _ _ _).symm
      _ ≤ 2 ^ k := Nat.pow_le_pow_right (by decide) (by omega)
      _ = prm.size := pow.symm
  · exact top ▸ Nat.mul_le_mul_right _ low
  · calc prm.minTrackedSize * 2 ^ prm.numTrackedCaches
        < 2 ^ (prm.minTrackedSize.log2 + 1) * 2 ^ prm.numTrackedCaches :=
          Nat.mul_lt_mul_of_pos_right high (Nat.two_pow_pos _)
      _ = 2 * prm.size := by rw [Nat.pow_succ, Nat.mul_comm _ 2, Nat.mul_assoc, top]

theorem numBlocks_mul (prm : Params) : prm.numBlocks * prm.blkSize = prm.size := by
  obtain ⟨k, size⟩ := prm.sizePow
  obtain ⟨j, blk⟩ := prm.blkPow
  refine Nat.div_mul_cancel ?_
  rw [size, blk]
  refine Nat.pow_dvd_pow 2 ?_
  have le : prm.blkSize ≤ prm.size := by
    have := prm.twoBlocks
    have := prm.below
    omega
  rw [size, blk] at le
  exact (Nat.pow_le_pow_iff_right (by decide)).mp le

theorem lastPos_lt (prm : Params) (tracked : i < prm.numTrackedCaches) :
    prm.lastPos i + 1 < prm.numBlocks := by
  obtain ⟨m, -, blocks, last⟩ := prm.exists_blocks
  have less := prm.size_bounds.1 i tracked
  rw [blocks, ← prm.numBlocks_mul, Nat.mul_right_comm, ← last i] at less
  exact Nat.lt_of_mul_lt_mul_right less

theorem numBlocks_le (prm : Params) : prm.numBlocks ≤ prm.lastPos prm.numTrackedCaches + 1 := by
  obtain ⟨m, -, blocks, last⟩ := prm.exists_blocks
  have le := prm.size_bounds.2.1
  rw [blocks, ← prm.numBlocks_mul, Nat.mul_right_comm, ← last] at le
  exact Nat.le_of_mul_le_mul_right le prm.blkSize_pos

theorem numTrackedCaches_lt (prm : Params) : prm.numTrackedCaches < 32 := by
  have ranged := prm.ranged
  have count := prm.numTrackedCaches_eq
  have small : prm.size.log2 < 32 := by
    refine (Nat.log2_lt ?_).mpr ranged
    have := prm.below
    omega
  omega

theorem numTrackedCaches_pos (prm : Params) : 0 < prm.numTrackedCaches := by
  rcases Nat.eq_zero_or_pos prm.numTrackedCaches with none | some_
  · have le := prm.size_bounds.2.1
    have below := prm.below
    rw [none, Nat.pow_zero, Nat.mul_one] at le
    omega
  · exact some_

end Params

variable {prm : Params} {lk : Links Nat} {trk trk' : Tracking} {l xs ys : List Nat} {blk : Nat}

/-- A tracked cache keeps its boundary and its bits, the list being `l`. -/
structure Slot (prm : Params) (l : List Nat) (trk : Tracking) (i : Nat) : Prop where
  boundary : i < prm.numTrackedCaches → trk.boundaries i = l[prm.lastPos i]?
  bits : ∀ j b, l[j]? = some b → (trk.inCachesMask b).getLsbD i
    = (decide (i < prm.numTrackedCaches) && decide (j ≤ prm.lastPos i))

/-- What a slot keeps while `blk` is moved; the mask of `blk` is set after the loop. -/
structure SlotBut (prm : Params) (blk : Nat) (l : List Nat) (trk : Tracking) (i : Nat) : Prop where
  boundary : i < prm.numTrackedCaches → trk.boundaries i = l[prm.lastPos i]?
  bits : ∀ j b, l[j]? = some b → b ≠ blk → (trk.inCachesMask b).getLsbD i
    = (decide (i < prm.numTrackedCaches) && decide (j ≤ prm.lastPos i))

/-- Only the slot of `i` differs. -/
structure Only (i : Nat) (trk trk' : Tracking) : Prop where
  boundary : ∀ k ≠ i, trk'.boundaries k = trk.boundaries k
  bits : ∀ k ≠ i, ∀ b, (trk'.inCachesMask b).getLsbD k = (trk.inCachesMask b).getLsbD k

theorem Slot.but (h : Slot prm l trk i) (blk : Nat) : SlotBut prm blk l trk i :=
  ⟨h.boundary, fun j b at_ _ => h.bits j b at_⟩

theorem SlotBut.frame {k : Nat} (h : SlotBut prm blk l trk k) (only : Only i trk trk')
    (other : k ≠ i) : SlotBut prm blk l trk' k where
  boundary tracked := (only.boundary k other).trans (h.boundary tracked)
  bits j b at_ ne := (only.bits k other b).trans (h.bits j b at_ ne)

theorem slots_loop {t : Nat} {body : Tracking → Nat → Option Tracking} {Old New : Tracking → Nat → Prop}
    (frame : ∀ {s s' i k}, Only i s s' → k ≠ i → (Old s k → Old s' k) ∧ (New s k → New s' k))
    (turn : ∀ i < t, ∀ s, Old s i → ∃ s', body s i = some s' ∧ New s' i ∧ Only i s s')
    (old : ∀ i, Old trk i) :
    ∃ trk', (List.range t).foldlM body trk = some trk' ∧ (∀ i < t, New trk' i) ∧
      ∀ i, t ≤ i → Old trk' i := by
  have general : ∀ n ≤ t, ∃ s, (List.range n).foldlM body trk = some s ∧ (∀ i < n, New s i) ∧
      ∀ i, n ≤ i → Old s i := by
    intro n
    induction n with
    | zero => exact fun _ => ⟨trk, rfl, fun i h => absurd h (Nat.not_lt_zero i), fun i _ => old i⟩
    | succ n ih =>
      intro le
      obtain ⟨s, ran, done, left⟩ := ih (Nat.le_of_succ_le le)
      obtain ⟨s', step, new, only⟩ := turn n le s (left n (Nat.le_refl n))
      refine ⟨s', ?_, fun i small => ?_, fun i large => ?_⟩
      · rw [List.range_succ, foldlM_append, ran]
        simp [step]
      · rcases Nat.lt_succ_iff_lt_or_eq.mp small with before | rfl
        · exact (frame only (Nat.ne_of_lt before)).2 (done i before)
        · exact new
      · exact (frame only (Nat.ne_of_gt large)).1 (left i (Nat.le_of_succ_le large))
  exact general t (Nat.le_refl t)

theorem inAllCachesMask_bit (prm : Params) (i : Nat) :
    prm.inAllCachesMask.getLsbD i = decide (i < prm.numTrackedCaches) := by
  have small := prm.numTrackedCaches_lt
  rw [Params.inAllCachesMask, getLsbD_mask, ← Bool.decide_and]
  exact decide_eq_decide.mpr ⟨And.right, fun tracked => ⟨Nat.lt_trans tracked small, tracked⟩⟩

theorem getElem?_toHead (xs ys : List Nat) (blk j : Nat) :
    (blk :: (xs ++ ys))[j]? = if j = 0 then some blk
      else if j ≤ xs.length then (xs ++ blk :: ys)[j - 1]? else (xs ++ blk :: ys)[j]? := by
  cases j with
  | zero => rfl
  | succ j => grind

theorem getElem?_toTail (xs ys : List Nat) (blk j : Nat) :
    (xs ++ (ys ++ [blk]))[j]? = if j < xs.length then (xs ++ blk :: ys)[j]?
      else if j < xs.length + ys.length then (xs ++ blk :: ys)[j + 1]?
      else if j = xs.length + ys.length then some blk else none := by
  by_cases front : j < xs.length
  · rw [if_pos front, List.getElem?_append_left front, List.getElem?_append_left front]
  · grind

theorem perm_toTail (xs ys : List Nat) (blk : Nat) : (xs ++ blk :: ys).Perm (xs ++ (ys ++ [blk])) :=
  List.Perm.append_left xs (perm_append_singleton blk ys).symm

theorem before_toHead (at_ : (blk :: (xs ++ ys))[j]? = some b) (ne : b ≠ blk) :
    (1 ≤ j ∧ j ≤ xs.length ∧ (xs ++ blk :: ys)[j - 1]? = some b) ∨
      (xs.length < j ∧ (xs ++ blk :: ys)[j]? = some b) := by
  rw [getElem?_toHead] at at_
  split at at_
  · exact absurd (Option.some.inj at_).symm ne
  · grind

theorem before_toTail (at_ : (xs ++ (ys ++ [blk]))[j]? = some b) (ne : b ≠ blk) :
    (j < xs.length ∧ (xs ++ blk :: ys)[j]? = some b) ∨
      (xs.length ≤ j ∧ (xs ++ blk :: ys)[j + 1]? = some b) := by
  rw [getElem?_toTail] at at_
  split at at_
  · next front => exact .inl ⟨front, at_⟩
  · grind

theorem pos_unique (once : l.Nodup) {k : Nat} (first : l[j]? = some b)
    (second : l[k]? = some b) : j = k := by
  have inside : j < l.length := (List.getElem?_eq_some_iff.mp first).1
  exact (List.getElem?_inj inside once).mp (first.trans second.symm)

theorem and_bit_ne_zero (small : i < 32) (m : CachesMask) :
    (1#32 <<< i) &&& m ≠ 0 ↔ m.getLsbD i = true := by
  rw [← twoPow_eq]
  constructor
  · grind
  · intro set_ none
    have bit := congrArg (fun m : CachesMask => m.getLsbD i) none
    rw [getLsbD_and, getLsbD_twoPow, set_] at bit
    simp [small] at bit

theorem getLsbD_clear (small : i < 32) (m : CachesMask) (k : Nat) :
    (m &&& ~~~(1#32 <<< i)).getLsbD k = (m.getLsbD k && !decide (k = i)) := by
  by_cases inside : k < 32
  · grind
  · simp [getLsbD_of_ge m k (by omega)]

theorem getLsbD_set (small : i < 32) (m : CachesMask) (k : Nat) :
    (m ||| 1#32 <<< i).getLsbD k = (m.getLsbD k || decide (k = i)) := by
  by_cases own : k = i
  · subst own
    simp [small]
  · grind

@[simp]
theorem setMask_inCachesMask (trk : Tracking) (c : Nat) (m : CachesMask) (b : Nat) :
    (trk.setMask c m).inCachesMask b = if b = c then m else trk.inCachesMask b := by
  simp [Tracking.setMask, update_apply]

@[simp]
theorem setBoundary_boundaries (trk : Tracking) (i : Nat) (ptr : Option Nat) (k : Nat) :
    (trk.setBoundary i ptr).boundaries k = if k = i then ptr else trk.boundaries k := by
  simp [Tracking.setBoundary, update_apply]

@[simp]
theorem setBoundary_inCachesMask (trk : Tracking) (i : Nat) (ptr : Option Nat) :
    (trk.setBoundary i ptr).inCachesMask = trk.inCachesMask := rfl

@[simp]
theorem setMask_boundaries (trk : Tracking) (c : Nat) (m : CachesMask) :
    (trk.setMask c m).boundaries = trk.boundaries := rfl

theorem only_slot {c : Nat} {ptr : Option Nat}
    (bits : ∀ k ≠ i, m.getLsbD k = (trk.inCachesMask c).getLsbD k) :
    Only i trk ((trk.setMask c m).setBoundary i ptr) where
  boundary k other := by simp [other]
  bits k other b := by aesop

theorem SlotBut.bit (h : SlotBut prm blk l trk i) (tracked : i < prm.numTrackedCaches)
    (at_ : l[j]? = some b) (ne : b ≠ blk) :
    (trk.inCachesMask b).getLsbD i = decide (j ≤ prm.lastPos i) := by
  rw [h.bits j b at_ ne]
  simp [tracked]

theorem SlotBut.bits_inside (h : SlotBut prm blk (xs ++ blk :: ys) trk i)
    (tracked : i < prm.numTrackedCaches) (in_ : xs.length ≤ prm.lastPos i)
    (at_ : (blk :: (xs ++ ys))[j]? = some b) (ne : b ≠ blk) : (trk.inCachesMask b).getLsbD i
      = (decide (i < prm.numTrackedCaches) && decide (j ≤ prm.lastPos i)) := by
  rcases before_toHead at_ ne with ⟨low, high, was⟩ | ⟨low, was⟩
  · have before : j - 1 ≤ prm.lastPos i := by omega
    have after : j ≤ prm.lastPos i := by omega
    exact (h.bit tracked was ne).trans (by simp [before, after, tracked])
  · exact (h.bit tracked was ne).trans (by simp [tracked])

theorem toHeadBody_slot {mask : CachesMask} (seg : Segment lk none (xs ++ blk :: ys) none)
    (once : (xs ++ blk :: ys).Nodup) (notHead : xs ≠ [])
    (long : (xs ++ blk :: ys).length = prm.numBlocks) (tracked : i < prm.numTrackedCaches)
    (update : mask.getLsbD i = decide (prm.lastPos i < xs.length))
    (old : SlotBut prm blk (xs ++ blk :: ys) trk i) :
    ∃ trk', Tracking.toHeadBody lk blk mask trk i = some trk' ∧
      SlotBut prm blk (blk :: (xs ++ ys)) trk' i ∧ Only i trk trk' := by
  have small : i < 32 := Nat.lt_trans tracked prm.numTrackedCaches_lt
  have first := prm.lastPos_pos i
  have inside := prm.lastPos_lt tracked
  have bound := old.boundary tracked
  have here : (xs ++ blk :: ys)[xs.length]? = some blk := by simp
  rw [Tracking.toHeadBody]
  by_cases out : prm.lastPos i < xs.length
  · -- the block was outside: the boundary moves to the block before it, which loses the bit
    have position : prm.lastPos i - 1 + 1 = prm.lastPos i := Nat.sub_add_cancel first
    obtain ⟨c, at_⟩ : ∃ c, (xs ++ blk :: ys)[prm.lastPos i]? = some c :=
      ⟨_, List.getElem?_eq_getElem (by omega)⟩
    have before : lk.prev c = (xs ++ blk :: ys)[prm.lastPos i - 1]? :=
      seg.prev_of_getElem? (by rw [position]; exact at_)
    rw [if_pos ((and_bit_ne_zero small mask).mpr (by rw [update]; exact decide_eq_true out)), bound,
      at_]
    refine ⟨_, rfl, ⟨fun _ => ?_, fun j b at' ne => ?_⟩, only_slot fun k other => ?_⟩
    · rw [getElem?_toHead, if_neg (by omega), if_pos (by omega), ← before]
      simp
    · have value : ((trk.setMask c (trk.inCachesMask c &&& ~~~(1#32 <<< i))).inCachesMask b).getLsbD i
          = ((trk.inCachesMask b).getLsbD i && !decide (b = c)) := by
        by_cases own : b = c
        · subst own
          simp
        · simp [own]
      refine value.trans ?_
      rcases before_toHead at' ne with ⟨low, high, was⟩ | ⟨low, was⟩
      · rw [old.bit tracked was ne]
        by_cases own : b = c
        · grind [pos_unique]
        · grind
      · rw [old.bit tracked was ne]
        have past : ¬ j ≤ prm.lastPos i := by omega
        simp [past]
    · simp [getLsbD_clear small, other]
  · have clear : ¬ (1#32 <<< i) &&& mask ≠ 0 := by
      rw [and_bit_ne_zero small mask, update]
      simpa using out
    rw [if_neg clear]
    by_cases own : prm.lastPos i = xs.length
    · -- the block was the boundary itself
      rw [own, here] at bound
      obtain ⟨k, next⟩ : ∃ k, xs.length = k + 1 :=
        Nat.exists_eq_succ_of_ne_zero (fun empty => notHead (List.length_eq_zero_iff.mp empty))
      have before : lk.prev blk = (xs ++ blk :: ys)[k]? := seg.prev_of_getElem? (next ▸ here)
      rw [if_pos bound]
      refine ⟨_, rfl, ⟨fun _ => ?_, fun j b at' ne => ?_⟩, ?_⟩
      · rw [getElem?_toHead, if_neg (by omega), if_pos (by omega), own, next, Nat.add_sub_cancel,
          ← before]
        simp
      · exact old.bits_inside tracked (by omega) at' ne
      · exact ⟨fun k other => update_of_ne other _ _, fun _ _ _ => rfl⟩
    · -- the block stays inside
      have further : trk.boundaries i ≠ some blk := fun same =>
        own (pos_unique once (bound.symm.trans same) here)
      rw [if_neg further]
      refine ⟨_, rfl, ⟨fun _ => ?_, fun j b at' ne => ?_⟩, ⟨fun _ _ => rfl, fun _ _ _ => rfl⟩⟩
      · grind
      · exact old.bits_inside tracked (by omega) at' ne

theorem toTailBody_slot {mask : CachesMask}
    (seg : Segment lk none (xs ++ blk :: ys) none) (once : (xs ++ blk :: ys).Nodup)
    (long : (xs ++ blk :: ys).length = prm.numBlocks) (tracked : i < prm.numTrackedCaches)
    (update : mask.getLsbD i = decide (xs.length ≤ prm.lastPos i))
    (old : SlotBut prm blk (xs ++ blk :: ys) trk i) :
    ∃ trk', Tracking.toTailBody lk blk mask trk i = some trk' ∧
      SlotBut prm blk (xs ++ (ys ++ [blk])) trk' i ∧ Only i trk trk' := by
  have small : i < 32 := Nat.lt_trans tracked prm.numTrackedCaches_lt
  have inside := prm.lastPos_lt tracked
  have total : xs.length + ys.length + 1 = prm.numBlocks := by simpa [Nat.add_assoc] using long
  have bound := old.boundary tracked
  have here : (xs ++ blk :: ys)[xs.length]? = some blk := by simp
  rw [Tracking.toTailBody]
  by_cases in_ : xs.length ≤ prm.lastPos i
  · -- the block was inside: the boundary moves to the block after it, which gains the bit
    obtain ⟨c, at_⟩ : ∃ c, (xs ++ blk :: ys)[prm.lastPos i]? = some c :=
      ⟨_, List.getElem?_eq_getElem (by omega)⟩
    obtain ⟨d, follows⟩ : ∃ d, (xs ++ blk :: ys)[prm.lastPos i + 1]? = some d :=
      ⟨_, List.getElem?_eq_getElem (by omega)⟩
    have next : lk.next c = some d := (seg.next_of_getElem? at_).trans follows
    have further : d ≠ blk := fun same => by
      have := pos_unique once (same ▸ follows) here
      omega
    have skip : ¬ some d = some blk := fun same => further (Option.some.inj same)
    rw [if_pos ((and_bit_ne_zero small mask).mpr (by rw [update]; exact decide_eq_true in_)), bound,
      at_]
    simp only [bind_eq_bind, bind_some, next, if_neg skip]
    refine ⟨_, rfl, ⟨fun _ => ?_, fun j b at' ne => ?_⟩, ?_⟩
    · rw [getElem?_toTail, if_neg (by omega), if_pos (by omega), follows]
      simp
    · have value : (((trk.setBoundary i (some d)).setMask d
            (trk.inCachesMask d ||| 1#32 <<< i)).inCachesMask b).getLsbD i
          = ((trk.inCachesMask b).getLsbD i || decide (b = d)) := by
        by_cases own : b = d
        · subst own
          simp [getLsbD_set small]
        · simp [own]
      refine value.trans ?_
      rcases before_toTail at' ne with ⟨low, was⟩ | ⟨low, was⟩
      · have in' : j ≤ prm.lastPos i := by omega
        simp [old.bit tracked was ne, in', tracked]
      · rw [old.bit tracked was ne]
        by_cases own : b = d
        · grind [pos_unique]
        · grind
    · exact only_slot fun k other => by simp [getLsbD_set small, other]
  · -- the block was outside, and stays there
    have clear : ¬ (1#32 <<< i) &&& mask ≠ 0 := by grind
    rw [if_neg clear]
    refine ⟨_, rfl, ⟨fun _ => ?_, fun j b at' ne => ?_⟩, ⟨fun _ _ => rfl, fun _ _ _ => rfl⟩⟩
    · grind
    · rcases before_toTail at' ne with ⟨low, was⟩ | ⟨low, was⟩
      · exact (old.bit tracked was ne).trans (by simp [tracked])
      · have past : ¬ j + 1 ≤ prm.lastPos i := by omega
        have past' : ¬ j ≤ prm.lastPos i := by omega
        exact (old.bit tracked was ne).trans (by simp [past, past'])

theorem slots_setMask {l' : List Nat} (same : ∀ b ∈ l', b ∈ l)
    (done : ∀ i < prm.numTrackedCaches, SlotBut prm blk l' trk i)
    (left : ∀ i, prm.numTrackedCaches ≤ i → SlotBut prm blk l trk i) (moved : ∀ j, l'[j]? = some blk
    → ∀ i, m.getLsbD i = (decide (i < prm.numTrackedCaches) && decide (j ≤ prm.lastPos i)))
    (i : Nat) : Slot prm l' (trk.setMask blk m) i  where
  boundary tracked := (done i tracked).boundary tracked
  bits j b at_ := by
    by_cases own : b = blk
    · subst own
      simpa using moved j at_ i
    · rw [setMask_inCachesMask, if_neg own]
      by_cases tracked : i < prm.numTrackedCaches
      · exact (done i tracked).bits j b at_ own
      · obtain ⟨k, was⟩ := mem_iff_getElem?.mp (same b (mem_of_getElem? at_))
        rw [(left i (Nat.le_of_not_lt tracked)).bits k b was own]
        simp [tracked]

theorem moveBlockToHead_slots (seg : Segment lk none (xs ++ blk :: ys) none)
    (once : (xs ++ blk :: ys).Nodup) (notHead : xs ≠ [])
    (long : (xs ++ blk :: ys).length = prm.numBlocks)
    (old : ∀ i, Slot prm (xs ++ blk :: ys) trk i) :
    ∃ trk', trk.moveBlockToHead prm lk blk = some trk' ∧
      ∀ i, Slot prm (blk :: (xs ++ ys)) trk' i := by
  have here : (xs ++ blk :: ys)[xs.length]? = some blk := by simp
  have update : ∀ i < prm.numTrackedCaches,
      (prm.inAllCachesMask ^^^ trk.inCachesMask blk).getLsbD i = decide (prm.lastPos i < xs.length) := by
    intro i tracked
    rw [getLsbD_xor, (old i).bits _ _ here, inAllCachesMask_bit]
    by_cases out : prm.lastPos i < xs.length
    · simp [tracked, out]
    · simp [Nat.le_of_not_lt out]
  obtain ⟨trk', ran, done, left⟩ := slots_loop
    (fun only other => ⟨fun h => h.frame only other, fun h => h.frame only other⟩)
    (fun i tracked s was => toHeadBody_slot seg once notHead long tracked (update i tracked) was)
    (fun i => (old i).but blk)
  refine ⟨trk'.setMask blk prm.inAllCachesMask, ?_,
    slots_setMask (fun b mem => List.perm_middle.symm.subset mem) done left fun j at_ i => ?_⟩
  · rw [Tracking.moveBlockToHead, ran]
    rfl
  · grind [inAllCachesMask_bit]

theorem moveBlockToTail_slots (seg : Segment lk none (xs ++ blk :: ys) none)
    (once : (xs ++ blk :: ys).Nodup) (long : (xs ++ blk :: ys).length = prm.numBlocks)
    (old : ∀ i, Slot prm (xs ++ blk :: ys) trk i) :
    ∃ trk', trk.moveBlockToTail prm lk blk = some trk' ∧
      ∀ i, Slot prm (xs ++ (ys ++ [blk])) trk' i := by
  have here : (xs ++ blk :: ys)[xs.length]? = some blk := by simp
  have update : ∀ i < prm.numTrackedCaches,
      (trk.inCachesMask blk).getLsbD i = decide (xs.length ≤ prm.lastPos i) := by
    intro i tracked
    rw [(old i).bits _ _ here]
    simp [tracked]
  obtain ⟨trk', ran, done, left⟩ := slots_loop
    (fun only other => ⟨fun h => h.frame only other, fun h => h.frame only other⟩)
    (fun i tracked s was => toTailBody_slot seg once long tracked (update i tracked) was)
    (fun i => (old i).but blk)
  have moved := perm_toTail xs ys blk
  refine ⟨trk'.setMask blk 0, ?_,
    slots_setMask (fun b mem => moved.symm.subset mem) done left fun j at_ i => ?_⟩
  · rw [Tracking.moveBlockToTail, ran]
    rfl
  · have last : (xs ++ (ys ++ [blk]))[xs.length + ys.length]? = some blk := by
      simp
    have total : xs.length + ys.length + 1 = prm.numBlocks := by simpa [Nat.add_assoc] using long
    obtain rfl := pos_unique (moved.nodup_iff.mp once) at_ last
    by_cases tracked : i < prm.numTrackedCaches
    · have inside := prm.lastPos_lt tracked
      have past : ¬ xs.length + ys.length ≤ prm.lastPos i := by omega
      simp [past]
    · simp [tracked]

/-- `init` has walked over the first `walked` blocks and has set the first `j` boundaries. -/
structure Walked (prm : Params) (l : List Nat) (walked j : Nat) (mask : CachesMask)
    (trk : Tracking) : Prop where
  few : j ≤ prm.numTrackedCaches
  passed : ∀ i < prm.numTrackedCaches, i < j ↔ prm.lastPos i < walked
  mask : ∀ i, mask.getLsbD i = (decide (i < prm.numTrackedCaches) && decide (j ≤ i))
  boundary : ∀ i < j, trk.boundaries i = l[prm.lastPos i]?
  bits : ∀ k b, k < walked → l[k]? = some b → ∀ i, (trk.inCachesMask b).getLsbD i
    = (decide (i < prm.numTrackedCaches) && decide (k ≤ prm.lastPos i))

theorem two_mul_size_le (prm : Params) : 2 * prm.size ≤ 2 ^ 32 := by
  obtain ⟨k, pow⟩ := prm.sizePow
  have ranged := prm.ranged
  rw [pow] at ranged ⊢
  have small : k < 32 := (Nat.pow_lt_pow_iff_right (by decide)).mp ranged
  rw [← Nat.pow_succ']
  exact Nat.pow_le_pow_right (by decide) small

theorem Walked.visit {p : Nat} (h : Walked prm l p j m trk) (once : l.Nodup)
    (at_ : l[p]? = some b) (k c : Nat) (le : k < p + 1) (here : l[k]? = some c) (i : Nat) :
    ((trk.setMask b m).inCachesMask c).getLsbD i
      = (decide (i < prm.numTrackedCaches) && decide (k ≤ prm.lastPos i)) := by
  rw [setMask_inCachesMask]
  by_cases own : c = b
  · subst own
    obtain rfl := pos_unique once here at_
    rw [if_pos rfl, h.mask i]
    by_cases tracked : i < prm.numTrackedCaches
    · have passed := h.passed i tracked
      have same : j ≤ i ↔ k ≤ prm.lastPos i := by omega
      simp [same]
    · simp [tracked]
  · have before : k ≠ p := fun same => by
      rw [same, at_] at here
      exact own (Option.some.inj here).symm
    rw [if_neg own]
    exact h.bits k c (by omega) here i

theorem Walked.cut (h : Walked prm l (prm.lastPos j) j m trk)
    (once : l.Nodup) (at_ : l[prm.lastPos j]? = some b) (tracked : j < prm.numTrackedCaches) :
    Walked prm l (prm.lastPos j + 1) (j + 1) (m &&& ~~~(1#32 <<< j))
      ((trk.setMask b m).setBoundary j (some b)) where
  few := tracked
  passed i small := by
    constructor
    · intro before
      exact Nat.lt_succ_of_le (prm.lastPos_mono (Nat.le_of_lt_succ before))
    · intro before
      by_contra later
      have grow := prm.lastPos_lt_succ j
      have le := prm.lastPos_mono (Nat.le_of_not_lt later)
      omega
  mask i := by
    rw [getLsbD_clear (Nat.lt_trans tracked prm.numTrackedCaches_lt), h.mask i]
    by_cases same : i = j
    · subst same
      simp
    · grind
  boundary i small := by
    rw [setBoundary_boundaries]
    by_cases same : i = j
    · rw [if_pos same, same, at_]
    · rw [if_neg same]
      exact h.boundary i (by omega)
  bits k c le here := h.visit once at_ k c le here

theorem Walked.pass {p : Nat} (h : Walked prm l p j m trk) (once : l.Nodup)
    (at_ : l[p]? = some b) (inside : ∀ i < prm.numTrackedCaches, prm.lastPos i ≠ p) :
    Walked prm l (p + 1) j m (trk.setMask b m) where
  few := h.few
  passed i tracked := by
    have passed := h.passed i tracked
    have ne := inside i tracked
    omega
  mask := h.mask
  boundary := h.boundary
  bits k c le here := h.visit once at_ k c le here

theorem initLoop_slots (spells : Spells lk l) (long : l.length = prm.numBlocks) {fuel : Nat}
    (split : l = xs ++ ys) (enough : ys.length ≤ fuel) (h : Walked prm l xs.length j m trk) :
    ∃ trk', Tracking.initLoop prm lk fuel ys.head? (xs.length * prm.blkSize)
        (prm.minTrackedSize * 2 ^ j) m j trk = some trk' ∧ ∀ i, Slot prm l trk' i := by
  induction ys generalizing xs fuel j m trk with
  | nil =>
    refine ⟨trk, by cases fuel <;> rfl, fun i => ⟨fun tracked => ?_, fun k b at_ => ?_⟩⟩
    · have inside := prm.lastPos_lt tracked
      rw [append_nil] at split
      rw [split] at long
      exact h.boundary i ((h.passed i tracked).mpr (by omega))
    · have inside := (List.getElem?_eq_some_iff.mp at_).1
      rw [append_nil] at split
      exact h.bits k b (split ▸ inside) at_ i
  | cons y ys ih =>
    obtain ⟨fuel, rfl⟩ : ∃ f, fuel = f + 1 := ⟨fuel - 1, by
      have : ys.length + 1 ≤ fuel := enough
      omega⟩
    have at_ : l[xs.length]? = some y := by simp [split]
    have total : xs.length + ys.length + 1 = prm.numBlocks := by grind
    have next : lk.next y = ys.head? := by
      rw [spells.segment.next_of_getElem? at_, split]
      cases ys <;> simp
    have last : y = lk.tail ↔ ys = [] := by
      have tail := spells.tail
      rw [List.getLast?_eq_getElem?] at tail
      constructor
      · intro same
        have pos := pos_unique spells.once at_ (same ▸ tail)
        exact List.length_eq_zero_iff.mp (by omega)
      · grind
    obtain ⟨k, two, blocks, lastPos⟩ := prm.exists_blocks
    have size := prm.numBlocks_mul
    have room : (xs.length + 1) * prm.blkSize ≤ prm.size := by
      rw [← size]
      exact Nat.mul_le_mul_right _ (by omega)
    have curr : (xs.length * prm.blkSize + prm.blkSize) % 2 ^ 32 = (xs.length + 1) * prm.blkSize := by
      rw [← Nat.succ_mul]
      exact Nat.mod_eq_of_lt (Nat.lt_of_le_of_lt room prm.ranged)
    have reached : (xs.length + 1) * prm.blkSize = prm.minTrackedSize * 2 ^ j
        ↔ xs.length = prm.lastPos j := by
      rw [blocks, Nat.mul_right_comm, ← lastPos, Nat.mul_left_inj (Nat.ne_of_gt prm.blkSize_pos)]
      omega
    have grown : (xs ++ [y]).length = xs.length + 1 := by simp
    have split' : l = (xs ++ [y]) ++ ys := by simpa using split
    have less : ys.length ≤ fuel := Nat.le_of_succ_le_succ enough
    rw [List.head?_cons, Tracking.initLoop]
    simp only [curr, next]
    by_cases cut : (xs.length + 1) * prm.blkSize = prm.minTrackedSize * 2 ^ j ∧ y ≠ lk.tail
    · -- here the j-th tracked cache ends
      have here := reached.mp cut.1
      have tracked : j < prm.numTrackedCaches := by
        refine Nat.lt_of_le_of_ne h.few fun all => ?_
        have le := prm.numBlocks_le
        rw [← all] at le
        have more : ys.length ≠ 0 := fun none => cut.2 (last.mpr (List.length_eq_zero_iff.mp none))
        omega
      have double : prm.minTrackedSize * 2 ^ j * 2 % 2 ^ 32 = prm.minTrackedSize * 2 ^ (j + 1) := by
        rw [Nat.mul_assoc, ← Nat.pow_succ]
        refine Nat.mod_eq_of_lt (Nat.lt_of_le_of_lt ?_ (Nat.lt_of_lt_of_le prm.size_bounds.2.2
          (two_mul_size_le prm)))
        exact Nat.mul_le_mul_left _ (Nat.pow_le_pow_right (by decide) tracked)
      rw [if_pos cut, if_pos tracked, double, ← grown]
      refine ih split' less ?_
      rw [grown]
      rw [here] at h at_ ⊢
      exact h.cut spells.once at_ tracked
    · rw [if_neg cut, ← grown]
      refine ih split' less ?_
      rw [grown]
      refine h.pass spells.once at_ fun i small same => ?_
      -- a boundary here would have been set
      have passed := h.passed i small
      have le : j ≤ i := by omega
      have inside := prm.lastPos_lt small
      have first := h.passed j (Nat.lt_of_le_of_lt le small)
      have order := prm.lastPos_mono le
      refine cut ⟨reached.mpr (by omega), fun tail => ?_⟩
      rw [last.mp tail] at total
      simp only [length_nil] at total
      omega

theorem init_slots (spells : Spells lk l) (long : l.length = prm.numBlocks)
    (trk : Tracking) : ∃ trk', trk.init prm lk = some trk' ∧ ∀ i, Slot prm l trk' i := by
  have start : Walked prm l ([] : List Nat).length 0 prm.inAllCachesMask trk :=
    { few := Nat.zero_le _
      passed := fun i _ => by simp
      mask := fun i => by simp [inAllCachesMask_bit]
      boundary := fun i none => absurd none (Nat.not_lt_zero i)
      bits := fun k _ none => absurd none (Nat.not_lt_zero k) }
  have loop := initLoop_slots spells long rfl (Nat.le_of_eq long) start
  rw [Tracking.init, if_pos (Nat.ne_of_gt prm.numTrackedCaches_pos), ← spells.head]
  simpa using loop

end Gem5.Cache.FaLru
