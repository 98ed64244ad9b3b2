import Gem5.Cache.FaLruRuns
import Gem5.Lib.Recency
import Gem5.Lib.Lists

/-!
# The statistics of the fully associative cache

The keys of the valid blocks, from the head of the list on, are the contents of a cache that gives
up what was used least recently. An access is recorded after the block found has become the head.
-/

namespace Gem5.Cache.FaLru

open Chains Recency List Option

variable {blk : Nat}

/-- The block of an access, with whether it is secure. -/
abbrev Key := Addr × Bool

def keyOf (prm : Params) (access : Addr × Bool) : Key := (prm.extractTag access.1, access.2)

/-- What the cache does on a miss. -/
def fill (prm : Params) (c : FaLru) (addr : Addr) (secure : Bool) : Option FaLru := do
  let victim := c.findVictim
  let c ← if c.isValid victim then invalidate prm c victim else some c
  insertBlock prm c addr secure victim

def access (prm : Params) (c : FaLru) (addr : Addr) (secure : Bool) : Option FaLru := do
  let (c, blk, _) ← accessBlock prm c addr secure
  match blk with
  | some _ => some c
  | none => fill prm c addr secure

def accesses (prm : Params) (c : FaLru) (l : List (Addr × Bool)) : Option FaLru :=
  l.foldlM (fun c a => access prm c a.1 a.2) c

/-- The blocks of the tracked cache. -/
def capacity (prm : Params) (i : Nat) : Nat := prm.minTrackedSize * 2 ^ i / prm.blkSize

/-- Each tracked cache has the hits and the misses of a cache of its own size. -/
def RightStats (prm : Params) (c : FaLru) (keys : List Key) : Prop :=
  ∀ i < prm.numTrackedCaches, c.tracking.hits i = hits (capacity prm i) keys ∧
    c.tracking.misses i = misses (capacity prm i) keys

variable {prm : Params} {lk : Links Nat} {c c' : FaLru} {trk trk' : Tracking} {s : List Key}
  {addr : Addr} {secure : Bool}

structure SameCounts (trk trk' : Tracking) : Prop where
  hits : trk'.hits = trk.hits
  misses : trk'.misses = trk.misses

theorem SameCounts.trans {trk'' : Tracking} (first : SameCounts trk trk')
    (second : SameCounts trk' trk'') : SameCounts trk trk'' :=
  ⟨second.hits.trans first.hits, second.misses.trans first.misses⟩

theorem foldlM_counts {body : Tracking → Nat → Option Tracking}
    (turn : ∀ trk i trk', body trk i = some trk' → SameCounts trk trk') {l : List Nat}
    (folded : l.foldlM body trk = some trk') : SameCounts trk trk' :=
  Traversals.foldlM_keep (P := fun _ next => SameCounts trk next)
    (fun _ i next next' kept one => kept.trans (turn next i next' one)) ⟨rfl, rfl⟩ folded

theorem toHeadBody_counts {i : Nat} {mask : CachesMask}
    (done : Tracking.toHeadBody lk blk mask trk i = some trk') : SameCounts trk trk' := by
  rw [Tracking.toHeadBody] at done
  split at done
  · obtain ⟨boundary, -, done⟩ := Option.bind_eq_some_iff.mp done
    cases done
    exact ⟨rfl, rfl⟩
  · split at done
    · cases done
      exact ⟨rfl, rfl⟩
    · cases done
      exact ⟨rfl, rfl⟩

theorem toTailBody_counts {i : Nat} {mask : CachesMask}
    (done : Tracking.toTailBody lk blk mask trk i = some trk') : SameCounts trk trk' := by
  rw [Tracking.toTailBody] at done
  split at done
  · obtain ⟨boundary, -, done⟩ := Option.bind_eq_some_iff.mp done
    obtain ⟨following, -, done⟩ := Option.bind_eq_some_iff.mp done
    cases done
    exact ⟨rfl, rfl⟩
  · cases done
    exact ⟨rfl, rfl⟩

theorem moveToHead_counts (moved : moveToHead prm c blk = some c') :
    SameCounts c.tracking c'.tracking := by
  rw [moveToHead] at moved
  split at moved
  · obtain ⟨trk, head, moved⟩ := Option.bind_eq_some_iff.mp moved
    obtain ⟨lk, -, moved⟩ := Option.bind_eq_some_iff.mp moved
    cases moved
    obtain ⟨trk₁, folded, head⟩ := Option.bind_eq_some_iff.mp head
    cases head
    have counts := foldlM_counts (fun _ _ _ => toHeadBody_counts) folded
    exact ⟨counts.hits, counts.misses⟩
  · cases moved
    exact ⟨rfl, rfl⟩

theorem moveToTail_counts (moved : moveToTail prm c blk = some c') :
    SameCounts c.tracking c'.tracking := by
  rw [moveToTail] at moved
  split at moved
  · obtain ⟨trk, tail, moved⟩ := Option.bind_eq_some_iff.mp moved
    obtain ⟨lk, -, moved⟩ := Option.bind_eq_some_iff.mp moved
    cases moved
    obtain ⟨trk₁, folded, tail⟩ := Option.bind_eq_some_iff.mp tail
    cases tail
    have counts := foldlM_counts (fun _ _ _ => toTailBody_counts) folded
    exact ⟨counts.hits, counts.misses⟩
  · cases moved
    exact ⟨rfl, rfl⟩

/-- The valid blocks are in front, and hold the keys in this order. -/
def Holds (prm : Params) (c : FaLru) (s : List Key) : Prop :=
  ∃ l free, Listed prm c l ∧ Filled prm c ∧
    l.map c.entry = s.map some ++ List.replicate free none

theorem Holds.tagHash_none (holds : Holds prm c s) {key : Key} (absent : key ∉ s) :
    c.tagHash key = none := by
  obtain ⟨l, free, listed, filled, keys⟩ := holds
  by_contra some_
  obtain ⟨b, found⟩ := Option.ne_none_iff_exists'.mp some_
  obtain ⟨inside, entry⟩ := (filled.hash_iff key b).mp found
  have mem : some key ∈ l.map c.entry :=
    entry ▸ List.mem_map_of_mem (listed.mem.mpr inside)
  rw [keys] at mem
  rcases List.mem_append.mp mem with mem | mem
  · grind
  · exact absurd (List.eq_of_mem_replicate mem) (some_ne_none key)

theorem recordAccess_hits (trk : Tracking) (blk : Option Nat) (isValid : Bool) {i : Nat}
    (inside : i ≤ prm.numTrackedCaches) (hit : Bool)
    (reads : (if i = prm.numTrackedCaches then blk.isSome && isValid
      else blk.any fun b => (1#32 <<< i) &&& trk.inCachesMask b != 0) = hit) :
    (trk.recordAccess prm blk isValid).hits i = trk.hits i + (if hit = true then 1 else 0) ∧
      (trk.recordAccess prm blk isValid).misses i = trk.misses i + (if hit = true then 0 else 1) := by
  simp only [Tracking.recordAccess, reads, inside]
  cases hit <;> simp

theorem access_hit (holds : Holds prm c s) (mem : keyOf prm (addr, secure) ∈ s) :
    ∃ c', access prm c addr secure = some c' ∧
      Holds prm c' (serve prm.numBlocks s (keyOf prm (addr, secure))) ∧
      ∀ i ≤ prm.numTrackedCaches, c'.tracking.hits i = c.tracking.hits i + 1 ∧
        c'.tracking.misses i = c.tracking.misses i := by
  obtain ⟨l, free, listed, filled, keys⟩ := holds
  obtain ⟨newer, older, rfl, notNewer⟩ := eq_append_cons_of_mem mem
  rw [map_append, List.append_assoc] at keys
  obtain ⟨xs, rest, rfl, front, back⟩ := List.map_eq_append_iff.mp keys
  obtain ⟨blk, ys, rfl, entry, tail⟩ := List.map_eq_cons_iff.mp back
  have inside := listed.mem.mp (mem_append_right xs (List.mem_cons_self (l := ys)))
  have found := (filled.hash_iff _ blk).mpr ⟨inside, entry⟩
  obtain ⟨c₁, moved, listed₁, same, accessed⟩ := accessBlock_hit listed filled found
  have counts := moveToHead_counts moved
  refine ⟨{ c₁ with tracking := c₁.tracking.recordAccess prm (some blk) true },
    by rw [access, accessed]; rfl, ⟨blk :: (xs ++ ys), free,
    ⟨listed₁.spells, listed₁.all, fun i => ⟨(listed₁.slots i).boundary, (listed₁.slots i).bits⟩⟩,
    ⟨(same.filled filled).hash, (same.filled filled).cleared⟩, ?_⟩, fun i le => ?_⟩
  · change (blk :: (xs ++ ys)).map c₁.entry = _
    rw [serve_found notNewer, map_congr_left fun b _ => same.entry b, List.map_cons,
      map_append, entry, front, tail, List.map_cons, map_append, List.cons_append,
      List.append_assoc]
    rfl
  · have reads : (if i = prm.numTrackedCaches then (some blk).isSome && true
        else (some blk).any fun b => (1#32 <<< i) &&& c₁.tracking.inCachesMask b != 0) = true := by
      split
      · rfl
      · have tracked : i < prm.numTrackedCaches := by omega
        have bit := (listed₁.slots i).bits 0 blk rfl
        rw [decide_eq_true tracked, decide_eq_true (Nat.zero_le _)] at bit
        have small := Nat.lt_trans tracked prm.numTrackedCaches_lt
        exact bne_iff_ne.mpr ((and_bit_ne_zero small _).mpr bit)
    have recorded := recordAccess_hits c₁.tracking (some blk) true le true reads
    rw [if_pos rfl, if_pos rfl, counts.hits, counts.misses] at recorded
    exact recorded

theorem insertBlock_holds {xs : List Nat} {free : Nat} (listed : Listed prm c (xs ++ [blk]))
    (filled : Filled prm c) (unused : c.entry blk = none)
    (keys : xs.map c.entry = s.map some ++ List.replicate free none)
    (absent : c.tagHash (keyOf prm (addr, secure)) = none) :
    ∃ c', insertBlock prm c addr secure blk = some c' ∧
      Holds prm c' (keyOf prm (addr, secure) :: s) ∧ SameCounts c.tracking c'.tracking := by
  have invalid : c.isValid blk = false := by
    rw [isValid_eq, unused]
    rfl
  obtain ⟨c₁, c', moved, inserted, tracking, listed', filled', entries⟩ :=
    insertBlock_back listed filled invalid absent
  have apart : blk ∉ xs := fun mem =>
    (List.nodup_append.mp listed.spells.once).2.2 _ mem _ (List.mem_singleton_self _) rfl
  refine ⟨c', inserted, ⟨blk :: xs, free, listed', filled', ?_⟩, ?_⟩
  · have others : xs.map c'.entry = xs.map c.entry :=
      map_congr_left fun b mem => (entries b).trans (if_neg (ne_of_mem_of_not_mem mem apart))
    rw [List.map_cons, others, keys, entries, if_pos rfl]
    rfl
  · rw [tracking]
    exact ⟨(moveToHead_counts moved).hits, (moveToHead_counts moved).misses⟩

theorem tagHash_none_of_entries {c₁ : FaLru} {key : Key} (filled : Filled prm c)
    (filled₁ : Filled prm c₁) (missing : c.tagHash key = none)
    (entries : ∀ b, c₁.entry b = if b = blk then none else c.entry b) : c₁.tagHash key = none := by
  by_contra some_
  obtain ⟨b, found⟩ := Option.ne_none_iff_exists'.mp some_
  obtain ⟨inside, entry⟩ := (filled₁.hash_iff _ b).mp found
  rw [entries] at entry
  split at entry
  · cases entry
  · rw [(filled.hash_iff _ b).mpr ⟨inside, entry⟩] at missing
    cases missing

theorem fill_full {xs : List Nat} {front : List Key} {last : Key}
    (listed : Listed prm c (xs ++ [c.links.tail])) (filled : Filled prm c)
    (keys : xs.map c.entry = front.map some) (used : c.entry c.links.tail = some last)
    (missing : c.tagHash (keyOf prm (addr, secure)) = none) :
    ∃ c', fill prm c addr secure = some c' ∧ Holds prm c' (keyOf prm (addr, secure) :: front) ∧
      SameCounts c.tracking c'.tracking := by
  have valid : c.isValid c.links.tail = true := by
    rw [isValid_eq, used]
    rfl
  obtain ⟨c₁, invalidated, moved, listed₁, filled₁, entries⟩ :=
    invalidate_listed listed filled valid
  have apart : c.links.tail ∉ xs := fun mem =>
    (List.nodup_append.mp listed.spells.once).2.2 _ mem _ (List.mem_singleton_self _) rfl
  have keys₁ : xs.map c₁.entry = front.map some ++ List.replicate 0 none := by
    rw [map_congr_left fun b mem => (entries b).trans
      (if_neg (ne_of_mem_of_not_mem mem apart)), keys, List.replicate_zero, append_nil]
  obtain ⟨c', inserted, holds', counts⟩ := insertBlock_holds listed₁ filled₁
    ((entries _).trans (if_pos rfl)) keys₁ (tagHash_none_of_entries filled filled₁ missing entries)
  refine ⟨c', ?_, holds', SameCounts.trans ?_ counts⟩
  · rw [fill, findVictim, if_pos valid, invalidated]
    exact inserted
  · exact ⟨(moveToTail_counts moved).hits, (moveToTail_counts moved).misses⟩

theorem fill_holds (holds : Holds prm c s) (absent : keyOf prm (addr, secure) ∉ s) :
    ∃ c', fill prm c addr secure = some c' ∧
      Holds prm c' (serve prm.numBlocks s (keyOf prm (addr, secure))) ∧
      SameCounts c.tracking c'.tracking := by
  have missing := holds.tagHash_none absent
  obtain ⟨l, free, listed, filled, keys⟩ := holds
  obtain ⟨xs, rfl⟩ := List.getLast?_eq_some_iff.mp listed.spells.tail
  have length := congrArg List.length keys
  rw [length_map, listed.length, length_append, length_map,
    length_replicate] at length
  rw [serve, if_neg absent]
  cases free with
  | zero =>
    have full : ¬s.length < prm.numBlocks := by omega
    obtain ⟨front, last, rfl⟩ : ∃ front last, s = front ++ [last] := by
      refine eq_nil_or_concat' s |>.resolve_left fun none => ?_
      subst none
      simp at keys
    rw [List.replicate_zero, append_nil, map_append, map_append] at keys
    obtain ⟨left, right⟩ := append_inj' keys rfl
    rw [if_neg full, dropLast_concat]
    exact fill_full listed filled left (List.singleton_inj.mp right) missing
  | succ free =>
    have room : s.length < prm.numBlocks := by omega
    rw [List.replicate_succ', ← List.append_assoc, map_append] at keys
    obtain ⟨left, right⟩ := append_inj' keys rfl
    have unused := List.singleton_inj.mp right
    have invalid : ¬c.isValid c.links.tail = true := by simp [isValid_eq, unused]
    obtain ⟨c', inserted, holds', counts⟩ := insertBlock_holds listed filled unused left missing
    refine ⟨c', ?_, ?_, counts⟩
    · grind [fill, findVictim]
    · rw [if_pos room]
      exact holds'

theorem access_holds (holds : Holds prm c s) (addr : Addr) (secure : Bool) :
    ∃ c', access prm c addr secure = some c' ∧
      Holds prm c' (serve prm.numBlocks s (keyOf prm (addr, secure))) ∧
      ∀ i ≤ prm.numTrackedCaches,
        c'.tracking.hits i
            = c.tracking.hits i + hitsFrom prm.numBlocks s [keyOf prm (addr, secure)] ∧
          c'.tracking.misses i
            = c.tracking.misses i + missesFrom prm.numBlocks s [keyOf prm (addr, secure)] := by
  by_cases mem : keyOf prm (addr, secure) ∈ s
  · obtain ⟨c', accessed, holds', counts⟩ := access_hit holds mem
    refine ⟨c', accessed, holds', fun i le => ?_⟩
    rw [(served_mem mem).1, (served_mem mem).2]
    exact counts i le
  · have absent := holds.tagHash_none mem
    have filled := holds
    obtain ⟨l, free, listed, filled, keys⟩ := filled
    have holds₁ : Holds prm { c with tracking := c.tracking.recordAccess prm none false } s :=
      ⟨l, free, ⟨listed.spells, listed.all, fun i =>
        ⟨(listed.slots i).boundary, (listed.slots i).bits⟩⟩, ⟨filled.hash, filled.cleared⟩, keys⟩
    obtain ⟨c', fills, holds', counts⟩ := fill_holds holds₁ mem
    refine ⟨c', ?_, holds', fun i le => ?_⟩
    · rw [access, accessBlock_miss filled absent]
      exact fills
    · have recorded := recordAccess_hits c.tracking none false le false (by split <;> rfl)
      rw [counts.hits, counts.misses, (served_notMem mem).1, (served_notMem mem).2]
      exact recorded

theorem accesses_holds (l : List (Addr × Bool)) (holds : Holds prm c s) :
    ∃ c', accesses prm c l = some c' ∧ ∀ i ≤ prm.numTrackedCaches,
      c'.tracking.hits i
          = c.tracking.hits i + hitsFrom prm.numBlocks s (l.map (keyOf prm)) ∧
        c'.tracking.misses i
          = c.tracking.misses i + missesFrom prm.numBlocks s (l.map (keyOf prm)) := by
  induction l generalizing c s with
  | nil => exact ⟨c, rfl, fun _ _ => ⟨rfl, rfl⟩⟩
  | cons a l ih =>
    obtain ⟨addr, secure⟩ := a
    obtain ⟨c₁, accessed, holds₁, counts₁⟩ := access_holds holds addr secure
    obtain ⟨c', rest, counts⟩ := ih holds₁
    refine ⟨c', ?_, fun i le => ?_⟩
    · rw [accesses, foldlM_cons, accessed]
      exact rest
    · grind [hitsFrom_cons, missesFrom_cons]

theorem initLoop_counts {fuel currSize trackedCacheSize j : Nat} {blk : Option Nat} {m : CachesMask}
    (walked : Tracking.initLoop prm lk fuel blk currSize trackedCacheSize m j trk = some trk') :
    SameCounts trk trk' := by
  induction fuel generalizing blk currSize trackedCacheSize j m trk with
  | zero =>
    cases blk with
    | none =>
      cases walked
      exact ⟨rfl, rfl⟩
    | some => cases walked
  | succ fuel ih =>
    cases blk with
    | none =>
      cases walked
      exact ⟨rfl, rfl⟩
    | some =>
      rw [Tracking.initLoop] at walked
      split at walked
      · split at walked
        · exact ⟨(ih walked).hits, (ih walked).misses⟩
        · cases walked
      · exact ⟨(ih walked).hits, (ih walked).misses⟩

theorem tagsInit_holds (prm : Params) : ∃ start, tagsInit prm = some start ∧
    Holds prm start [] ∧ ∀ i, start.tracking.hits i = 0 ∧ start.tracking.misses i = 0 := by
  obtain ⟨start, init, listed, cleared, empty⟩ := tagsInit_listed prm
  have invalid : ∀ b, start.isValid b = false := fun b => by
    rw [isValid, cleared]
    rfl
  have filled : Filled prm start := by
    refine ⟨fun key b => ?_, fun b _ => cleared b⟩
    rw [empty, invalid]
    simp
  have free : ∀ b, start.entry b = none := fun b => by
    rw [entry, invalid]
    rfl
  refine ⟨start, init, ⟨_, prm.numBlocks, listed, filled, ?_⟩, fun i => ?_⟩
  · rw [map_congr_left fun b _ => free b, List.map_const', length_range]
    rfl
  · obtain ⟨trk, walked, made⟩ := Option.bind_eq_some_iff.mp init
    cases made
    have counts := initLoop_counts walked
    exact ⟨congrFun counts.hits i, congrFun counts.misses i⟩

theorem capacity_eq (prm : Params) (i : Nat) : capacity prm i = prm.lastPos i + 1 := by
  have pos := prm.lastPos_pos i
  rw [Params.lastPos] at pos ⊢
  rw [capacity]
  omega

/-- Counts that are those of the whole cache are right for all tracked caches exactly if they are
for the smallest. -/
theorem rightStats_iff {keys : List Key} (counts : ∀ i ≤ prm.numTrackedCaches, c.tracking.hits i =
    hits prm.numBlocks keys ∧ c.tracking.misses i = misses prm.numBlocks keys) :
    RightStats prm c keys ↔ ¬Reused (prm.minTrackedSize / prm.blkSize) prm.numBlocks keys := by
  have first : prm.minTrackedSize / prm.blkSize = capacity prm 0 := by
    rw [capacity, Nat.pow_zero, Nat.mul_one]
  have room : ∀ i < prm.numTrackedCaches, capacity prm i ≤ prm.numBlocks := fun i tracked => by
    have less := prm.lastPos_lt tracked
    rw [capacity_eq]
    omega
  have pos : ∀ i, 0 < capacity prm i := fun i => by
    rw [capacity_eq]
    omega
  have tracked := prm.numTrackedCaches_pos
  rw [first, ← hits_eq_iff (pos 0) (room 0 tracked)]
  constructor
  · intro right
    rw [← (right 0 tracked).1, (counts 0 (Nat.le_of_lt tracked)).1]
  · intro same i inside
    obtain ⟨hit, miss⟩ := counts i (Nat.le_of_lt inside)
    have grows : capacity prm 0 ≤ capacity prm i := by
      rw [capacity_eq, capacity_eq]
      exact Nat.succ_le_succ (prm.lastPos_mono (Nat.zero_le i))
    have equal : hits prm.numBlocks keys = hits (capacity prm i) keys := by
      rw [hits_eq_iff (pos i) (room i inside)]
      rintro ⟨before, x, between, after, cut, not, low, high⟩
      refine (hits_eq_iff (pos 0) (room 0 tracked) keys).mp same ?_
      exact ⟨before, x, between, after, cut, not, Nat.le_trans grows low, high⟩
    have all := hitsFrom_add_missesFrom prm.numBlocks [] keys
    have few := hitsFrom_add_missesFrom (capacity prm i) [] keys
    rw [hits, hits] at equal
    rw [hit, miss, hits, hits, misses, misses]
    omega

/-- The sizes that the constructor takes, the smallest cache being at least two blocks and smaller
than the cache itself. -/
structure Sizes where
  size : Nat
  blkSize : Nat
  minTrackedSize : Nat
  sizePow : size.isPowerOfTwo
  blkPow : blkSize.isPowerOfTwo
  ranged : size < 2 ^ 32
  twoBlocks : 2 * blkSize ≤ minTrackedSize
  below : minTrackedSize < size

namespace Sizes

variable (z : Sizes)

def params (whole : z.blkSize ∣ z.minTrackedSize) : Params :=
  ⟨z.size, z.blkSize, z.minTrackedSize, z.sizePow, z.blkPow, z.ranged, whole, z.twoBlocks, z.below⟩

/-- The constructor, `tagsInit` and `init` for sizes of which the smallest need not be whole blocks. -/
def numBlocks : Nat := z.size / z.blkSize

def numTrackedCaches : Nat :=
  if z.minTrackedSize < z.size then Nat.log2 z.size - Nat.log2 z.minTrackedSize else 0

def inAllCachesMask : CachesMask := mask 32 z.numTrackedCaches

def initLoop (lk : Links Nat) :
    Nat → Option Nat → Nat → Nat → CachesMask → Nat → Tracking → Option Tracking
  | _, none, _, _, _, _, trk => some trk
  | 0, some _, _, _, _, _, _ => none
  | fuel + 1, some blk, currSize, trackedCacheSize, inCachesMask, j, trk =>
    let trk := trk.setMask blk inCachesMask
    let currSize := (currSize + z.blkSize) % 2 ^ 32
    if currSize = trackedCacheSize ∧ blk ≠ lk.tail then
      if j < z.numTrackedCaches then
        initLoop lk fuel (lk.next blk) currSize (trackedCacheSize * 2 % 2 ^ 32)
          (inCachesMask &&& ~~~(1#32 <<< j)) (j + 1) (trk.setBoundary j (some blk))
      else none
    else initLoop lk fuel (lk.next blk) currSize trackedCacheSize inCachesMask j trk

def init (lk : Links Nat) (trk : Tracking) : Option Tracking :=
  let blk := if z.numTrackedCaches ≠ 0 then some lk.head else none
  z.initLoop lk z.numBlocks blk 0 z.minTrackedSize z.inAllCachesMask 0 trk

def linkBlocks : Links Nat :=
  let lk : Links Nat := ⟨0, z.numBlocks - 1, fun _ => none, fun _ => none⟩
  let lk := (lk.setPrev 0 none).setNext 0 (some 1)
  let lk := (List.range' 1 (z.numBlocks - 2)).foldl
    (fun lk i => (lk.setPrev i (some (i - 1))).setNext i (some (i + 1))) lk
  (lk.setPrev (z.numBlocks - 1) (some (z.numBlocks - 2))).setNext (z.numBlocks - 1) none

def tagsInit : Option FaLru := do
  let lk := z.linkBlocks
  let trk ← z.init lk ⟨fun _ => 0, fun _ => none, fun _ => 0, fun _ => 0, 0⟩
  some ⟨lk, trk, fun _ => MaxAddr, fun _ => 0, fun _ => none⟩

theorem tagsInit_params (whole : z.blkSize ∣ z.minTrackedSize) :
    z.tagsInit = FaLru.tagsInit (z.params whole) := by
  have loops : ∀ (lk : Links Nat) (fuel : Nat) (blk : Option Nat) (currSize trackedCacheSize : Nat)
      (m : CachesMask) (j : Nat) (trk : Tracking),
      z.initLoop lk fuel blk currSize trackedCacheSize m j trk
        = Tracking.initLoop (z.params whole) lk fuel blk currSize trackedCacheSize m j trk := by
    intro lk fuel
    induction fuel with
    | zero =>
      intro blk _ _ _ _ _
      cases blk <;> rfl
    | succ fuel ih =>
      intro blk _ _ _ _ _
      cases blk with
      | none => rfl
      | some =>
        rw [initLoop, Tracking.initLoop]
        simp only [ih]
        rfl
  rw [tagsInit, FaLru.tagsInit, init, Tracking.init, loops]
  rfl

/-- As many blocks of the same size, of which two are tracked. -/
def even : Params :=
  ⟨z.size, z.blkSize, 2 * z.blkSize, z.sizePow, z.blkPow, z.ranged, Dvd.intro_left 2 rfl,
    Nat.le_refl _, Nat.lt_of_le_of_lt z.twoBlocks z.below⟩

variable {z}

theorem initLoop_uneven (uneven : ¬z.blkSize ∣ z.minTrackedSize) {m : CachesMask} {j : Nat}
    {before : Option Nat} (ys : List Nat) {fuel currSize : Nat} (trk : Tracking)
    (seg : Segment lk before ys none) (enough : ys.length ≤ fuel) (whole : z.blkSize ∣ currSize) :
    ∃ trk', z.initLoop lk fuel ys.head? currSize z.minTrackedSize m j trk = some trk' ∧
      ∀ b, trk'.inCachesMask b = if b ∈ ys then m else trk.inCachesMask b := by
  induction ys generalizing fuel before currSize trk with
  | nil => exact ⟨trk, by cases fuel <;> rfl, fun b => (if_neg not_mem_nil).symm⟩
  | cons y ys ih =>
    cases fuel with
    | zero => cases enough
    | succ fuel =>
      obtain ⟨-, next, seg⟩ := seg
      rw [or_none] at next
      have divides : z.blkSize ∣ 2 ^ 32 := by
        obtain ⟨k, pow⟩ := z.blkPow
        have le : 2 ^ k ≤ 2 ^ 32 := by
          have := z.twoBlocks
          have := z.below
          have := z.ranged
          omega
        rw [pow]
        exact Nat.pow_dvd_pow 2 ((Nat.pow_le_pow_iff_right (by decide)).mp le)
      have whole' : z.blkSize ∣ (currSize + z.blkSize) % 2 ^ 32 :=
        (Nat.dvd_mod_iff divides).mpr (Nat.dvd_add whole (Nat.dvd_refl _))
      have never : ¬((currSize + z.blkSize) % 2 ^ 32 = z.minTrackedSize ∧ y ≠ lk.tail) :=
        fun both => uneven (both.1 ▸ whole')
      obtain ⟨trk', walked, masks⟩ := ih (trk.setMask y m) seg (Nat.le_of_succ_le_succ enough)
        whole'
      refine ⟨trk', ?_, fun b => ?_⟩
      · rw [List.head?_cons, initLoop, if_neg never, next]
        exact walked
      · aesop

theorem tagsInit_uneven (uneven : ¬z.blkSize ∣ z.minTrackedSize) :
    ∃ start, z.tagsInit = some start ∧ (∀ key, start.tagHash key = none) ∧
      start.isValid start.findVictim = false ∧
      start.tracking.inCachesMask start.findVictim ≠ 0 := by
  have spells : Spells z.linkBlocks (List.range z.numBlocks) := linkBlocks_spells z.even
  have tracked : 0 < z.numTrackedCaches := by
    obtain ⟨k, pow⟩ := z.sizePow
    have below := z.below
    have some_ : z.minTrackedSize ≠ 0 := by grind [Nat.dvd_zero]
    have less := (Nat.log2_lt some_).mpr (pow ▸ below)
    rw [numTrackedCaches, if_pos below, pow, Nat.log2_two_pow]
    omega
  obtain ⟨trk, walked, masks⟩ := initLoop_uneven uneven (m := z.inAllCachesMask) (j := 0)
    (List.range z.numBlocks) ⟨fun _ => 0, fun _ => none, fun _ => 0, fun _ => 0, 0⟩ spells.segment (Nat.le_of_eq length_range) (Nat.dvd_zero _)
  rw [spells.head] at walked
  refine ⟨⟨z.linkBlocks, trk, fun _ => MaxAddr, fun _ => 0, fun _ => none⟩, ?_, fun _ => rfl, ?_, ?_⟩
  · rw [tagsInit, init, if_pos (Nat.ne_of_gt tracked), walked]
    rfl
  · change (0#32 &&& BlkValid != 0) = false
    decide
  · have last : z.linkBlocks.tail ∈ List.range z.numBlocks := List.mem_of_getLast? spells.tail
    rw [findVictim, masks, if_pos last]
    intro none
    have bit : z.inAllCachesMask.getLsbD 0 = (0 : CachesMask).getLsbD 0 :=
      congrArg (·.getLsbD 0) none
    rw [inAllCachesMask, getLsbD_mask] at bit
    simp [tracked] at bit

end Sizes

/-- The counts of every tracked cache are those of the cache itself. They are right exactly if no
block is used again after at least as many others as the smallest cache has blocks and fewer than
the cache has; where the smallest cache is not whole blocks, the first miss fails an assert. -/
theorem stats_right_iff (z : Sizes) (l : List (Addr × Bool)) :
    (∀ whole : z.blkSize ∣ z.minTrackedSize, ∃ start c, z.tagsInit = some start ∧
      accesses (z.params whole) start l = some c ∧
      (RightStats (z.params whole) c (l.map (keyOf (z.params whole))) ↔
        ¬Reused (z.minTrackedSize / z.blkSize) z.numBlocks (l.map (keyOf (z.params whole))))) ∧
    (¬z.blkSize ∣ z.minTrackedSize → ∃ start, z.tagsInit = some start ∧
      (∀ key, start.tagHash key = none) ∧ start.isValid start.findVictim = false ∧
      start.tracking.inCachesMask start.findVictim ≠ 0) := by
  refine ⟨fun whole => ?_, fun uneven => Sizes.tagsInit_uneven uneven⟩
  obtain ⟨start, init, holds, zero⟩ := tagsInit_holds (z.params whole)
  obtain ⟨c, run, counts⟩ := accesses_holds l holds
  refine ⟨start, c, (z.tagsInit_params whole).trans init, run, ?_⟩
  exact rightStats_iff fun i le => by
    have counted := counts i le
    rwa [(zero i).1, (zero i).2, Nat.zero_add, Nat.zero_add] at counted

/-- Four blocks of a byte, of which two are tracked, and a block that is used again at once. -/
def quarter : Sizes where
  size := 4
  blkSize := 1
  minTrackedSize := 2
  sizePow := half.sizePow
  blkPow := half.blkPow
  ranged := half.ranged
  twoBlocks := half.twoBlocks
  below := half.below

theorem stats_right_iff_again : ∃ start c, tagsInit half = some start ∧
    accesses half start [(7, false), (9, false), (7, false)] = some c ∧
    RightStats half c ([(7, false), (9, false), (7, false)].map (keyOf half)) := by
  obtain ⟨start, c, init, run, right⟩ :=
    (stats_right_iff quarter [(7, false), (9, false), (7, false)]).1 ⟨2, rfl⟩
  refine ⟨start, c, (Sizes.tagsInit_params quarter ⟨2, rfl⟩).symm.trans init, run, right.mpr ?_⟩
  rw [← hits_eq_iff (by decide) (by decide)]
  decide

/-- The first of three blocks is used again, which a cache of two blocks misses. -/
theorem far_hit_counted : ¬∀ (prm : Params) (l : List (Addr × Bool)) (start c : FaLru),
    tagsInit prm = some start → accesses prm start l = some c →
      RightStats prm c (l.map (keyOf prm)) := by
  intro right
  have counted := (right half [(0, false), (1, false), (2, false), (0, false)] _ _ rfl rfl
    0 (by decide)).1
  exact absurd counted (by decide)

end Gem5.Cache.FaLru
