import Gem5.Lib.Bits
import Gem5.Lib.Chains
import Mathlib.Data.Nat.Log

/-!
# The fully associative cache

The blocks form one list in order of recency. The boundaries of the smaller caches that are
tracked point into the list, and each block carries the mask of the caches that it would still
be in. Blocks and their pointers are indices, and a function fails where the source asserts or
follows a null pointer.
-/

namespace Gem5.Cache.FaLru

open Chains

abbrev Addr := BitVec 64

abbrev CachesMask := BitVec 32

/-- The sizes are `unsigned`; the constructor checks that the first two are powers of two. -/
structure Params where
  size : Nat
  blkSize : Nat
  minTrackedSize : Nat
  sizePow : size.isPowerOfTwo
  blkPow : blkSize.isPowerOfTwo
  ranged : size < 2 ^ 32
  whole : blkSize ∣ minTrackedSize
  twoBlocks : 2 * blkSize ≤ minTrackedSize
  below : minTrackedSize < size

namespace Params

variable (prm : Params)

def numBlocks : Nat := prm.size / prm.blkSize

def numTrackedCaches : Nat :=
  if prm.minTrackedSize < prm.size then Nat.log2 prm.size - Nat.log2 prm.minTrackedSize else 0

def inAllCachesMask : CachesMask := mask 32 prm.numTrackedCaches

def extractTag (addr : Addr) : Addr := addr &&& ~~~BitVec.ofNat 64 (prm.blkSize - 1)

end Params

/-- What `CacheTracking` keeps, with the mask of each block. -/
structure Tracking where
  inCachesMask : Nat → CachesMask
  boundaries : Nat → Option Nat
  hits : Nat → Nat
  misses : Nat → Nat
  accesses : Nat

namespace Tracking

def setMask (trk : Tracking) (blk : Nat) (m : CachesMask) : Tracking :=
  { trk with inCachesMask := Function.update trk.inCachesMask blk m }

def setBoundary (trk : Tracking) (i : Nat) (blk : Option Nat) : Tracking :=
  { trk with boundaries := Function.update trk.boundaries i blk }

/-- The walk of `init` from the head; `j` counts the boundaries it has set. -/
def initLoop (prm : Params) (lk : Links Nat) :
    Nat → Option Nat → Nat → Nat → CachesMask → Nat → Tracking → Option Tracking
  | _, none, _, _, _, _, trk => some trk
  | 0, some _, _, _, _, _, _ => none
  | fuel + 1, some blk, currSize, trackedCacheSize, inCachesMask, j, trk =>
    let trk := trk.setMask blk inCachesMask
    let currSize := (currSize + prm.blkSize) % 2 ^ 32
    if currSize = trackedCacheSize ∧ blk ≠ lk.tail then
      if j < prm.numTrackedCaches then
        initLoop prm lk fuel (lk.next blk) currSize (trackedCacheSize * 2 % 2 ^ 32)
          (inCachesMask &&& ~~~(1#32 <<< j)) (j + 1) (trk.setBoundary j (some blk))
      else none
    else initLoop prm lk fuel (lk.next blk) currSize trackedCacheSize inCachesMask j trk

def init (prm : Params) (lk : Links Nat) (trk : Tracking) : Option Tracking :=
  let blk := if prm.numTrackedCaches ≠ 0 then some lk.head else none
  initLoop prm lk prm.numBlocks blk 0 prm.minTrackedSize prm.inAllCachesMask 0 trk

/-- The body of the loop of `moveBlockToHead`. -/
def toHeadBody (lk : Links Nat) (blk : Nat) (updateCachesMask : CachesMask) (trk : Tracking)
    (i : Nat) : Option Tracking :=
  let currentCacheMask := 1#32 <<< i
  if currentCacheMask &&& updateCachesMask ≠ 0 then do
    let boundary ← trk.boundaries i
    let trk := trk.setMask boundary (trk.inCachesMask boundary &&& ~~~currentCacheMask)
    some (trk.setBoundary i (lk.prev boundary))
  else if trk.boundaries i = some blk then some (trk.setBoundary i (lk.prev blk))
  else some trk

def moveBlockToHead (prm : Params) (lk : Links Nat) (trk : Tracking) (blk : Nat) :
    Option Tracking := do
  let updateCachesMask := prm.inAllCachesMask ^^^ trk.inCachesMask blk
  let trk ← (List.range prm.numTrackedCaches).foldlM (toHeadBody lk blk updateCachesMask) trk
  some (trk.setMask blk prm.inAllCachesMask)

/-- The body of the loop of `moveBlockToTail`. -/
def toTailBody (lk : Links Nat) (blk : Nat) (updateCachesMask : CachesMask) (trk : Tracking)
    (i : Nat) : Option Tracking :=
  let currentCacheMask := 1#32 <<< i
  if currentCacheMask &&& updateCachesMask ≠ 0 then do
    let boundary ← trk.boundaries i
    let following := if lk.next boundary = some blk then lk.next blk else lk.next boundary
    let boundary ← following
    let trk := trk.setBoundary i following
    some (trk.setMask boundary (trk.inCachesMask boundary ||| currentCacheMask))
  else some trk

def moveBlockToTail (prm : Params) (lk : Links Nat) (trk : Tracking) (blk : Nat) :
    Option Tracking := do
  let updateCachesMask := trk.inCachesMask blk
  let trk ← (List.range prm.numTrackedCaches).foldlM (toTailBody lk blk updateCachesMask) trk
  some (trk.setMask blk 0)

/-- The last entry of the statistics is that of the cache itself. -/
def recordAccess (prm : Params) (trk : Tracking) (blk : Option Nat) (isValid : Bool) : Tracking :=
  let hit (i : Nat) : Bool :=
    if i = prm.numTrackedCaches then blk.isSome && isValid
    else blk.any fun b => (1#32 <<< i) &&& trk.inCachesMask b != 0
  let counts (i : Nat) (counted : Bool) : Nat :=
    if i ≤ prm.numTrackedCaches && counted then 1 else 0
  { trk with
    hits := fun i => trk.hits i + counts i (hit i)
    misses := fun i => trk.misses i + counts i (!hit i)
    accesses := trk.accesses + 1 }

end Tracking

end Gem5.Cache.FaLru

namespace Gem5.Cache

open Chains FaLru

/-- The fields of a block are functions of the block; `head` and `tail` are in `links`. -/
structure FaLru where
  links : Links Nat
  tracking : Tracking
  tag : Nat → FaLru.Addr
  status : Nat → BitVec 32
  tagHash : FaLru.Addr × Bool → Option Nat

namespace FaLru

def BlkValid : BitVec 32 := 0x01

def BlkSecure : BitVec 32 := 0x40

def MaxAddr : Addr := -1

variable (prm : Params) (c : FaLru)

def isValid (blk : Nat) : Bool := c.status blk &&& BlkValid != 0

def isSecure (blk : Nat) : Bool := c.status blk &&& BlkSecure != 0

/-- The pointers that `tagsInit` writes. -/
def linkBlocks : Links Nat :=
  let lk : Links Nat := ⟨0, prm.numBlocks - 1, fun _ => none, fun _ => none⟩
  let lk := (lk.setPrev 0 none).setNext 0 (some 1)
  let lk := (List.range' 1 (prm.numBlocks - 2)).foldl
    (fun lk i => (lk.setPrev i (some (i - 1))).setNext i (some (i + 1))) lk
  (lk.setPrev (prm.numBlocks - 1) (some (prm.numBlocks - 2))).setNext (prm.numBlocks - 1) none

def tagsInit : Option FaLru := do
  let lk := linkBlocks prm
  let trk ← Tracking.init prm lk ⟨fun _ => 0, fun _ => none, fun _ => 0, fun _ => 0, 0⟩
  some ⟨lk, trk, fun _ => MaxAddr, fun _ => 0, fun _ => none⟩

/-- The writes to the list in `moveToHead`. -/
def relinkToHead (lk : Links Nat) (blk : Nat) : Option (Links Nat) := do
  let lk ←
    if blk = lk.tail then
      if lk.next blk = none then do
        let tail ← lk.prev blk
        some (Links.setNext { lk with tail := tail } tail none)
      else none
    else do
      let before ← lk.prev blk
      let lk := lk.setNext before (lk.next blk)
      let after ← lk.next blk
      some (lk.setPrev after (lk.prev blk))
  let lk := (lk.setNext blk (some lk.head)).setPrev blk none
  let lk := lk.setPrev lk.head (some blk)
  some { lk with head := blk }

def moveToHead (blk : Nat) : Option FaLru :=
  if blk ≠ c.links.head then do
    let trk ← c.tracking.moveBlockToHead prm c.links blk
    let lk ← relinkToHead c.links blk
    some { c with links := lk, tracking := trk }
  else some c

/-- The writes to the list in `moveToTail`. -/
def relinkToTail (lk : Links Nat) (blk : Nat) : Option (Links Nat) := do
  let lk ←
    if blk = lk.head then
      if lk.prev blk = none then do
        let head ← lk.next blk
        some (Links.setPrev { lk with head := head } head none)
      else none
    else do
      let before ← lk.prev blk
      let lk := lk.setNext before (lk.next blk)
      let after ← lk.next blk
      some (lk.setPrev after (lk.prev blk))
  let lk := (lk.setPrev blk (some lk.tail)).setNext blk none
  let lk := lk.setNext lk.tail (some blk)
  some { lk with tail := blk }

def moveToTail (blk : Nat) : Option FaLru :=
  if blk ≠ c.links.tail then do
    let trk ← c.tracking.moveBlockToTail prm c.links blk
    let lk ← relinkToTail c.links blk
    some { c with links := lk, tracking := trk }
  else some c

/-- The inner `none` is the null pointer. -/
def findBlock (addr : Addr) (secure : Bool) : Option (Option Nat) :=
  match c.tagHash (prm.extractTag addr, secure) with
  | none => some none
  | some blk =>
    if c.isValid blk then
      if c.tag blk = prm.extractTag addr ∧ c.isSecure blk = secure then some (some blk) else none
    else some (some blk)

/-- The block found, and the caches it was in before the access. -/
def accessBlock (addr : Addr) (secure : Bool) : Option (FaLru × Option Nat × CachesMask) := do
  let found ← findBlock prm c addr secure
  match found with
  | some blk =>
    if c.isValid blk then do
      let mask := c.tracking.inCachesMask blk
      let c ← moveToHead prm c blk
      some ({ c with tracking := c.tracking.recordAccess prm found true }, found, mask)
    else some ({ c with tracking := c.tracking.recordAccess prm found false }, found, 0)
  | none => some ({ c with tracking := c.tracking.recordAccess prm none false }, none, 0)

def findVictim : Nat := c.links.tail

/-- `CacheBlk::insert`. -/
def insertTag (blk : Nat) (tag : Addr) (secure : Bool) : FaLru :=
  { c with
    tag := Function.update c.tag blk tag
    status := Function.update c.status blk ((if secure then BlkSecure else 0) ||| BlkValid) }

/-- `CacheBlk::invalidate`. -/
def invalidateTag (blk : Nat) : FaLru :=
  { c with
    tag := Function.update c.tag blk MaxAddr
    status := Function.update c.status blk 0 }

def insertBlock (addr : Addr) (secure : Bool) (blk : Nat) : Option FaLru :=
  if c.tracking.inCachesMask blk = 0 ∧ c.isValid blk = false ∧ c.status blk = 0 then do
    let c ← moveToHead prm (c.insertTag blk (prm.extractTag addr) secure) blk
    some { c with tagHash := Function.update c.tagHash (c.tag blk, c.isSecure blk) (some blk) }
  else none

def invalidate (blk : Nat) : Option FaLru :=
  if (c.tagHash (c.tag blk, c.isSecure blk)).isSome ∧ c.isValid blk = true then
    moveToTail prm
      { c.invalidateTag blk with
        tagHash := Function.update c.tagHash (c.tag blk, c.isSecure blk) none }
      blk
  else none

inductive Call where
  | accessBlock (addr : Addr) (secure : Bool)
  | insertBlock (addr : Addr) (secure : Bool)
  | invalidate (blk : Nat)

/-- A call, and the block that it uses. A block is inserted in place of the victim. -/
def call : Call → Option (FaLru × Option Nat)
  | .accessBlock addr secure => (accessBlock prm c addr secure).map fun r =>
      (r.1, r.2.1.filter c.isValid)
  | .insertBlock addr secure =>
    (insertBlock prm c addr secure c.findVictim).map fun c' => (c', some c.findVictim)
  | .invalidate blk => (invalidate prm c blk).map fun c' => (c', none)

/-- The calls of a cache: it inserts addresses that are not present, into a victim that it has
invalidated, and it invalidates valid blocks. -/
def Offered : Call → Prop
  | .accessBlock _ _ => True
  | .insertBlock addr secure =>
    c.isValid c.findVictim = false ∧ findBlock prm c addr secure = some none
  | .invalidate blk => blk < prm.numBlocks ∧ c.isValid blk = true

end FaLru

end Gem5.Cache
