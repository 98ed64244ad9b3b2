import Gem5.Cache.SectorTags

/-!
# Compressed tags

A sector is a superblock: blocks share it as long as each is compressed to its share of a block.
Whether a block may join is decided from the first valid block of the superblock. Compressed
sizes, the victims of the replacement policy and the blocks in transient state are inputs.
-/

namespace Gem5.Cache

def Geometry.blkSize (g : Geometry) : Nat := 2 ^ g.sectorShift

namespace SuperBlk

variable {n : Nat}

/-- Whether the first valid block, other than the ignored one, is compressed; true if there is
none. -/
def isCompressed (s : SectorBlk n) (ignored : Option (Fin n)) : Bool :=
  match (List.finRange n).find? fun k => (s.blks k).valid && some k != ignored with
  | some k => (s.blks k).compressed
  | none => true

/-- At most this many bits for each of the blocks that share a superblock. -/
def share (g : Geometry) : Nat := g.blkSize * 8 / g.numBlocksPerSector

def canCoAllocate (g : Geometry) (compressedSize : Nat) : Bool := compressedSize ≤ share g

end SuperBlk

namespace CompressedTags

variable {g : Geometry} {numSectors : Nat} (policy : IndexingPolicy g numSectors)
  (t : SectorTags g numSectors)

def modifyBlk (l : Loc g numSectors) (f : SubBlk → SubBlk) : SectorTags g numSectors :=
  t.setSector l.1 ((t.sectors l.1).setBlk l.2 (f (t.blk l)))

/-- The victim and the blocks to evict: a place in the address's superblock if it can be shared,
or else the superblock that the replacement policy chooses. -/
def findVictim (addr : Nat) (isSecure : Bool) (compressedSize : Nat) (choice : Fin numSectors) :
    Except Failure (Loc g numSectors × List (Loc g numSectors)) :=
  let tag := policy.extractTag addr
  let offset := g.extractSectorOffset addr
  match (policy.getPossibleEntries addr).find? fun i =>
    tag == (t.sectors i).tag && (t.sectors i).isValid && isSecure == (t.sectors i).secureBit &&
      ! (t.blk (i, offset)).valid && SuperBlk.isCompressed (t.sectors i) none &&
      SuperBlk.canCoAllocate g compressedSize with
  | some i => if (t.blk (i, offset)).valid then .error .victimValid else .ok ((i, offset), [])
  | none => .ok ((choice, offset), (List.finRange g.numBlocksPerSector).map fun k => (choice, k))

def insertBlock (addr : Nat) (isSecure : Bool) (l : Loc g numSectors) :
    Except Failure (SectorTags g numSectors) :=
  let isCoAllocatable := SuperBlk.isCompressed (t.sectors l.1) none &&
    SuperBlk.canCoAllocate g (t.blk l).sizeBits
  match t.insertBlock policy addr isSecure l with
  | .error e => .error e
  | .ok t => .ok (modifyBlk t l fun b => { b with compressed := isCoAllocatable })

/-- Whether a valid block of the list has an outstanding request in the MSHR queue. -/
def inTransient (transient : Nat → Bool → Bool) (blks : List (Loc g numSectors)) : Bool :=
  blks.any fun l =>
    (t.blk l).valid && transient (t.regenerateBlkAddr policy l) (t.blk l).secure

/-- The block allocated for an address, or none if a block to evict is in transient state. -/
def allocateBlock (transient : Nat → Bool → Bool) (addr : Nat) (isSecure : Bool)
    (blkSizeBits : Nat) (choice : Fin numSectors) :
    Except Failure (Option (Loc g numSectors) × SectorTags g numSectors) :=
  match findVictim policy t addr isSecure blkSizeBits choice with
  | .error e => .error e
  | .ok (victim, evictBlks) =>
    if inTransient policy t transient evictBlks then .ok (none, t)
    else
      match t.evict evictBlks with
      | .error e => .error e
      | .ok t =>
        let t := modifyBlk t victim fun b => { b with sizeBits := blkSizeBits }
        match insertBlock policy t addr isSecure victim with
        | .error e => .error e
        | .ok t => .ok (some victim, t)

/-- The other valid blocks of a superblock. -/
def coAllocated (l : Loc g numSectors) : List (Loc g numSectors) :=
  ((List.finRange g.numBlocksPerSector).filter fun k =>
    (t.blk (l.1, k)).valid && k != l.2).map fun k => (l.1, k)

/-- A block is overwritten by data of another compressed size. Where it no longer fits, the
blocks beside it are evicted; false if one of them is in transient state. -/
def updateCompressionData (transient : Nat → Bool → Bool) (l : Loc g numSectors)
    (compressionSize : Nat) : Except Failure (Bool × SectorTags g numSectors) :=
  let isCoAllocatable := SuperBlk.isCompressed (t.sectors l.1) (some l.2) &&
    SuperBlk.canCoAllocate g compressionSize
  let updated := modifyBlk t l fun b =>
    { b with compressed := isCoAllocatable, sizeBits := compressionSize }
  if (t.blk l).compressed && ! isCoAllocatable then
    if inTransient policy t transient (coAllocated t l) then
      .ok (false, modifyBlk t l fun b => { b with compressed := false, sizeBits := g.blkSize * 8 })
    else
      match updated.evict (coAllocated t l) with
      | .error e => .error e
      | .ok t => .ok (true, t)
  else .ok (true, updated)

/-- The callers of `updateCompressionData` invalidate the block when it fails. -/
def overwrite (transient : Nat → Bool → Bool) (l : Loc g numSectors) (compressionSize : Nat) :
    Except Failure (SectorTags g numSectors) :=
  match updateCompressionData policy t transient l compressionSize with
  | .error e => .error e
  | .ok (true, t) => .ok t
  | .ok (false, t) => t.invalidate l

inductive Step (g : Geometry) (numSectors : Nat) where
  | allocate (transient : Nat → Bool → Bool) (addr : Nat) (isSecure : Bool) (blkSizeBits : Nat)
    (choice : Fin numSectors)
  | overwrite (transient : Nat → Bool → Bool) (l : Loc g numSectors) (compressionSize : Nat)
  | invalidate (l : Loc g numSectors)

def step : Step g numSectors → Except Failure (SectorTags g numSectors)
  | .allocate transient addr isSecure blkSizeBits choice =>
    match allocateBlock policy t transient addr isSecure blkSizeBits choice with
    | .error e => .error e
    | .ok (_, t) => .ok t
  | .overwrite transient l compressionSize => overwrite policy t transient l compressionSize
  | .invalidate l => t.invalidate l

/-- Blocks are allocated on a miss, and valid blocks are overwritten and invalidated. -/
def Takes : Step g numSectors → Prop
  | .allocate _ addr isSecure _ choice =>
    t.findBlock policy addr isSecure = none ∧ choice ∈ policy.getPossibleEntries addr
  | .overwrite _ l _ => (t.blk l).valid = true
  | .invalidate l => (t.blk l).valid = true

inductive Reachable : SectorTags g numSectors → Prop where
  | init : Reachable SectorTags.tagsInit
  | step {t t' : SectorTags g numSectors} {e : Step g numSectors} : Reachable t →
      Takes policy t e → step policy t e = .ok t' → Reachable t'

end CompressedTags

end Gem5.Cache
