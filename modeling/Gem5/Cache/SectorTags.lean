import Gem5.Cache.Indexing
import Mathlib.Logic.Function.Basic

/-!
# Sector tags

A sector has one tag, a counter of its valid blocks and a secure bit; its blocks have a status
of their own. The methods of a block update both.
-/

namespace Gem5.Cache

def maxAddr : Nat := 2 ^ 64 - 1

/-- A block of a sector. The bits of its status, which `invalidate` clears together, are
`valid`, `secure` and `compressed`; the last and `sizeBits` are used by compressed tags. -/
structure SubBlk where
  tag : Nat
  valid : Bool
  secure : Bool
  compressed : Bool
  refCount : Nat
  sizeBits : Nat
  deriving DecidableEq, Repr

def SubBlk.new : SubBlk := ⟨maxAddr, false, false, false, 0, 0⟩

/-- `CacheBlk::invalidate`. -/
def SubBlk.invalidate (b : SubBlk) : SubBlk :=
  { b with tag := maxAddr, valid := false, secure := false, compressed := false, refCount := 0 }

inductive Failure where
  | overwritingValidSector
  | statusNotClear
  | alreadyValid
  | notValid
  | notInvalid
  | victimValid
  deriving DecidableEq, Repr

/-- A sector; the counter is a `uint8_t`. -/
structure SectorBlk (n : Nat) where
  tag : Nat
  validCounter : Nat
  secureBit : Bool
  blks : Fin n → SubBlk

namespace SectorBlk

variable {n : Nat}

def new : SectorBlk n := ⟨maxAddr, 0, false, fun _ => .new⟩

def isValid (s : SectorBlk n) : Bool := 0 < s.validCounter

def setBlk (s : SectorBlk n) (k : Fin n) (b : SubBlk) : SectorBlk n :=
  { s with blks := Function.update s.blks k b }

def validateSubBlk (s : SectorBlk n) : SectorBlk n :=
  { s with validCounter := (s.validCounter + 1) % 256 }

def invalidateSubBlk (s : SectorBlk n) : SectorBlk n :=
  let validCounter := (s.validCounter + 255) % 256
  { s with
    validCounter := validCounter
    secureBit := if validCounter = 0 then false else s.secureBit }

def setSecure (s : SectorBlk n) (k : Fin n) : SectorBlk n :=
  { s.setBlk k { s.blks k with secure := true } with secureBit := true }

def setValid (s : SectorBlk n) (k : Fin n) : Except Failure (SectorBlk n) :=
  if (s.blks k).valid then .error .alreadyValid
  else .ok (s.setBlk k { s.blks k with valid := true }).validateSubBlk

def invalidate (s : SectorBlk n) (k : Fin n) : SectorBlk n :=
  (s.setBlk k (s.blks k).invalidate).invalidateSubBlk

/-- `CacheBlk::insert`. -/
def insertCacheBlk (s : SectorBlk n) (k : Fin n) (tag : Nat) (isSecure : Bool) :
    Except Failure (SectorBlk n) :=
  if (s.blks k).valid || (s.blks k).secure || (s.blks k).compressed then .error .statusNotClear
  else
    let s := s.setBlk k { s.blks k with tag := tag, refCount := 1 }
    (if isSecure then s.setSecure k else s).setValid k

def insert (s : SectorBlk n) (k : Fin n) (tag : Nat) (isSecure : Bool) :
    Except Failure (SectorBlk n) :=
  if s.isValid && (s.tag != tag || s.secureBit != isSecure) then .error .overwritingValidSector
  else
    match s.insertCacheBlk k tag isSecure with
    | .error e => .error e
    | .ok s => .ok { s with tag := tag }

end SectorBlk

/-- The sectors and the number of tags in use. -/
structure SectorTags (g : Geometry) (numSectors : Nat) where
  sectors : Fin numSectors → SectorBlk g.numBlocksPerSector
  tagsInUse : Int

/-- A block by its sector and its offset there. -/
abbrev Loc (g : Geometry) (numSectors : Nat) : Type := Fin numSectors × Fin g.numBlocksPerSector

namespace SectorTags

variable {g : Geometry} {numSectors : Nat} (policy : IndexingPolicy g numSectors)
  (t : SectorTags g numSectors)

def tagsInit : SectorTags g numSectors := ⟨fun _ => .new, 0⟩

def blk (l : Loc g numSectors) : SubBlk := (t.sectors l.1).blks l.2

def setSector (i : Fin numSectors) (s : SectorBlk g.numBlocksPerSector) :
    SectorTags g numSectors :=
  { t with sectors := Function.update t.sectors i s }

def invalidate (l : Loc g numSectors) : Except Failure (SectorTags g numSectors) :=
  if (t.blk l).valid then
    let s := (t.sectors l.1).invalidate l.2
    .ok { t.setSector l.1 s with tagsInUse := if s.isValid then t.tagsInUse else t.tagsInUse - 1 }
  else .error .notValid

def insertBlock (addr : Nat) (isSecure : Bool) (l : Loc g numSectors) :
    Except Failure (SectorTags g numSectors) :=
  let s := t.sectors l.1
  let tagsInUse := if s.isValid then t.tagsInUse else t.tagsInUse + 1
  if (t.blk l).valid then .error .notInvalid
  else
    match s.insert l.2 (policy.extractTag addr) isSecure with
    | .error e => .error e
    | .ok s => .ok { t.setSector l.1 s with tagsInUse := tagsInUse }

def findBlock (addr : Nat) (isSecure : Bool) : Option (Loc g numSectors) :=
  let tag := policy.extractTag addr
  let offset := g.extractSectorOffset addr
  ((policy.getPossibleEntries addr).find? fun i =>
    (t.sectors i).tag == tag && (t.blk (i, offset)).valid &&
      (t.blk (i, offset)).secure == isSecure).map fun i => (i, offset)

def accessBlock (addr : Nat) (isSecure : Bool) : SectorTags g numSectors :=
  match t.findBlock policy addr isSecure with
  | none => t
  | some l =>
    let s := t.sectors l.1
    t.setSector l.1 (s.setBlk l.2 { t.blk l with refCount := (t.blk l).refCount + 1 })

/-- The victim and the blocks to evict; `choice` is the sector that the replacement policy
chooses if the address has none. -/
def findVictim (addr : Nat) (isSecure : Bool) (choice : Fin numSectors) :
    Except Failure (Loc g numSectors × List (Loc g numSectors)) :=
  let tag := policy.extractTag addr
  let victimSector := ((policy.getPossibleEntries addr).find? fun i =>
    tag == (t.sectors i).tag && (t.sectors i).isValid &&
      isSecure == (t.sectors i).secureBit).getD choice
  let victim := (victimSector, g.extractSectorOffset addr)
  if tag = (t.sectors victimSector).tag ∧ isSecure = (t.sectors victimSector).secureBit then
    if (t.blk victim).valid then .error .victimValid else .ok (victim, [])
  else .ok (victim, (List.finRange g.numBlocksPerSector).map fun k => (victimSector, k))

/-- Evict those of the listed blocks that are valid. -/
def evict (t : SectorTags g numSectors) :
    List (Loc g numSectors) → Except Failure (SectorTags g numSectors)
  | [] => .ok t
  | l :: evictBlks =>
    if (t.blk l).valid then
      match t.invalidate l with
      | .error e => .error e
      | .ok t => t.evict evictBlks
    else t.evict evictBlks

/-- The cache's side of a miss. -/
def allocateBlock (addr : Nat) (isSecure : Bool) (choice : Fin numSectors) :
    Except Failure (SectorTags g numSectors) :=
  match t.findVictim policy addr isSecure choice with
  | .error e => .error e
  | .ok (victim, evictBlks) =>
    match t.evict evictBlks with
    | .error e => .error e
    | .ok t => t.insertBlock policy addr isSecure victim

def regenerateBlkAddr (l : Loc g numSectors) : Nat :=
  policy.regenerateAddr (t.blk l).tag l.1 ||| (l.2.val <<< g.sectorShift)

inductive Step (g : Geometry) (numSectors : Nat) where
  | miss (addr : Nat) (isSecure : Bool) (choice : Fin numSectors)
  | invalidate (l : Loc g numSectors)
  | access (addr : Nat) (isSecure : Bool)

def step : Step g numSectors → Except Failure (SectorTags g numSectors)
  | .miss addr isSecure choice => t.allocateBlock policy addr isSecure choice
  | .invalidate l => t.invalidate l
  | .access addr isSecure => .ok (t.accessBlock policy addr isSecure)

/-- A miss is one, and the replacement policy chooses a candidate; valid blocks are
invalidated. -/
def Takes : Step g numSectors → Prop
  | .miss addr isSecure choice =>
    t.findBlock policy addr isSecure = none ∧ choice ∈ policy.getPossibleEntries addr
  | .invalidate l => (t.blk l).valid = true
  | .access _ _ => True

inductive Reachable : SectorTags g numSectors → Prop where
  | init : Reachable tagsInit
  | step {t t' : SectorTags g numSectors} {e : Step g numSectors} : Reachable t →
      t.Takes policy e → t.step policy e = .ok t' → Reachable t'

end SectorTags

end Gem5.Cache
