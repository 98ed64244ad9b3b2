import Mathlib.Data.List.OfFn
import Mathlib.Data.Nat.Bitwise

/-!
# Sectors of addresses and indexing policies

An address is cut into the sector, the block within it and the byte. An indexing policy says
which sectors of the cache may hold an address, what tag it has there, and how to get the
sector's address back.
-/

namespace Gem5.Cache

theorem high_or_low (x b : Nat) : (x >>> b) <<< b ||| (x &&& (2 ^ b - 1)) = x := by
  rw [Nat.and_two_pow_sub_one_eq_mod,
    ← Nat.shiftLeft_add_eq_or_of_lt (Nat.mod_lt _ (Nat.two_pow_pos _)), Nat.shiftLeft_eq,
    Nat.shiftRight_eq_div_pow]
  exact Nat.div_add_mod' _ _

/-- Blocks of `2 ^ sectorShift` bytes, `2 ^ blocksLog` of them in a sector. -/
structure Geometry where
  sectorShift : Nat
  blocksLog : Nat

namespace Geometry

variable (g : Geometry)

def numBlocksPerSector : Nat := 2 ^ g.blocksLog

/-- The block of a sector that an address lies in. -/
def extractSectorOffset (addr : Nat) : Fin g.numBlocksPerSector :=
  ⟨(addr >>> g.sectorShift) &&& (g.numBlocksPerSector - 1), by
    rw [numBlocksPerSector, Nat.and_two_pow_sub_one_eq_mod]
    exact Nat.mod_lt _ (Nat.two_pow_pos _)⟩

/-- The sector number of an address. -/
def sector (addr : Nat) : Nat := addr >>> (g.sectorShift + g.blocksLog)

def sectorAddr (addr : Nat) : Nat := g.sector addr <<< (g.sectorShift + g.blocksLog)

/-- The address of the block of an address. -/
def blkAddr (addr : Nat) : Nat := (addr >>> g.sectorShift) <<< g.sectorShift

theorem sectorAddr_or_offset (addr : Nat) :
    g.sectorAddr addr ||| ((g.extractSectorOffset addr).val <<< g.sectorShift)
      = g.blkAddr addr := by
  have cut : g.sectorAddr addr
      = (((addr >>> g.sectorShift) >>> g.blocksLog) <<< g.blocksLog) <<< g.sectorShift := by
    rw [sectorAddr, sector, Nat.shiftRight_add, Nat.add_comm, Nat.shiftLeft_add]
  rw [cut]
  dsimp only [extractSectorOffset, numBlocksPerSector]
  rw [← Nat.shiftLeft_or_distrib, high_or_low, blkAddr]

theorem blkAddr_inj {a b : Nat} (h : g.blkAddr a = g.blkAddr b) :
    a >>> g.sectorShift = b >>> g.sectorShift := by
  rw [blkAddr, blkAddr, Nat.shiftLeft_eq, Nat.shiftLeft_eq] at h
  exact Nat.eq_of_mul_eq_mul_right (Nat.two_pow_pos _) h

theorem sector_of_blkAddr {a b : Nat} (h : g.blkAddr a = g.blkAddr b) :
    g.sector a = g.sector b := by
  rw [sector, sector, Nat.shiftRight_add, Nat.shiftRight_add, g.blkAddr_inj h]

theorem offset_of_blkAddr {a b : Nat} (h : g.blkAddr a = g.blkAddr b) :
    g.extractSectorOffset a = g.extractSectorOffset b := by
  rw [extractSectorOffset, Fin.mk.injEq, g.blkAddr_inj h]
  rfl

end Geometry

/-- An indexing policy for `entries` sectors. What it says of an address depends on the sector
only, and tag and entry give the sector's address back. -/
structure IndexingPolicy (g : Geometry) (entries : Nat) where
  getPossibleEntries : Nat → List (Fin entries)
  extractTag : Nat → Nat
  regenerateAddr : Nat → Fin entries → Nat
  entries_of_sector : ∀ a b, g.sector a = g.sector b → getPossibleEntries a = getPossibleEntries b
  tag_of_sector : ∀ a b, g.sector a = g.sector b → extractTag a = extractTag b
  regenerate : ∀ a, ∀ e ∈ getPossibleEntries a, regenerateAddr (extractTag a) e = g.sectorAddr a

namespace SetAssociative

variable (g : Geometry) (setsLog assoc : Nat)

def setShift : Nat := g.sectorShift + g.blocksLog

def tagShift : Nat := setShift g + setsLog

def extractSet (addr : Nat) : Fin (2 ^ setsLog) :=
  ⟨(addr >>> setShift g) &&& (2 ^ setsLog - 1), by
    rw [Nat.and_two_pow_sub_one_eq_mod]
    exact Nat.mod_lt _ (Nat.two_pow_pos _)⟩

/-- The entry at a set and way. -/
def entry (set : Fin (2 ^ setsLog)) (way : Fin assoc) : Fin (2 ^ setsLog * assoc) :=
  ⟨set.val * assoc + way.val, by
    have row := Nat.mul_le_mul_right assoc (Nat.succ_le_of_lt set.isLt)
    have col := way.isLt
    rw [Nat.succ_mul] at row
    omega⟩

def getPossibleEntries (addr : Nat) : List (Fin (2 ^ setsLog * assoc)) :=
  List.ofFn fun way => entry setsLog assoc (extractSet g setsLog addr) way

def extractTag (addr : Nat) : Nat := addr >>> tagShift g setsLog

def regenerateAddr (tag : Nat) (e : Fin (2 ^ setsLog * assoc)) : Nat :=
  (tag <<< tagShift g setsLog) ||| ((e.val / assoc) <<< setShift g)

theorem entry_set (set : Fin (2 ^ setsLog)) (way : Fin assoc) :
    (entry setsLog assoc set way).val / assoc = set.val := by
  have pos : 0 < assoc := Nat.lt_of_le_of_lt (Nat.zero_le _) way.isLt
  have val : (entry setsLog assoc set way).val = way.val + set.val * assoc := Nat.add_comm _ _
  rw [val, Nat.add_mul_div_right _ _ pos, Nat.div_eq_of_lt way.isLt, Nat.zero_add]

theorem regenerate_extract (addr : Nat) :
    (extractTag g setsLog addr <<< tagShift g setsLog)
      ||| ((extractSet g setsLog addr).val <<< setShift g) = g.sectorAddr addr := by
  have cut : extractTag g setsLog addr <<< tagShift g setsLog
      = (((addr >>> setShift g) >>> setsLog) <<< setsLog) <<< setShift g := by
    rw [extractTag, tagShift, Nat.shiftRight_add, Nat.add_comm, Nat.shiftLeft_add]
  rw [cut, extractSet, ← Nat.shiftLeft_or_distrib, high_or_low]
  rfl

def policy : IndexingPolicy g (2 ^ setsLog * assoc) where
  getPossibleEntries := getPossibleEntries g setsLog assoc
  extractTag := extractTag g setsLog
  regenerateAddr := regenerateAddr g setsLog assoc
  entries_of_sector a b h := by
    have set : extractSet g setsLog a = extractSet g setsLog b := by
      rw [extractSet, Fin.mk.injEq]
      exact congrArg (· &&& (2 ^ setsLog - 1)) h
    rw [getPossibleEntries, getPossibleEntries, set]
  tag_of_sector a b h := by
    have set : a >>> setShift g = b >>> setShift g := h
    rw [extractTag, extractTag, tagShift, Nat.shiftRight_add, Nat.shiftRight_add, set]
  regenerate a e he := by
    obtain ⟨way, rfl⟩ := (List.mem_ofFn' _ _).mp he
    rw [regenerateAddr, entry_set]
    exact regenerate_extract g setsLog a

end SetAssociative

end Gem5.Cache
