import Mathlib.Logic.Function.Basic
import Mathlib.Data.List.Basic

/-!
# Register renaming of several threads

The threads share one free list of each register class. A physical register is named by its class
and its index in it; the class is that of the rename map it is found in. Writes to the scoreboard
are left out, and so are the asserts of `rename`, which stop the simulator and change nothing.
-/

namespace Gem5.O3

inductive RegClass where
  | int
  | float
  | vec
  | vecElem
  | vecPred
  | cc
  | misc
  deriving DecidableEq

/-- A flattened architectural register. -/
structure RegId where
  regClass : RegClass
  flatIndex : Nat
  deriving DecidableEq

/-- The sizes of the rename maps and of the register files, which have registers for all
threads. -/
structure RenameParams where
  numThreads : Nat
  numArch : RegClass → Nat
  numPhys : RegClass → Nat
  zeroReg : RegClass → Nat
  enough : ∀ c, numThreads * numArch c ≤ numPhys c

structure RenameHistory where
  instSeqNum : Nat
  archReg : RegId
  newPhysReg : Nat
  prevPhysReg : Nat

structure DestReg where
  reg : RegId
  numPinnedWrites : Int

/-- The entries of a rename map before their first assignment are null. -/
structure Renamer where
  freeList : RegClass → List Nat
  renameMap : Nat → RegId → Option Nat
  historyBuffer : Nat → List RenameHistory
  numPinnedWrites : RegClass → Nat → Int

namespace Renamer

def addReg (s : Renamer) (c : RegClass) (reg : Nat) : Renamer :=
  { s with freeList := Function.update s.freeList c (s.freeList c ++ [reg]) }

/-- The mapping of a misc register is fixed. -/
def setEntry (s : Renamer) (tid : Nat) (arch : RegId) (phys : Nat) : Renamer :=
  if arch.regClass = .misc then s
  else { s with
    renameMap := Function.update s.renameMap tid
      (Function.update (s.renameMap tid) arch (some phys)) }

def setNumPinnedWrites (s : Renamer) (c : RegClass) (phys : Nat) (writes : Int) : Renamer :=
  { s with
    numPinnedWrites := Function.update s.numPinnedWrites c
      (Function.update (s.numPinnedWrites c) phys writes) }

/-- `rename`, with the new and the previous register; it fails at a null entry and at an empty
free list. -/
def rename (prm : RenameParams) (s : Renamer) (tid : Nat) (dest : DestReg) :
    Option (Renamer × Nat × Nat) :=
  if dest.reg.regClass = .misc then some (s, dest.reg.flatIndex, dest.reg.flatIndex)
  else
    match s.renameMap tid dest.reg with
    | none => none
    | some prev =>
      if dest.reg = ⟨.int, prm.zeroReg dest.reg.regClass⟩ then some (s, prev, prev)
      else if 0 < s.numPinnedWrites dest.reg.regClass prev then
        some (s.setNumPinnedWrites dest.reg.regClass prev
          (s.numPinnedWrites dest.reg.regClass prev - 1), prev, prev)
      else
        match s.freeList dest.reg.regClass with
        | [] => none
        | reg :: free =>
          some ((({ s with freeList := Function.update s.freeList dest.reg.regClass free }).setEntry
            tid dest.reg reg).setNumPinnedWrites dest.reg.regClass reg dest.numPinnedWrites, reg, prev)

def pushHistory (s : Renamer) (tid : Nat) (entry : RenameHistory) : Renamer :=
  { s with historyBuffer := Function.update s.historyBuffer tid (entry :: s.historyBuffer tid) }

def renameDestRegs (prm : RenameParams) (tid seqNum : Nat) :
    List DestReg → Renamer → Option Renamer
  | [], s => some s
  | dest :: dests, s =>
    match s.rename prm tid dest with
    | none => none
    | some (s, renamed, prev) =>
      renameDestRegs prm tid seqNum dests (s.pushHistory tid ⟨seqNum, dest.reg, renamed, prev⟩)

/-- One entry of the history undone, when the mapping was really changed. -/
def undo (s : Renamer) (tid : Nat) (entry : RenameHistory) : Renamer :=
  if entry.newPhysReg ≠ entry.prevPhysReg then
    (s.setEntry tid entry.archReg entry.prevPhysReg).addReg entry.archReg.regClass entry.newPhysReg
  else s

def setHistory (s : Renamer) (tid : Nat) (entries : List RenameHistory) : Renamer :=
  { s with historyBuffer := Function.update s.historyBuffer tid entries }

/-- The loop of `doSquash`, from the newest entry on. -/
def squashLoop (n tid : Nat) : List RenameHistory → Renamer → Renamer
  | [], s => s
  | entry :: rest, s =>
    if n < entry.instSeqNum then squashLoop n tid rest ((s.undo tid entry).setHistory tid rest) else s

def doSquash (s : Renamer) (n tid : Nat) : Renamer :=
  squashLoop n tid (s.historyBuffer tid) s

def release (s : Renamer) (entry : RenameHistory) : Renamer :=
  if entry.newPhysReg ≠ entry.prevPhysReg then s.addReg entry.archReg.regClass entry.prevPhysReg
  else s

/-- The loop of `removeFromHistory`, from the oldest entry on. -/
def commitLoop (n tid : Nat) : List RenameHistory → Renamer → Renamer
  | [], s => s
  | entry :: rest, s =>
    if entry.instSeqNum ≤ n then
      commitLoop n tid rest ((s.release entry).setHistory tid rest.reverse)
    else s

def removeFromHistory (s : Renamer) (n tid : Nat) : Renamer :=
  commitLoop n tid (s.historyBuffer tid).reverse s

def classes : List RegClass := [.int, .float, .vec, .vecElem, .vecPred, .cc]

/-- The entries of all rename maps, in the order in which they are first assigned. -/
def slots (prm : RenameParams) : List (Nat × RegId) :=
  (List.range prm.numThreads).flatMap fun tid =>
    classes.flatMap fun c => (List.range (prm.numArch c)).map fun i => (tid, ⟨c, i⟩)

/-- The next free register for an entry. -/
def assign (s : Renamer) (slot : Nat × RegId) : Renamer :=
  match s.freeList slot.2.regClass with
  | [] => s
  | reg :: free =>
    ({ s with freeList := Function.update s.freeList slot.2.regClass free }).setEntry
      slot.1 slot.2 reg

/-- All registers free, no entry assigned. -/
def unassigned (prm : RenameParams) : Renamer where
  freeList c := List.range (prm.numPhys c)
  renameMap _ _ := none
  historyBuffer _ := []
  numPinnedWrites _ _ := 0

def init (prm : RenameParams) : Renamer := (slots prm).foldl assign (unassigned prm)

inductive RenameCall where
  | renameDestRegs (tid seqNum : Nat) (dests : List DestReg)
  | doSquash (n tid : Nat)
  | removeFromHistory (n tid : Nat)

def call (prm : RenameParams) (s : Renamer) : RenameCall → Option Renamer
  | .renameDestRegs tid seqNum dests => renameDestRegs prm tid seqNum dests s
  | .doSquash n tid => some (s.doSquash n tid)
  | .removeFromHistory n tid => some (s.removeFromHistory n tid)

end Renamer

end Gem5.O3
