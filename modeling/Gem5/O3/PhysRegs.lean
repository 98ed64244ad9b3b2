import Gem5.Lib.Runs
import Gem5.Lib.Tables
import Gem5.O3.Rename

/-!
# The places of the physical registers

A physical register is on the free list of its class, in a rename map, or kept by the history as
the previous mapping of a register that was really renamed. All of these are counted, and every
step moves a register from one place to another.
-/

namespace Gem5.O3.Renamer

open Finset Runs List Function

variable {prm : RenameParams} {s s' : Renamer} {tid : Nat}

/-- A renamed architectural register of a thread. -/
structure Valid (prm : RenameParams) (tid : Nat) (arch : RegId) : Prop where
  thread : tid < prm.numThreads
  renamed : arch.regClass ≠ .misc
  index : arch.flatIndex < prm.numArch arch.regClass

def mapped (prm : RenameParams) (s : Renamer) (c : RegClass) (p : Nat) : Nat :=
  ∑ tid ∈ range prm.numThreads, ∑ i ∈ range (prm.numArch c),
    if s.renameMap tid ⟨c, i⟩ = some p then 1 else 0

/-- The history entry keeps a previous register. -/
def holds (c : RegClass) (p : Nat) (e : RenameHistory) : Bool :=
  e.archReg.regClass = c ∧ e.prevPhysReg = p ∧ e.newPhysReg ≠ e.prevPhysReg

def kept (prm : RenameParams) (s : Renamer) (c : RegClass) (p : Nat) : Nat :=
  ∑ tid ∈ range prm.numThreads, (s.historyBuffer tid).countP (holds c p)

/-- How many places a register has. -/
def places (prm : RenameParams) (s : Renamer) (c : RegClass) (p : Nat) : Nat :=
  (s.freeList c).count p + mapped prm s c p + kept prm s c p

/-- Every physical register has one place. -/
def Conserved (prm : RenameParams) (s : Renamer) : Prop :=
  ∀ c, c ≠ .misc → ∀ p, places prm s c p = if p < prm.numPhys c then 1 else 0

/-- A mapping with one entry of the history undone. -/
def undoEntry (map : RegId → Option Nat) (e : RenameHistory) : RegId → Option Nat :=
  if e.newPhysReg ≠ e.prevPhysReg then Function.update map e.archReg (some e.prevPhysReg) else map

/-- If the entry really changed the mapping, the mapping still has the new register. -/
def Undoable (prm : RenameParams) (tid : Nat) (map : RegId → Option Nat) (e : RenameHistory) : Prop :=
  e.newPhysReg ≠ e.prevPhysReg → Valid prm tid e.archReg ∧ map e.archReg = some e.newPhysReg

/-- A step that concerns one thread leaves the maps and the histories of the others. -/
def Frame (tid : Nat) (s s' : Renamer) : Prop :=
  ∀ t, t ≠ tid → s'.renameMap t = s.renameMap t ∧ s'.historyBuffer t = s.historyBuffer t

theorem Frame.refl (tid : Nat) (s : Renamer) : Frame tid s s := fun _ _ => ⟨rfl, rfl⟩

theorem Frame.trans {s'' : Renamer} (first : Frame tid s s') (second : Frame tid s' s'') :
    Frame tid s s'' := fun t other =>
  ⟨(second t other).1.trans (first t other).1, (second t other).2.trans (first t other).2⟩

theorem Frame.setEntry (arch : RegId) (p : Nat) : Frame tid s (s.setEntry tid arch p) := by
  intro t other
  rw [Renamer.setEntry]
  split
  · exact ⟨rfl, rfl⟩
  · exact ⟨update_of_ne other _ _, rfl⟩

theorem Frame.setHistory (entries : List RenameHistory) : Frame tid s (s.setHistory tid entries) :=
  fun _ other => ⟨rfl, update_of_ne other _ _⟩

theorem Frame.undo (e : RenameHistory) : Frame tid s (s.undo tid e) := by
  rw [Renamer.undo]
  split
  · exact (Frame.setEntry e.archReg e.prevPhysReg).trans fun _ _ => ⟨rfl, rfl⟩
  · exact Frame.refl tid s

theorem Frame.release (e : RenameHistory) : Frame tid s (s.release e) := by
  rw [Renamer.release]
  split <;> exact fun _ _ => ⟨rfl, rfl⟩

/-- Every entry of the maps is assigned. -/
def Complete (prm : RenameParams) (s : Renamer) : Prop :=
  ∀ tid arch, Valid prm tid arch → (s.renameMap tid arch).isSome

theorem Complete.setEntry (complete : Complete prm s) (tid : Nat) (arch : RegId) (p : Nat) :
    Complete prm (s.setEntry tid arch p) := by
  rw [Renamer.setEntry]
  split
  · exact complete
  · intro t a valid
    dsimp only
    by_cases own : t = tid
    · subst own
      rw [update_self]
      by_cases same : a = arch
      · grind
      · aesop
    · aesop

theorem Complete.undo (complete : Complete prm s) (tid : Nat) (e : RenameHistory) :
    Complete prm (s.undo tid e) := by
  rw [Renamer.undo]
  split
  · exact complete.setEntry tid e.archReg e.prevPhysReg
  · exact complete

theorem Complete.release (complete : Complete prm s) (e : RenameHistory) :
    Complete prm (s.release e) := by
  rw [Renamer.release]
  split <;> exact complete

end Gem5.O3.Renamer
