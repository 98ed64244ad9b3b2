import Gem5.Lib.Lists
import Gem5.O3.PhysRegs

/-!
# Runs of the renamer

Beside the renamer a record is kept of the instructions in flight: renamed, and neither squashed
nor removed from the history. With each goes the rename map from before it was renamed.
-/

namespace Gem5.O3.Renamer

open Finset Runs

variable {hist : List RenameHistory}

variable {prm : RenameParams} {s s' : Renamer} {tid : Nat}

/-- The entries undo the map one after the other. -/
def Linked (prm : RenameParams) (tid : Nat) : (RegId → Option Nat) → List RenameHistory → Prop
  | _, [] => True
  | map, e :: es => Undoable prm tid map e ∧ Linked prm tid (undoEntry map e) es

/-- An instruction in flight: its sequence number and the map from before it. -/
abbrev Flight := Nat × (RegId → Option Nat)

/-- The history is made of one stretch of entries for each instruction in flight, and undoing a
stretch gives the map from before its instruction. -/
inductive Record (prm : RenameParams) (tid : Nat) :
    (RegId → Option Nat) → List RenameHistory → List Flight → Prop where
  | nil (map : RegId → Option Nat) : Record prm tid map [] []
  | inst {map : RegId → Option Nat} {es hist : List RenameHistory} {seqNum : Nat}
      {flights : List Flight} (own : ∀ e ∈ es, e.instSeqNum = seqNum)
      (linked : Linked prm tid map es) (rest : Record prm tid (es.foldl undoEntry map) hist flights) :
      Record prm tid map (es ++ hist) ((seqNum, es.foldl undoEntry map) :: flights)

/-- The younger instruction comes first. -/
def Descending (flights : List Flight) : Prop := flights.Pairwise fun a b => b.1 < a.1

variable {flights : List Flight}

theorem Record.seqNum_mem {map : RegId → Option Nat} (record : Record prm tid map hist flights) :
    ∀ e ∈ hist, ∃ f ∈ flights, f.1 = e.instSeqNum := by
  induction record with
  | nil => exact fun _ none => absurd none List.not_mem_nil
  | inst own _ _ ih => grind [List.mem_cons_self]

theorem Record.push {map map' : RegId → Option Nat} {hist : List RenameHistory} {seqNum : Nat}
    {before : RegId → Option Nat} {flights : List Flight} {e : RenameHistory}
    (record : Record prm tid map hist ((seqNum, before) :: flights)) (own : e.instSeqNum = seqNum)
    (undoable : Undoable prm tid map' e) (undone : undoEntry map' e = map) :
    Record prm tid map' (e :: hist) ((seqNum, before) :: flights) := by
  cases record with
  | @inst _ es hist _ _ all linked rest =>
    have more : Record prm tid map' ((e :: es) ++ hist)
        ((seqNum, (e :: es).foldl undoEntry map') :: flights) := by
      refine .inst ?_ ⟨undoable, undone ▸ linked⟩ ?_
      · grind
      · rw [List.foldl_cons, undone]
        exact rest
    rw [List.foldl_cons, undone] at more
    exact more

theorem Record.remove {map : RegId → Option Nat} (record : Record prm tid map hist flights)
    (descending : Descending flights) (n : Nat) :
    Record prm tid map (hist.filter fun e => decide (n < e.instSeqNum))
      (flights.filter fun f => decide (n < f.1)) := by
  induction record with
  | nil map => exact .nil map
  | @inst map es hist seqNum flights own linked rest ih =>
    obtain ⟨older, descending⟩ := List.pairwise_cons.mp descending
    rw [List.filter_append]
    by_cases young : n < seqNum
    · have all : es.filter (fun e => decide (n < e.instSeqNum)) = es :=
        List.filter_eq_self.mpr fun e mem => decide_eq_true (own e mem ▸ young)
      rw [all, List.filter_cons_of_pos (by simpa using young)]
      exact .inst own linked (ih descending)
    · have none : es.filter (fun e => decide (n < e.instSeqNum)) = [] :=
        List.filter_eq_nil_iff.mpr fun e mem => by simpa [own e mem] using young
      have noFlight : flights.filter (fun f => decide (n < f.1)) = [] :=
        List.filter_eq_nil_iff.mpr fun f mem => by
          have less := older f mem
          simp only [decide_eq_true_eq]
          omega
      have rest' := ih descending
      rw [noFlight] at rest'
      rw [none, List.filter_cons_of_neg (by simpa using young), noFlight]
      generalize hist.filter (fun e => decide (n < e.instSeqNum)) = left at rest' ⊢
      cases rest'
      exact .nil map

theorem dropWhile_eq_filter (n : Nat) {entries : List RenameHistory}
    (ascending : entries.Pairwise fun a b => a.instSeqNum ≤ b.instSeqNum) :
    entries.dropWhile (fun e => decide (e.instSeqNum ≤ n))
      = entries.filter fun e => decide (n < e.instSeqNum) := by
  rw [Cuts.dropWhile_eq_filter (ascending.imp fun le old => ?_)]
  · grind
  · exact decide_eq_true (le.trans (of_decide_eq_true old))

theorem Record.ascending {map : RegId → Option Nat} (record : Record prm tid map hist flights)
    (descending : Descending flights) :
    hist.reverse.Pairwise fun a b => a.instSeqNum ≤ b.instSeqNum := by
  rw [List.pairwise_reverse]
  induction record with
  | nil => exact .nil
  | inst own linked rest ih =>
    obtain ⟨older, descending⟩ := List.pairwise_cons.mp descending
    refine List.pairwise_append.mpr ⟨?_, ih descending, ?_⟩
    · refine List.pairwise_iff_forall_sublist.mpr fun {a b} sub => ?_
      have mem : a ∈ _ ∧ b ∈ _ := ⟨sub.subset List.mem_cons_self, sub.subset (by simp)⟩
      rw [own a mem.1, own b mem.2]
    · intro a memA b memB
      obtain ⟨f, mem, same⟩ := rest.seqNum_mem b memB
      have less := older f mem
      rw [own a memA]
      omega

/-- The renamer, and the instructions in flight of each thread. -/
structure Traced where
  renamer : Renamer
  inFlight : Nat → List Flight

/-- What a call does to the instructions in flight. -/
def track (t : Traced) : RenameCall → Nat → List Flight
  | .renameDestRegs tid seqNum _ => Function.update t.inFlight tid
      ((seqNum, t.renamer.renameMap tid) :: t.inFlight tid)
  | .doSquash n tid => Function.update t.inFlight tid
      ((t.inFlight tid).filter fun f => decide (f.1 ≤ n))
  | .removeFromHistory n tid => Function.update t.inFlight tid
      ((t.inFlight tid).filter fun f => decide (n < f.1))

/-- An instruction is renamed when there are registers for it, and is younger than those of its
thread in flight. -/
def Allowed (prm : RenameParams) (t : Traced) : RenameCall → Prop
  | .renameDestRegs tid seqNum dests => tid < prm.numThreads ∧
      (∀ dest ∈ dests,
        dest.reg.regClass ≠ .misc → dest.reg.flatIndex < prm.numArch dest.reg.regClass) ∧
      (∀ c, c ≠ .misc →
        dests.countP (fun dest => dest.reg.regClass = c) ≤ (t.renamer.freeList c).length) ∧
      ∀ f ∈ t.inFlight tid, f.1 < seqNum
  | .doSquash _ tid => tid < prm.numThreads
  | .removeFromHistory _ tid => tid < prm.numThreads

/-- Two threads with two integer registers each, and three registers to spare. -/
def pair : RenameParams where
  numThreads := 2
  numArch c := if c = .int then 2 else 0
  numPhys c := if c = .int then 7 else 0
  zeroReg _ := 0
  enough c := by cases c <;> decide

end Gem5.O3.Renamer
