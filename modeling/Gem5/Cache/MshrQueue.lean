import Gem5.Lib.Runs
import Mathlib.Data.List.Perm.Lattice
import Mathlib.Data.List.Range

/-!
# The queue of the miss status registers

The ready list holds the registers that are not in service, in the order of their ready times. A
delay changes the ready time of a register that is in the list.
-/

namespace Gem5.Cache

open Runs List Function Bool

/-- What the queue asks a register for: its state and how many targets wait in its two lists. -/
structure QueueEntry where
  inService : Bool
  readyTime : Nat
  numTargets : Nat
  numDeferred : Nat
  deferredReset : Bool
  deriving DecidableEq

/-- Registers are named by their places in `entries`. -/
structure MshrQueue where
  numEntries : Nat
  entries : Nat → QueueEntry
  allocatedList : List Nat
  readyList : List Nat
  freeList : List Nat
  numInService : Int
  allocated : Int
  curTick : Nat

namespace MshrQueue

/-- Before the first entry that is ready later. Fails where the source panics. -/
def insertBefore (readyTime : Nat → Nat) (entry : Nat) : List Nat → Option (List Nat)
  | [] => none
  | i :: rest =>
    if readyTime entry < readyTime i then some (entry :: i :: rest)
    else (insertBefore readyTime entry rest).map (i :: ·)

def addToReadyList (readyTime : Nat → Nat) (readyList : List Nat) (entry : Nat) :
    Option (List Nat) :=
  match readyList.getLast? with
  | none => some (readyList ++ [entry])
  | some back =>
    if readyTime back ≤ readyTime entry then some (readyList ++ [entry])
    else insertBefore readyTime entry readyList

/-- The element of place `i` is moved in front of that of place `it`. -/
def splice (l : List Nat) (it i : Nat) : List Nat :=
  if it = i ∨ it = i + 1 then l
  else
    match l[i]? with
    | none => l
    | some x => (l.eraseIdx i).insertIdx (if i < it then it - 1 else it) x

variable (q : MshrQueue)

def readyTime (mshr : Nat) : Nat := (q.entries mshr).readyTime

def setEntry (mshr : Nat) (entry : QueueEntry) : MshrQueue :=
  { q with entries := Function.update q.entries mshr entry }

/-- The target of the new register is the packet of the miss. -/
def allocate (whenReady : Nat) : Option MshrQueue :=
  match q.freeList with
  | [] => none
  | mshr :: freeList =>
    if (q.entries mshr).numTargets + (q.entries mshr).numDeferred = 0 then
      let q := q.setEntry mshr { q.entries mshr with
        inService := false
        readyTime := whenReady
        numTargets := 1 }
      (addToReadyList q.readyTime q.readyList mshr).map fun readyList =>
        { q with
          freeList := freeList
          allocatedList := q.allocatedList ++ [mshr]
          readyList := readyList
          allocated := q.allocated + 1 }
    else none

/-- Fails where the place in the ready list is not valid. -/
def delay (mshr ticks : Nat) : Option MshrQueue :=
  if mshr ∈ q.readyList ∧ q.readyTime mshr ≤ q.curTick then
    let q := q.setEntry mshr { q.entries mshr with readyTime := q.curTick + ticks }
    let readyIter := q.readyList.idxOf mshr
    let it := readyIter + (q.readyList.drop readyIter).findIdx fun other =>
      q.readyTime other ≤ q.readyTime mshr
    some { q with readyList := splice q.readyList it readyIter }
  else none

def markInService (mshr : Nat) : Option MshrQueue :=
  if (q.entries mshr).inService = false ∧ mshr ∈ q.readyList then
    let q := q.setEntry mshr { q.entries mshr with inService := true }
    some { q with
      readyList := q.readyList.erase mshr
      numInService := q.numInService + 1 }
  else none

def markPending (mshr : Nat) : Option MshrQueue :=
  if (q.entries mshr).inService then
    let q := q.setEntry mshr { q.entries mshr with inService := false }
    (addToReadyList q.readyTime q.readyList mshr).map fun readyList =>
      { q with
        readyList := readyList
        numInService := q.numInService - 1 }
  else none

def deallocate (mshr : Nat) : Option MshrQueue :=
  if mshr ∈ q.allocatedList ∧ (q.entries mshr).numTargets = 0 ∧ (q.entries mshr).deferredReset then
    some { q.setEntry mshr { q.entries mshr with inService := false } with
      allocatedList := q.allocatedList.erase mshr
      freeList := mshr :: q.freeList
      allocated := q.allocated - 1
      numInService := if (q.entries mshr).inService then q.numInService - 1 else q.numInService
      readyList := if (q.entries mshr).inService then q.readyList else q.readyList.erase mshr }
  else none

def getNext : Option Nat :=
  match q.readyList with
  | [] => none
  | front :: _ => if q.curTick < q.readyTime front then none else some front

/-- The calls, what else the cache does to the targets of a register, and time. -/
inductive Call where
  | allocate (whenReady : Nat)
  | markInService (mshr : Nat)
  | markPending (mshr : Nat)
  | delay (mshr ticks : Nat)
  | deallocate (mshr : Nat)
  | service (mshr : Nat) (entry : QueueEntry)
  | tick (curTick : Nat)

def call : Call → Option MshrQueue
  | .allocate whenReady => q.allocate whenReady
  | .markInService mshr => q.markInService mshr
  | .markPending mshr => q.markPending mshr
  | .delay mshr ticks => q.delay mshr ticks
  | .deallocate mshr => q.deallocate mshr
  | .service mshr entry => some (q.setEntry mshr entry)
  | .tick curTick => some { q with curTick := curTick }

/-- The ready time changes outside of the queue while the register is in service, when its deferred
targets are promoted. Time does not run back. -/
def Allowed : Call → Prop
  | .service mshr entry =>
    mshr ∈ q.allocatedList ∧ entry.inService = (q.entries mshr).inService ∧
      (entry.inService = false → entry.readyTime = q.readyTime mshr)
  | .tick curTick => q.curTick ≤ curTick
  | _ => True

def new (numEntries : Nat) : MshrQueue where
  numEntries := numEntries
  entries _ := ⟨false, 0, 0, 0, true⟩
  allocatedList := []
  readyList := []
  freeList := List.range numEntries
  numInService := 0
  allocated := 0
  curTick := 0

/-- The lists and the counters describe the entries. -/
structure Counted : Prop where
  partition : (q.allocatedList ++ q.freeList).Perm (List.range q.numEntries)
  once : q.readyList.Nodup
  ready : ∀ i, i ∈ q.readyList ↔ i ∈ q.allocatedList ∧ (q.entries i).inService = false
  allocated : q.allocated = q.allocatedList.length
  inService : q.numInService = q.allocatedList.countP fun i => (q.entries i).inService
  free : ∀ i, i ∉ q.allocatedList → (q.entries i).inService = false

def Sorted : Prop := q.readyList.Pairwise fun i j => q.readyTime i ≤ q.readyTime j

/-- Some entry is returned whenever one is ready. -/
def NeverHides : Prop := ∀ i ∈ q.readyList, q.readyTime i ≤ q.curTick → q.getNext.isSome

/-- A delayed entry is not ready later than any entry behind it. -/
def InPlace : Call → Prop
  | .delay mshr ticks =>
    ∀ i ∈ q.readyList.drop (q.readyList.idxOf mshr + 1), q.curTick + ticks ≤ q.readyTime i
  | _ => True

instance decidableAllowed : (c : Call) → Decidable (q.Allowed c)
  | .service _ _ => inferInstanceAs (Decidable (_ ∧ _ ∧ _))
  | .tick _ => inferInstanceAs (Decidable (_ ≤ _))
  | .allocate _ | .markInService _ | .markPending _ | .delay _ _ | .deallocate _ => .isTrue trivial

instance decidableInPlace : (c : Call) → Decidable (q.InPlace c)
  | .delay _ _ => inferInstanceAs (Decidable (∀ _ ∈ _, _))
  | .allocate _ | .markInService _ | .markPending _ | .deallocate _ | .service _ _ | .tick _ =>
    .isTrue trivial

variable {q} {q' : MshrQueue} {l l' : List Nat} {time time' : Nat → Nat} {mshr entry : Nat}

theorem insertBefore_spec (later : ∃ i ∈ l, time entry < time i) :
    ∃ l', insertBefore time entry l = some l' ∧ l'.Perm (entry :: l) ∧
      (l.Pairwise (fun i j => time i ≤ time j) → l'.Pairwise fun i j => time i ≤ time j) := by
  induction l with
  | nil => exact absurd later (by simp)
  | cons i rest ih =>
    rw [insertBefore]
    by_cases less : time entry < time i
    · rw [if_pos less]
      refine ⟨_, rfl, .refl _, fun sorted => List.pairwise_cons.mpr ⟨fun j mem => ?_, sorted⟩⟩
      rcases List.mem_cons.mp mem with rfl | mem
      · exact Nat.le_of_lt less
      · exact Nat.le_trans (Nat.le_of_lt less) ((List.pairwise_cons.mp sorted).1 j mem)
    · rw [if_neg less]
      obtain ⟨j, mem, after⟩ := later
      have mem' : j ∈ rest := by grind
      obtain ⟨l', inserted, perm, sorts⟩ := ih ⟨j, mem', after⟩
      rw [inserted]
      refine ⟨i :: l', rfl, (perm.cons i).trans (.swap entry i rest), fun sorted => ?_⟩
      obtain ⟨first, others⟩ := List.pairwise_cons.mp sorted
      refine List.pairwise_cons.mpr ⟨fun k mem => ?_, sorts others⟩
      rcases List.mem_cons.mp (perm.mem_iff.mp mem) with rfl | mem
      · exact Nat.le_of_not_lt less
      · exact first k mem

theorem addToReadyList_spec (time : Nat → Nat) (l : List Nat) (entry : Nat) :
    ∃ l', addToReadyList time l entry = some l' ∧ l'.Perm (entry :: l) ∧
      (l.Pairwise (fun i j => time i ≤ time j) → l'.Pairwise fun i j => time i ≤ time j) := by
  rw [addToReadyList]
  cases back : l.getLast? with
  | none => simp [List.getLast?_eq_none_iff.mp back]
  | some last =>
    obtain ⟨front, rfl⟩ := List.getLast?_eq_some_iff.mp back
    dsimp only
    by_cases le : time last ≤ time entry
    · rw [if_pos le]
      refine ⟨_, rfl, perm_append_singleton _ _, fun sorted => ?_⟩
      refine List.pairwise_append.mpr ⟨sorted, pairwise_singleton _ _, fun i mem j last_ => ?_⟩
      rw [List.mem_singleton.mp last_]
      rcases List.mem_append.mp mem with before | here
      · grind
      · rwa [List.mem_singleton.mp here]
    · rw [if_neg le]
      exact insertBefore_spec ⟨last, mem_append_right _ List.mem_cons_self,
        Nat.lt_of_not_le le⟩

variable (time) in
theorem splice_same (mem : mshr ∈ l) :
    splice l (l.idxOf mshr + (l.drop (l.idxOf mshr)).findIdx fun other => time other ≤ time mshr)
      (l.idxOf mshr) = l := by
  have place := idxOf_lt_length_of_mem mem
  have first : (l.drop (l.idxOf mshr)).findIdx (fun other => time other ≤ time mshr) = 0 := by
    rw [drop_eq_getElem_cons place, getElem_idxOf, findIdx_cons]
    simp
  rw [first, splice, if_pos (.inl (Nat.add_zero _))]

theorem countP_update (nodup : l.Nodup) (mem : mshr ∈ l) (entries : Nat → QueueEntry)
    (new : QueueEntry) :
    (l.countP fun i => (Function.update entries mshr new i).inService)
        + (entries mshr).inService.toNat
      = (l.countP fun i => (entries i).inService) + new.inService.toNat := by
  have split := perm_cons_erase mem
  have others : (l.erase mshr).countP (fun i => (Function.update entries mshr new i).inService)
      = (l.erase mshr).countP fun i => (entries i).inService := by
    refine List.countP_congr fun i mem' => ?_
    rw [update_of_ne ((nodup.mem_erase_iff.mp mem').1)]
  rw [split.countP_eq, split.countP_eq, List.countP_cons, List.countP_cons, others,
    update_self]
  cases new.inService <;> cases (entries mshr).inService <;> simp

theorem countP_update_of_notMem (free : mshr ∉ l) (entries : Nat → QueueEntry) (new : QueueEntry) :
    (l.countP fun i => (Function.update entries mshr new i).inService)
      = l.countP fun i => (entries i).inService := by
  refine List.countP_congr fun i mem => ?_
  have other : i ≠ mshr := fun same => free (same ▸ mem)
  rw [update_of_ne other]

theorem Counted.nodup (counted : q.Counted) : q.allocatedList.Nodup :=
  (List.nodup_append.mp (counted.partition.nodup_iff.mpr List.nodup_range)).1

theorem Counted.notMem_ready (counted : q.Counted) (busy : (q.entries mshr).inService = true) :
    mshr ∉ q.readyList := by
  intro mem
  rw [((counted.ready mshr).mp mem).2] at busy
  cases busy

theorem Counted.mem_allocated (counted : q.Counted) (busy : (q.entries mshr).inService = true) :
    mshr ∈ q.allocatedList := by
  by_contra free
  rw [counted.free mshr free] at busy
  cases busy

theorem sorted_congr (sorted : l.Pairwise fun i j => time i ≤ time j)
    (same : ∀ i ∈ l, time' i = time i) : l.Pairwise fun i j => time' i ≤ time' j :=
  sorted.imp_of_mem fun memI memJ le => by rwa [same _ memI, same _ memJ]

theorem setEntry_entries (q : MshrQueue) (mshr : Nat) (new : QueueEntry) :
    (q.setEntry mshr new).entries = Function.update q.entries mshr new := rfl

theorem readyTime_setEntry_of_ne {i : Nat} {new : QueueEntry} (other : i ≠ mshr) :
    (q.setEntry mshr new).readyTime i = q.readyTime i := by
  rw [readyTime, readyTime, setEntry_entries, update_of_ne other]

theorem Counted.allocate {whenReady : Nat} (counted : q.Counted)
    (called : q.allocate whenReady = some q') : q'.Counted ∧ (q.Sorted → q'.Sorted) := by
  rw [MshrQueue.allocate] at called
  cases list : q.freeList with
  | nil =>
    rw [list] at called
    cases called
  | cons mshr freeList =>
    rw [list] at called
    dsimp only at called
    split at called
    case isFalse => cases called
    case isTrue empty =>
      obtain ⟨readyList, added, rfl⟩ := Option.map_eq_some_iff.mp called
      have partition := counted.partition
      rw [list] at partition
      have nodup := partition.nodup_iff.mpr List.nodup_range
      have free : mshr ∉ q.allocatedList := fun mem =>
        (List.nodup_append.mp nodup).2.2 mshr mem mshr List.mem_cons_self rfl
      have notReady : mshr ∉ q.readyList := fun mem => free ((counted.ready mshr).mp mem).1
      obtain ⟨l', added', perm, sorts⟩ := addToReadyList_spec
        (q.setEntry mshr { q.entries mshr with
          inService := false, readyTime := whenReady, numTargets := 1 }).readyTime q.readyList mshr
      obtain rfl := Option.some.inj (added'.symm.trans added)
      have old {i : Nat} (other : i ≠ mshr) (new : QueueEntry) :
          Function.update q.entries mshr new i = q.entries i := update_of_ne other _ _
      refine ⟨⟨?_, ?_, fun i => ?_, ?_, ?_, fun i out => ?_⟩, fun sorted => sorts ?_⟩
      · rw [List.append_assoc]
        exact partition
      · exact perm.nodup_iff.mpr (List.nodup_cons.mpr ⟨notReady, counted.once⟩)
      · dsimp only [setEntry]
        rw [perm.mem_iff, List.mem_cons, mem_append, List.mem_singleton]
        by_cases own : i = mshr
        · grind
        · rw [old own, counted.ready]
          simp [own]
      · simp [counted.allocated, setEntry]
      · simp [counted.inService, countP_update_of_notMem free, setEntry]
      · dsimp only [setEntry]
        have other : i ≠ mshr := fun own => out (own ▸ mem_append_right _ List.mem_cons_self)
        rw [old other]
        exact counted.free i fun mem => out (mem_append_left _ mem)
      · refine sorted_congr sorted fun i mem => readyTime_setEntry_of_ne ?_
        rintro rfl
        exact notReady mem

theorem delay_eq {ticks : Nat} (called : q.delay mshr ticks = some q') :
    mshr ∈ q.readyList ∧ q.readyTime mshr ≤ q.curTick ∧
      q' = q.setEntry mshr { q.entries mshr with readyTime := q.curTick + ticks } := by
  rw [MshrQueue.delay] at called
  split at called
  case isFalse => cases called
  case isTrue valid =>
    cases called
    have same := splice_same (q.setEntry mshr { q.entries mshr with
      readyTime := q.curTick + ticks }).readyTime valid.1
    exact ⟨valid.1, valid.2, congrArg (fun readyList => { q.setEntry mshr { q.entries mshr with
      readyTime := q.curTick + ticks } with readyList := readyList }) same⟩

theorem Counted.setEntry {new : QueueEntry} (counted : q.Counted)
    (same : new.inService = (q.entries mshr).inService) : (q.setEntry mshr new).Counted := by
  have inService : ∀ i, (Function.update q.entries mshr new i).inService
      = (q.entries i).inService := by
    intro i
    by_cases own : i = mshr
    · rw [own, update_self, same]
    · rw [update_of_ne own]
  refine ⟨counted.partition, counted.once, fun i => ?_, counted.allocated, ?_, fun i out => ?_⟩
  · rw [setEntry_entries, inService]
    exact counted.ready i
  · simp only [MshrQueue.setEntry, inService]
    exact counted.inService
  · rw [setEntry_entries, inService]
    exact counted.free i out

theorem delay_sorted_iff {ticks : Nat} (counted : q.Counted) (sorted : q.Sorted)
    (called : q.delay mshr ticks = some q') : q'.Sorted ↔ q.InPlace (.delay mshr ticks) := by
  obtain ⟨mem, due, rfl⟩ := delay_eq called
  obtain ⟨before, after, list⟩ := append_of_mem mem
  have once := counted.once
  rw [list] at once
  obtain ⟨-, nodup, apart⟩ := List.nodup_append.mp once
  have notBefore : mshr ∉ before := fun mem' => apart mshr mem' mshr List.mem_cons_self rfl
  have notAfter := (List.nodup_cons.mp nodup).1
  have behind : q.readyList.drop (q.readyList.idxOf mshr + 1) = after := by
    rw [list, idxOf_append_of_notMem notBefore, idxOf_cons_self]
    simp
  have own : (q.setEntry mshr { q.entries mshr with readyTime := q.curTick + ticks }).readyTime mshr
      = q.curTick + ticks := by
    rw [readyTime, setEntry_entries, update_self]
  have others : ∀ i, i ≠ mshr →
      (q.setEntry mshr { q.entries mshr with readyTime := q.curTick + ticks }).readyTime i
        = q.readyTime i := fun i other => readyTime_setEntry_of_ne other
  rw [Sorted, list] at sorted
  obtain ⟨sortedBefore, sortedRest, cross⟩ := List.pairwise_append.mp sorted
  obtain ⟨-, sortedAfter⟩ := List.pairwise_cons.mp sortedRest
  rw [InPlace, behind, Sorted, show (q.setEntry mshr { q.entries mshr with
    readyTime := q.curTick + ticks }).readyList = before ++ mshr :: after from list,
    pairwise_append]
  constructor
  · rintro ⟨-, rest, -⟩ i mem'
    have le := (List.pairwise_cons.mp rest).1 i mem'
    rwa [own, others i (fun same => notAfter (same ▸ mem'))] at le
  · intro later
    refine ⟨sorted_congr sortedBefore fun i mem' => others i fun same => notBefore (same ▸ mem'),
      List.pairwise_cons.mpr ⟨fun i mem' => ?_, sorted_congr sortedAfter fun i mem' =>
        others i fun same => notAfter (same ▸ mem')⟩, fun i memI j memJ => ?_⟩
    · grind
    · grind

theorem Counted.delay {ticks : Nat} (counted : q.Counted)
    (called : q.delay mshr ticks = some q') : q'.Counted := by
  obtain ⟨-, -, rfl⟩ := delay_eq called
  exact counted.setEntry rfl

theorem Counted.markInService (counted : q.Counted) (called : q.markInService mshr = some q') :
    q'.Counted ∧ (q.Sorted → q'.Sorted) := by
  rw [MshrQueue.markInService] at called
  split at called
  case isFalse => cases called
  case isTrue waiting =>
    cases called
    obtain ⟨idle, mem⟩ := waiting
    have allocated := ((counted.ready mshr).mp mem).1
    refine ⟨⟨counted.partition, counted.once.erase mshr, fun i => ?_, counted.allocated, ?_,
      fun i out => ?_⟩, fun sorted => ?_⟩
    · dsimp only [MshrQueue.setEntry]
      rw [counted.once.mem_erase_iff, counted.ready]
      by_cases own : i = mshr
      · subst own
        simp
      · rw [update_of_ne own]
        simp [own]
    · have count := countP_update counted.nodup allocated q.entries
        { q.entries mshr with inService := true }
      have total := counted.inService
      rw [idle] at count
      dsimp only [MshrQueue.setEntry, toNat_true, toNat_false] at count ⊢
      omega
    · dsimp only [MshrQueue.setEntry]
      have other : i ≠ mshr := fun own => out (own ▸ allocated)
      rw [update_of_ne other]
      exact counted.free i out
    · refine sorted_congr (sorted.sublist erase_sublist) fun i mem' => ?_
      exact readyTime_setEntry_of_ne (counted.once.mem_erase_iff.mp mem').1

theorem Counted.markPending (counted : q.Counted) (called : q.markPending mshr = some q') :
    q'.Counted ∧ (q.Sorted → q'.Sorted) := by
  rw [MshrQueue.markPending] at called
  split at called
  case isFalse => cases called
  case isTrue busy =>
    obtain ⟨readyList, added, rfl⟩ := Option.map_eq_some_iff.mp called
    have allocated := counted.mem_allocated busy
    have notReady := counted.notMem_ready busy
    obtain ⟨l', added', perm, sorts⟩ := addToReadyList_spec
      (q.setEntry mshr { q.entries mshr with inService := false }).readyTime q.readyList mshr
    obtain rfl := Option.some.inj (added'.symm.trans added)
    refine ⟨⟨counted.partition, ?_, fun i => ?_, counted.allocated, ?_, fun i out => ?_⟩,
      fun sorted => sorts ?_⟩
    · exact perm.nodup_iff.mpr (List.nodup_cons.mpr ⟨notReady, counted.once⟩)
    · dsimp only [MshrQueue.setEntry]
      rw [perm.mem_iff, List.mem_cons, counted.ready]
      by_cases own : i = mshr
      · subst own
        simp [allocated]
      · rw [update_of_ne own]
        simp [own]
    · have count := countP_update counted.nodup allocated q.entries
        { q.entries mshr with inService := false }
      have total := counted.inService
      rw [busy] at count
      dsimp only [MshrQueue.setEntry, toNat_true, toNat_false] at count ⊢
      omega
    · dsimp only [MshrQueue.setEntry]
      have other : i ≠ mshr := fun own => out (own ▸ allocated)
      rw [update_of_ne other]
      exact counted.free i out
    · refine sorted_congr sorted fun i mem' => readyTime_setEntry_of_ne ?_
      rintro rfl
      exact notReady mem'

theorem Counted.deallocate (counted : q.Counted) (called : q.deallocate mshr = some q') :
    q'.Counted ∧ (q.Sorted → q'.Sorted) := by
  rw [MshrQueue.deallocate] at called
  split at called
  case isFalse => cases called
  case isTrue done =>
    cases called
    have mem := done.1
    have nodup := counted.nodup
    have notErased : mshr ∉ q.allocatedList.erase mshr := fun again =>
      (nodup.mem_erase_iff.mp again).1 rfl
    have split := perm_cons_erase mem
    refine ⟨⟨?_, ?_, fun i => ?_, ?_, ?_, fun i out => ?_⟩, fun sorted => ?_⟩
    · refine List.Perm.trans ?_ counted.partition
      exact List.perm_middle.trans (split.symm.append_right q.freeList)
    · dsimp only
      split
      · exact counted.once
      · exact counted.once.erase mshr
    · dsimp only [MshrQueue.setEntry]
      rw [nodup.mem_erase_iff]
      by_cases own : i = mshr
      · subst own
        cases busy : (q.entries i).inService with
        | true => simp [counted.notMem_ready busy]
        | false => simp [counted.once.mem_erase_iff]
      · rw [update_of_ne own]
        cases busy : (q.entries mshr).inService with
        | true => simp [own, counted.ready]
        | false => simp [own, counted.ready]
    · dsimp only [MshrQueue.setEntry]
      have length := split.length_eq
      have total := counted.allocated
      rw [length_cons] at length
      omega
    · dsimp only [MshrQueue.setEntry]
      have count := split.countP_eq fun i => (q.entries i).inService
      have total := counted.inService
      rw [countP_update_of_notMem notErased]
      cases busy : (q.entries mshr).inService <;> simp [busy] at count ⊢ <;> omega
    · dsimp only [MshrQueue.setEntry]
      by_cases own : i = mshr
      · rw [own, update_self]
      · rw [update_of_ne own]
        exact counted.free i fun mem' => out (nodup.mem_erase_iff.mpr ⟨own, mem'⟩)
    · have entries : ∀ i, readyTime { q.setEntry mshr { q.entries mshr with inService := false } with
          allocatedList := q.allocatedList.erase mshr } i = q.readyTime i := by
        intro i
        by_cases own : i = mshr
        · simp [readyTime, own, MshrQueue.setEntry]
        · exact readyTime_setEntry_of_ne own
      refine sorted_congr (List.Pairwise.sublist ?_ sorted) fun i _ => entries i
      split
      · exact List.Sublist.refl _
      · exact erase_sublist

theorem Counted.call {c : Call} (counted : q.Counted) (allowed : q.Allowed c)
    (called : q.call c = some q') : q'.Counted := by
  cases c with
  | allocate => exact (counted.allocate called).1
  | markInService => exact (counted.markInService called).1
  | markPending => exact (counted.markPending called).1
  | delay => exact counted.delay called
  | deallocate => exact (counted.deallocate called).1
  | service =>
    cases called
    exact counted.setEntry allowed.2.1
  | tick =>
    cases called
    exact ⟨counted.partition, counted.once, counted.ready, counted.allocated, counted.inService,
      counted.free⟩

theorem Sorted.call {c : Call} (sorted : q.Sorted) (counted : q.Counted) (allowed : q.Allowed c)
    (inPlace : q.InPlace c) (called : q.call c = some q') : q'.Sorted := by
  cases c with
  | allocate => exact (counted.allocate called).2 sorted
  | markInService => exact (counted.markInService called).2 sorted
  | markPending => exact (counted.markPending called).2 sorted
  | delay => exact (delay_sorted_iff counted sorted called).mpr inPlace
  | deallocate => exact (counted.deallocate called).2 sorted
  | service mshr entry =>
    cases called
    obtain ⟨-, state, time⟩ := allowed
    refine sorted_congr sorted fun i mem => ?_
    by_cases own : i = mshr
    · subst own
      have idle := ((counted.ready i).mp mem).2
      rw [readyTime, setEntry_entries, update_self]
      exact time (state.trans idle)
    · exact readyTime_setEntry_of_ne own
  | tick =>
    cases called
    exact sorted

theorem Sorted.neverHides (sorted : q.Sorted) : q.NeverHides := by
  intro i mem due
  rw [getNext]
  rw [Sorted] at sorted
  cases list : q.readyList with
  | nil =>
    rw [list] at mem
    cases mem
  | cons front rest =>
    have first : q.readyTime front ≤ q.readyTime i := by aesop
    dsimp only
    rw [if_neg (by omega)]
    rfl

theorem new_counted (numEntries : Nat) : (new numEntries).Counted :=
  ⟨.refl _, .nil, fun i => by simp [new], rfl, rfl, fun _ _ => rfl⟩

/-- While every delayed entry stays in its place the ready list hides no ready entry. -/
theorem run_never_hides {numEntries : Nat}
    (run : Leads call (fun q c => Allowed q c ∧ InPlace q c) (new numEntries) q) :
    q.Counted ∧ q.Sorted ∧ q.NeverHides := by
  have kept : q.Counted ∧ q.Sorted := by
    refine run.invariant (P := fun q => q.Counted ∧ q.Sorted)
      ⟨new_counted numEntries, List.Pairwise.nil⟩ fun _ _ _ kept guard called => ?_
    exact ⟨kept.1.call guard.1 called, kept.2.call kept.1 guard.1 guard.2 called⟩
  exact ⟨kept.1, kept.2, kept.2.neverHides⟩

/-- The second of two entries is delayed. -/
theorem run_never_hides_back :
    ∃ q, feed call (fun q c => Allowed q c ∧ InPlace q c) (new 2)
        [.allocate 0, .allocate 0, .delay 1 10] = some q ∧
      q.getNext = some 0 ∧ q.Counted ∧ q.Sorted ∧ q.NeverHides := by
  have fed : feed call (fun q c => Allowed q c ∧ InPlace q c) (new 2)
      [.allocate 0, .allocate 0, .delay 1 10] = some _ := rfl
  exact ⟨_, fed, rfl, run_never_hides (leads_feed fed)⟩

/-- The first of two ready entries is delayed and stays in front, where it hides the second. -/
theorem delayed_hides :
    ¬∀ (numEntries : Nat) (q : MshrQueue), Leads call Allowed (new numEntries) q →
      q.Counted ∧ q.Sorted ∧ q.NeverHides := by
  intro never
  have fed : feed call Allowed (new 2) [.allocate 0, .allocate 0, .delay 0 10] = some _ := rfl
  have found := (never 2 _ (leads_feed fed)).2.2 1 (by decide) (by decide)
  exact absurd found (by decide)

end MshrQueue

end Gem5.Cache
