import Gem5.Lib.Runs
import Gem5.Lib.Tables
import Mathlib.Algebra.BigOperators.Ring.Finset

/-!
# The reorder buffer of several threads

Every thread has a limit in `maxEntries` and tells rename how far it is from it. The limits are
kept apart from the size of the buffer: what they add up to decides whether the credits can be
honoured.
-/

namespace Gem5.O3

open Runs Finset Function BitVec

inductive SMTQueuePolicy where
  | dynamic
  | partitioned
  | threshold
  deriving DecidableEq

structure RobParams where
  smtROBPolicy : SMTQueuePolicy
  numROBEntries : BitVec 32
  smtROBThreshold : BitVec 32
  numThreads : Nat

structure DynInst where
  seqNum : Nat
  threadNumber : Nat
  deriving DecidableEq

/-- `head` is the instruction that the iterator points to. -/
structure Rob where
  maxEntries : Nat → BitVec 32
  threadEntries : Nat → BitVec 32
  instList : Nat → List DynInst
  numInstsInROB : BitVec 32
  activeThreads : List Nat
  head : Option DynInst

variable {inst : DynInst} {readyToCommit : DynInst → Bool}

namespace Rob

variable {prm : RobParams} {rob rob' : Rob}

/-- The limits that the constructor sets. -/
def initialLimit (prm : RobParams) : BitVec 32 :=
  match prm.smtROBPolicy with
  | .dynamic => prm.numROBEntries
  | .partitioned => BitVec.ofNat 32 (prm.numROBEntries.toNat / prm.numThreads)
  | .threshold => prm.smtROBThreshold

def new (prm : RobParams) : Rob where
  maxEntries tid := if tid < prm.numThreads then initialLimit prm else 0
  threadEntries _ := 0
  instList _ := []
  numInstsInROB := 0
  activeThreads := []
  head := none

def resetEntries (prm : RobParams) (rob : Rob) : Rob :=
  if prm.smtROBPolicy ≠ .dynamic ∨ 1 < prm.numThreads then
    { rob with
      maxEntries := rob.activeThreads.foldl (fun maxEntries tid =>
        match prm.smtROBPolicy with
        | .partitioned => Function.update maxEntries tid
            (BitVec.ofNat 32 (prm.numROBEntries.toNat / rob.activeThreads.length))
        | .threshold =>
          if rob.activeThreads.length = 1 then Function.update maxEntries tid prm.numROBEntries
          else maxEntries
        | .dynamic => maxEntries) rob.maxEntries }
  else rob

/-- `numFreeEntries(tid)`, an unsigned subtraction. -/
def numFreeEntries (rob : Rob) (tid : Nat) : BitVec 32 :=
  rob.maxEntries tid - rob.threadEntries tid

/-- Fails where an assert of the source does. -/
def insertInst (prm : RobParams) (rob : Rob) (inst : DynInst) : Option Rob :=
  let insts := rob.instList inst.threadNumber ++ [inst]
  let head := if rob.numInstsInROB = 0 then insts.head? else rob.head
  if rob.numInstsInROB = prm.numROBEntries then none
  else if rob.numInstsInROB = 0 ∧ head ≠ some inst then none
  else some { rob with
    instList := Function.update rob.instList inst.threadNumber insts
    head := head
    numInstsInROB := rob.numInstsInROB + 1
    threadEntries := Function.update rob.threadEntries inst.threadNumber
      (rob.threadEntries inst.threadNumber + 1) }

/-- The oldest head of the active threads. -/
def updateHead (rob : Rob) : Rob :=
  { rob with
    head := rob.activeThreads.foldl (fun head tid =>
      match rob.instList tid, head with
      | [], head => head
      | inst :: _, none => some inst
      | inst :: _, some lowest => if inst.seqNum < lowest.seqNum then some inst else some lowest)
      none }

def retireHead (readyToCommit : DynInst → Bool) (rob : Rob) (tid : Nat) : Option Rob :=
  if rob.numInstsInROB.toInt ≤ 0 then none
  else
    match rob.instList tid with
    | [] => none
    | inst :: insts =>
      if readyToCommit inst then
        some (updateHead { rob with
          instList := Function.update rob.instList tid insts
          numInstsInROB := rob.numInstsInROB - 1
          threadEntries := Function.update rob.threadEntries tid (rob.threadEntries tid - 1) })
      else none

/-- What the other stages do with the buffer. -/
inductive Call where
  | insertInst (inst : DynInst)
  | retireHead (readyToCommit : DynInst → Bool) (tid : Nat)
  | resetEntries (activeThreads : List Nat)

def call (prm : RobParams) (rob : Rob) : Call → Option Rob
  | .insertInst inst => rob.insertInst prm inst
  | .retireHead readyToCommit tid => rob.retireHead readyToCommit tid
  | .resetEntries activeThreads =>
    some (resetEntries prm { rob with activeThreads := activeThreads })

/-- Rename sends an instruction of a thread only when that thread has an entry left. -/
def Allowed (prm : RobParams) (rob : Rob) : Call → Prop
  | .insertInst inst => inst.threadNumber < prm.numThreads ∧ 1 ≤ rob.numFreeEntries inst.threadNumber
  | .retireHead _ tid => tid < prm.numThreads
  | .resetEntries activeThreads => ∀ tid ∈ activeThreads, tid < prm.numThreads

/-- The counters describe the lists. -/
structure Counted (prm : RobParams) (rob : Rob) : Prop where
  total : rob.numInstsInROB.toNat ≤ prm.numROBEntries.toNat
  sum : rob.numInstsInROB.toNat = ∑ tid ∈ range prm.numThreads, (rob.threadEntries tid).toNat
  length : ∀ tid, (rob.threadEntries tid).toNat = (rob.instList tid).length

/-- No thread is promised more entries than there are. -/
structure Sound (prm : RobParams) (rob : Rob) : Prop extends Counted prm rob where
  below : ∀ tid, tid < prm.numThreads → (rob.threadEntries tid).toNat ≤ (rob.maxEntries tid).toNat
  credits : ∀ tid, tid < prm.numThreads →
    (rob.numFreeEntries tid).toNat ≤ prm.numROBEntries.toNat - rob.numInstsInROB.toNat

/-- The limits share the buffer out, and no thread is beyond its own. -/
structure Apportioned (prm : RobParams) (rob : Rob) : Prop where
  fits : ∑ tid ∈ range prm.numThreads, (rob.maxEntries tid).toNat ≤ prm.numROBEntries.toNat
  below : ∀ tid, tid < prm.numThreads → (rob.threadEntries tid).toNat ≤ (rob.maxEntries tid).toNat

theorem numFreeEntries_toNat {tid : Nat}
    (below : (rob.threadEntries tid).toNat ≤ (rob.maxEntries tid).toNat) :
    (rob.numFreeEntries tid).toNat = (rob.maxEntries tid).toNat - (rob.threadEntries tid).toNat :=
  toNat_sub_of_le below

theorem Apportioned.sound (counted : Counted prm rob) (shares : Apportioned prm rob) :
    Sound prm rob := by
  refine ⟨counted, shares.below, fun tid known => ?_⟩
  rw [numFreeEntries_toNat (shares.below tid known)]
  have mem : tid ∈ range prm.numThreads := mem_range.mpr known
  have limits := add_sum_erase (range prm.numThreads) (fun t => (rob.maxEntries t).toNat) mem
  have entries := add_sum_erase (range prm.numThreads) (fun t => (rob.threadEntries t).toNat) mem
  have others : ∑ t ∈ (range prm.numThreads).erase tid, (rob.threadEntries t).toNat
      ≤ ∑ t ∈ (range prm.numThreads).erase tid, (rob.maxEntries t).toNat :=
    sum_le_sum fun t ht => shares.below t (mem_range.mp (mem_of_mem_erase ht))
  have fits := shares.fits
  have sum := counted.sum
  omega

theorem Counted.entries_le {tid : Nat} (counted : Counted prm rob) (known : tid < prm.numThreads) :
    (rob.threadEntries tid).toNat ≤ rob.numInstsInROB.toNat := by
  rw [counted.sum]
  exact single_le_sum (f := fun t => (rob.threadEntries t).toNat) (fun _ _ => Nat.zero_le _)
    (mem_range.mpr known)

theorem insertInst_eq (inserted : rob.insertInst prm inst = some rob') :
    rob.numInstsInROB ≠ prm.numROBEntries ∧ rob'.maxEntries = rob.maxEntries ∧
      rob'.numInstsInROB = rob.numInstsInROB + 1 ∧
      rob'.threadEntries = Function.update rob.threadEntries inst.threadNumber
        (rob.threadEntries inst.threadNumber + 1) ∧
      rob'.instList = Function.update rob.instList inst.threadNumber
        (rob.instList inst.threadNumber ++ [inst]) := by
  rw [insertInst] at inserted
  by_cases full : rob.numInstsInROB = prm.numROBEntries
  · rw [if_pos full] at inserted
    cases inserted
  rw [if_neg full] at inserted
  by_cases first : rob.numInstsInROB = 0 ∧ (if rob.numInstsInROB = 0 then
      (rob.instList inst.threadNumber ++ [inst]).head? else rob.head) ≠ some inst
  · rw [if_pos first] at inserted
    cases inserted
  · grind

theorem retireHead_eq {tid : Nat} (retired : rob.retireHead readyToCommit tid = some rob') :
    ∃ inst insts, rob.instList tid = inst :: insts ∧ rob'.maxEntries = rob.maxEntries ∧
      rob'.numInstsInROB = rob.numInstsInROB - 1 ∧
      rob'.threadEntries = Function.update rob.threadEntries tid (rob.threadEntries tid - 1) ∧
      rob'.instList = Function.update rob.instList tid insts := by
  rw [retireHead] at retired
  by_cases empty : rob.numInstsInROB.toInt ≤ 0
  · rw [if_pos empty] at retired
    cases retired
  rw [if_neg empty] at retired
  cases list : rob.instList tid with
  | nil =>
    rw [list] at retired
    cases retired
  | cons inst insts => aesop

theorem Counted.insertInst (counted : Counted prm rob) (known : inst.threadNumber < prm.numThreads)
    (inserted : rob.insertInst prm inst = some rob') :
    Counted prm rob' ∧ (rob'.threadEntries inst.threadNumber).toNat
      = (rob.threadEntries inst.threadNumber).toNat + 1 := by
  obtain ⟨room, -, count, entries, lists⟩ := insertInst_eq inserted
  have total := counted.total
  have least := counted.entries_le known
  have less : rob.numInstsInROB.toNat ≠ prm.numROBEntries.toNat :=
    fun same => room (eq_of_toNat_eq same)
  have up : (rob.numInstsInROB + 1).toNat = rob.numInstsInROB.toNat + 1 :=
    toNat_add_of_lt (by simp; omega)
  have upTid : (rob.threadEntries inst.threadNumber + 1).toNat
      = (rob.threadEntries inst.threadNumber).toNat + 1 :=
    toNat_add_of_lt (by simp; omega)
  refine ⟨⟨?_, ?_, fun tid => ?_⟩, ?_⟩
  · rw [count, up]
    omega
  · have sum := Sums.measure_update known rob.threadEntries
      (rob.threadEntries inst.threadNumber + 1) BitVec.toNat
    have old := counted.sum
    rw [count, up, entries]
    omega
  · have length := counted.length tid
    rw [entries, lists]
    by_cases own : tid = inst.threadNumber
    · grind
    · rw [update_of_ne own, update_of_ne own, length]
  · rw [entries, update_self, upTid]

theorem Counted.retireHead {tid : Nat} (counted : Counted prm rob)
    (known : tid < prm.numThreads) (retired : rob.retireHead readyToCommit tid = some rob') :
    Counted prm rob' ∧ ∀ t, (rob'.threadEntries t).toNat ≤ (rob.threadEntries t).toNat := by
  obtain ⟨inst, insts, list, -, count, entries, lists⟩ := retireHead_eq retired
  have total := counted.total
  have least := counted.entries_le known
  have length := counted.length tid
  rw [list, List.length_cons] at length
  have down : (rob.numInstsInROB - 1).toNat = rob.numInstsInROB.toNat - 1 :=
    toNat_sub_of_le (by rw [le_def]; simp; omega)
  have downTid : (rob.threadEntries tid - 1).toNat = (rob.threadEntries tid).toNat - 1 :=
    toNat_sub_of_le (by rw [le_def]; simp; omega)
  refine ⟨⟨?_, ?_, fun t => ?_⟩, fun t => ?_⟩
  · rw [count, down]
    omega
  · have sum := Sums.measure_update known rob.threadEntries (rob.threadEntries tid - 1) BitVec.toNat
    have old := counted.sum
    rw [count, down, entries]
    omega
  · rw [entries, lists]
    by_cases own : t = tid
    · grind
    · rw [update_of_ne own, update_of_ne own, counted.length]
  · rw [entries]
    by_cases own : t = tid
    · grind
    · rw [update_of_ne own]

theorem Sound.insertInst_isSome (sound : Sound prm rob) (inst : DynInst)
    (known : inst.threadNumber < prm.numThreads)
    (promised : 1 ≤ rob.numFreeEntries inst.threadNumber) : (rob.insertInst prm inst).isSome := by
  have credits := sound.credits inst.threadNumber known
  have one : 1 ≤ (rob.numFreeEntries inst.threadNumber).toNat := by
    simpa [le_def] using promised
  have room : rob.numInstsInROB ≠ prm.numROBEntries := by grind
  have first : ¬(rob.numInstsInROB = 0 ∧ (if rob.numInstsInROB = 0 then
      (rob.instList inst.threadNumber ++ [inst]).head? else rob.head) ≠ some inst) := by
    rintro ⟨zero, other⟩
    have none := sound.entries_le known
    rw [zero, sound.length inst.threadNumber] at none
    have empty : rob.instList inst.threadNumber = [] :=
      List.length_eq_zero_iff.mp (Nat.le_zero.mp none)
    rw [if_pos zero, empty] at other
    exact other rfl
  rw [insertInst, if_neg room, if_neg first]
  rfl

/-- The limit of a thread for a list of active threads. -/
def entryLimit (prm : RobParams) (rob : Rob) (activeThreads : List Nat) (tid : Nat) : BitVec 32 :=
  if tid ∈ activeThreads then
    match prm.smtROBPolicy with
    | .partitioned => BitVec.ofNat 32 (prm.numROBEntries.toNat / activeThreads.length)
    | .threshold => if activeThreads.length = 1 then prm.numROBEntries else rob.maxEntries tid
    | .dynamic => rob.maxEntries tid
  else rob.maxEntries tid

theorem foldl_update (value : BitVec 32) (tids : List Nat) (f : Nat → BitVec 32) (tid : Nat) :
    tids.foldl (fun f t => Function.update f t value) f tid = if tid ∈ tids then value else f tid := by
  induction tids generalizing f with
  | nil => rfl
  | cons t tids ih => aesop

theorem foldl_same {β : Type} (tids : List Nat) (b : β) : tids.foldl (fun b _ => b) b = b := by
  induction tids with
  | nil => rfl
  | cons _ tids ih => exact ih

theorem resetEntries_maxEntries (prm : RobParams) (rob : Rob) (activeThreads : List Nat) (tid : Nat) :
    (resetEntries prm { rob with activeThreads := activeThreads }).maxEntries tid
      = entryLimit prm rob activeThreads tid := by
  rw [resetEntries, entryLimit]
  cases policy : prm.smtROBPolicy with
  | dynamic => simp
  | partitioned =>
    exact foldl_update _ _ _ _
  | threshold =>
    by_cases alone : activeThreads.length = 1
    · simp only [if_pos alone]
      exact foldl_update _ _ _ _
    · simp_all

theorem resetEntries_kept (prm : RobParams) (rob : Rob) (activeThreads : List Nat) :
    (resetEntries prm { rob with activeThreads := activeThreads }).threadEntries = rob.threadEntries ∧
    (resetEntries prm { rob with activeThreads := activeThreads }).instList = rob.instList ∧
    (resetEntries prm { rob with activeThreads := activeThreads }).numInstsInROB
      = rob.numInstsInROB := by
  rw [resetEntries]
  split <;> exact ⟨rfl, rfl, rfl⟩

theorem Counted.resetEntries (counted : Counted prm rob) (activeThreads : List Nat) :
    Counted prm (resetEntries prm { rob with activeThreads := activeThreads }) := by
  obtain ⟨entries, lists, count⟩ := resetEntries_kept prm rob activeThreads
  refine ⟨?_, ?_, fun tid => ?_⟩
  · rw [count]
    exact counted.total
  · rw [count, entries]
    exact counted.sum
  · rw [entries, lists]
    exact counted.length tid

/-- The first limits share the buffer out. -/
def Divides (prm : RobParams) : Prop :=
  match prm.smtROBPolicy with
  | .dynamic => prm.numThreads * prm.numROBEntries.toNat ≤ prm.numROBEntries.toNat
  | .partitioned => True
  | .threshold => prm.numThreads * prm.smtROBThreshold.toNat ≤ prm.numROBEntries.toNat

/-- The limits for a new list of active threads share the buffer out, and are not below what the
active threads hold. -/
def Fits (prm : RobParams) (rob : Rob) : Call → Prop
  | .resetEntries activeThreads =>
    ∑ tid ∈ range prm.numThreads, (entryLimit prm rob activeThreads tid).toNat
        ≤ prm.numROBEntries.toNat ∧
      ∀ tid ∈ activeThreads,
        (rob.threadEntries tid).toNat ≤ (entryLimit prm rob activeThreads tid).toNat
  | _ => True

theorem new_sum (prm : RobParams) :
    ∑ tid ∈ range prm.numThreads, ((new prm).maxEntries tid).toNat
      = prm.numThreads * (initialLimit prm).toNat := by
  refine (sum_const_nat (m := (initialLimit prm).toNat) fun tid known => ?_).trans
    (congrArg (· * _) (card_range _))
  exact congrArg BitVec.toNat (if_pos (mem_range.mp known))

theorem new_counted (prm : RobParams) : Counted prm (new prm) := by
  refine ⟨Nat.zero_le _, ?_, fun _ => rfl⟩
  simp [new]

theorem new_apportioned (prm : RobParams) : Apportioned prm (new prm) ↔ Divides prm := by
  have shares : Apportioned prm (new prm)
      ↔ prm.numThreads * (initialLimit prm).toNat ≤ prm.numROBEntries.toNat := by
    rw [← new_sum]
    exact ⟨fun shares => shares.fits, fun fits => ⟨fits, fun _ _ => Nat.zero_le _⟩⟩
  rw [shares, initialLimit, Divides]
  cases prm.smtROBPolicy with
  | dynamic | threshold => exact Iff.rfl
  | partitioned =>
    refine iff_of_true ?_ trivial
    calc prm.numThreads * (BitVec.ofNat 32 (prm.numROBEntries.toNat / prm.numThreads)).toNat
        ≤ prm.numThreads * (prm.numROBEntries.toNat / prm.numThreads) :=
          Nat.mul_le_mul_left _ (by rw [toNat_ofNat]; exact Nat.mod_le _ _)
      _ ≤ prm.numROBEntries.toNat := Nat.mul_div_le _ _

theorem Apportioned.insertInst (counted : Counted prm rob)
    (shares : Apportioned prm rob) (known : inst.threadNumber < prm.numThreads)
    (promised : 1 ≤ rob.numFreeEntries inst.threadNumber)
    (inserted : rob.insertInst prm inst = some rob') : Apportioned prm rob' := by
  obtain ⟨-, limits, -, entries, -⟩ := insertInst_eq inserted
  have one := (counted.insertInst known inserted).2
  refine ⟨by rw [limits]; exact shares.fits, fun tid below => ?_⟩
  rw [limits]
  by_cases own : tid = inst.threadNumber
  · subst own
    have free := numFreeEntries_toNat (shares.below _ below)
    have some_ : 1 ≤ (rob.numFreeEntries inst.threadNumber).toNat := by
      simpa [le_def] using promised
    omega
  · rw [entries, update_of_ne own]
    exact shares.below tid below

theorem Apportioned.retireHead {tid : Nat}
    (counted : Counted prm rob) (shares : Apportioned prm rob) (known : tid < prm.numThreads)
    (retired : rob.retireHead readyToCommit tid = some rob') : Apportioned prm rob' := by
  obtain ⟨-, -, -, limits, -⟩ := retireHead_eq retired
  have fewer := (counted.retireHead known retired).2
  refine ⟨by rw [limits]; exact shares.fits, fun t below => ?_⟩
  rw [limits]
  exact Nat.le_trans (fewer t) (shares.below t below)

theorem Apportioned.resetEntries_iff (activeThreads : List Nat)
    (known : ∀ tid ∈ activeThreads, tid < prm.numThreads)
    (below : ∀ tid, tid < prm.numThreads →
      (rob.threadEntries tid).toNat ≤ (rob.maxEntries tid).toNat) :
    Apportioned prm (resetEntries prm { rob with activeThreads := activeThreads })
      ↔ Fits prm rob (.resetEntries activeThreads) := by
  have entries := (resetEntries_kept prm rob activeThreads).1
  have limits := resetEntries_maxEntries prm rob activeThreads
  constructor
  · rintro ⟨fits, held⟩
    refine ⟨?_, fun tid active => ?_⟩
    · simpa only [limits] using fits
    · grind
  · rintro ⟨fits, held⟩
    refine ⟨by simpa only [limits] using fits, fun tid below' => ?_⟩
    rw [entries, limits]
    by_cases active : tid ∈ activeThreads
    · exact held tid active
    · grind [entryLimit]

theorem call_keeps {c : Call} (kept : Counted prm rob ∧ Apportioned prm rob)
    (allowed : Allowed prm rob c) (fits : Fits prm rob c) (called : rob.call prm c = some rob') :
    Counted prm rob' ∧ Apportioned prm rob' := by
  obtain ⟨counted, shares⟩ := kept
  cases c with
  | insertInst =>
    exact ⟨(counted.insertInst allowed.1 called).1,
      shares.insertInst counted allowed.1 allowed.2 called⟩
  | retireHead =>
    exact ⟨(counted.retireHead allowed called).1, shares.retireHead counted allowed called⟩
  | resetEntries activeThreads =>
    cases called
    exact ⟨counted.resetEntries activeThreads,
      (Apportioned.resetEntries_iff activeThreads allowed shares.below).mpr fits⟩

/-- While the limits share the buffer out, every promise of an entry is kept. -/
theorem run_sound (divides : Divides prm)
    (run : Leads (call prm) (fun rob c => Allowed prm rob c ∧ Fits prm rob c) (new prm) rob) :
    Sound prm rob ∧ ∀ inst, inst.threadNumber < prm.numThreads →
      1 ≤ rob.numFreeEntries inst.threadNumber → (rob.insertInst prm inst).isSome := by
  have kept : Counted prm rob ∧ Apportioned prm rob :=
    run.invariant ⟨new_counted prm, (new_apportioned prm).mpr divides⟩
      fun _ _ _ kept guard called => call_keeps kept guard.1 guard.2 called
  have sound := kept.2.sound kept.1
  exact ⟨sound, fun inst known promised => sound.insertInst_isSome inst known promised⟩

/-- A buffer of four entries, half of it for each of two threads. -/
def halves : RobParams := ⟨.partitioned, 4, 0, 2⟩

def halvesInserted : Rob := ((new halves).insertInst halves ⟨0, 1⟩).getD (new halves)

def halvesReset : Rob := resetEntries halves { halvesInserted with activeThreads := [0, 1] }

theorem run_sound_halves :
    Sound halves halvesReset ∧ (halvesReset.threadEntries 1).toNat = 1 ∧
      (halvesReset.insertInst halves ⟨1, 1⟩).isSome := by
  have one : Leads (call halves) (fun rob c => Allowed halves rob c ∧ Fits halves rob c)
      (new halves) halvesInserted :=
    .tail (.insertInst ⟨0, 1⟩) .refl ⟨⟨by decide, by decide⟩, trivial⟩ rfl
  have allowed : Allowed halves halvesInserted (.resetEntries [0, 1]) := by
    intro tid mem
    simp only [List.mem_cons, List.not_mem_nil, or_false] at mem
    rcases mem with rfl | rfl <;> decide
  have fits : Fits halves halvesInserted (.resetEntries [0, 1]) := by
    refine ⟨by decide, fun tid mem => ?_⟩
    simp only [List.mem_cons, List.not_mem_nil, or_false] at mem
    rcases mem with rfl | rfl <;> decide
  have sound := run_sound (show Divides halves from trivial)
    (one.tail (u := halvesReset) (.resetEntries [0, 1]) ⟨allowed, fits⟩ rfl)
  exact ⟨sound.1, by decide, sound.2 ⟨1, 1⟩ (by decide) (by decide)⟩

/-- One entry for two threads, with limits that reach over the whole buffer. -/
def shared : RobParams := ⟨.dynamic, 1, 0, 2⟩

def sharedInserted : Rob := ((new shared).insertInst shared ⟨0, 0⟩).getD (new shared)

/-- One thread takes what the other is promised. -/
theorem dynamic_overcommits :
    ¬∀ (prm : RobParams) (rob : Rob), Leads (call prm) (Allowed prm) (new prm) rob →
      Sound prm rob := by
  intro sound
  have run : Leads (call shared) (Allowed shared) (new shared) sharedInserted :=
    .tail (.insertInst ⟨0, 0⟩) .refl ⟨by decide, by decide⟩ rfl
  exact absurd ((sound shared sharedInserted run).credits 1 (by decide)) (by decide)

/-- Instructions that rename sends, and nothing else. -/
def Inserts (prm : RobParams) (rob : Rob) (c : Call) : Prop :=
  Allowed prm rob c ∧ ∃ inst, c = .insertInst inst

theorem exists_insert (sound : Sound prm rob) (less : ∑ tid ∈ range prm.numThreads,
    (rob.threadEntries tid).toNat < ∑ tid ∈ range prm.numThreads, (rob.maxEntries tid).toNat) :
    ∃ c rob', Inserts prm rob c ∧ rob.call prm c = some rob' ∧ rob'.maxEntries = rob.maxEntries ∧
      rob'.numInstsInROB.toNat = rob.numInstsInROB.toNat + 1 := by
  obtain ⟨tid, mem, short⟩ := exists_lt_of_sum_lt less
  have known := mem_range.mp mem
  have free := numFreeEntries_toNat (Nat.le_of_lt short)
  have promised : 1 ≤ rob.numFreeEntries tid := by
    rw [le_def, free]
    exact Nat.sub_pos_of_lt short
  obtain ⟨rob', inserted⟩ :=
    Option.isSome_iff_exists.mp (sound.insertInst_isSome (DynInst.mk 0 tid) known promised)
  obtain ⟨room, limits, count, -, -⟩ := insertInst_eq inserted
  have insert : Inserts prm rob (.insertInst (DynInst.mk 0 tid)) := ⟨⟨known, promised⟩, _, rfl⟩
  refine ⟨.insertInst (DynInst.mk 0 tid), rob', insert, inserted, limits, ?_⟩
  have total := sound.total
  have other : rob.numInstsInROB.toNat ≠ prm.numROBEntries.toNat :=
    fun same => room (eq_of_toNat_eq same)
  rw [count]
  exact toNat_add_of_lt (by simp; omega)

theorem limits_le (rest : Nat) (rob : Rob) (left : ∑ tid ∈ range prm.numThreads, (rob.maxEntries
    tid).toNat ≤ rob.numInstsInROB.toNat + rest)
    (sound : ∀ rob', Leads (call prm) (Inserts prm) rob rob' → Sound prm rob') :
    ∑ tid ∈ range prm.numThreads, (rob.maxEntries tid).toNat ≤ prm.numROBEntries.toNat := by
  induction rest generalizing rob with
  | zero => exact Nat.le_trans left (sound rob .refl).total
  | succ rest ih =>
    have here := sound rob .refl
    by_cases less : ∑ tid ∈ range prm.numThreads, (rob.threadEntries tid).toNat
        < ∑ tid ∈ range prm.numThreads, (rob.maxEntries tid).toNat
    · obtain ⟨c, rob', insert, called, limits, count⟩ := exists_insert here less
      have later : ∀ r, Leads (call prm) (Inserts prm) rob' r → Sound prm r := by
        intro r run
        refine sound r ?_
        exact run.after c insert called
      have more := ih rob' (by rw [limits, count]; omega) later
      rwa [limits] at more
    · grind [here.sum]

theorem inserts_sound_iff (counted : Counted prm rob) :
    (∀ rob', Leads (call prm) (Inserts prm) rob rob' → Sound prm rob') ↔ Apportioned prm rob := by
  constructor
  · intro sound
    have fits := limits_le _ _ (Nat.le_add_left _ _) sound
    exact ⟨fits, (sound rob .refl).below⟩
  · intro shares rob' run
    have kept : Counted prm rob' ∧ Apportioned prm rob' := by
      refine run.invariant (P := fun r => Counted prm r ∧ Apportioned prm r) ⟨counted, shares⟩
        fun r c r' kept guard called => ?_
      obtain ⟨allowed, inst, rfl⟩ := guard
      exact call_keeps kept allowed trivial called
    exact kept.2.sound kept.1

theorem new_sound_iff (prm : RobParams) :
    (∀ rob, Leads (call prm) (Inserts prm) (new prm) rob → Sound prm rob) ↔ Divides prm := by
  rw [inserts_sound_iff (new_counted prm), new_apportioned]

theorem resetEntries_sound_iff (sound : Sound prm rob) {activeThreads : List Nat}
    (known : ∀ tid ∈ activeThreads, tid < prm.numThreads) :
    (∀ rob', Leads (call prm) (Inserts prm)
        (resetEntries prm { rob with activeThreads := activeThreads }) rob' → Sound prm rob')
      ↔ Fits prm rob (.resetEntries activeThreads) := by
  rw [inserts_sound_iff (sound.toCounted.resetEntries activeThreads),
    Apportioned.resetEntries_iff activeThreads known sound.below]

/-- Two threads that share eight entries. -/
def twoThreads : RobParams := ⟨.partitioned, 8, 0, 2⟩

theorem resetEntries_sound_iff_twoThreads :
    (∀ rob', Leads (call twoThreads) (Inserts twoThreads)
        (resetEntries twoThreads { new twoThreads with activeThreads := [0] }) rob' →
          Sound twoThreads rob')
      ↔ Fits twoThreads (new twoThreads) (.resetEntries [0]) :=
  resetEntries_sound_iff (Apportioned.sound (new_counted _) ⟨by decide, by decide⟩) (by decide)

end Rob

end Gem5.O3
