import Gem5.Pred.Driver

/-!
# The simple indirect predictor

A cache of targets is indexed by a hash of the branch, the directions of the branches before it
and the targets of the last indirect branches. The path of indirect branches grows when one is
predicted, loses its youngest entries in a squash and its oldest ones when branches are committed.
-/

namespace Gem5.Pred

open List

structure IndirectParams where
  hashGHR : Bool
  hashTargets : Bool
  numSets : Nat
  numWays : Nat
  tagBits : Nat
  pathLength : Nat
  instShift : Nat
  ghrNumBits : Nat

structure HistoryEntry where
  pcAddr : Addr
  targetAddr : Addr
  seqNum : InstSeqNum
  deriving DecidableEq, Repr

structure IPredEntry (PC : Type) where
  tag : Addr
  target : PC

/-- The state for one thread; the path begins with its oldest entry. -/
structure SimpleIndirect (PC : Type) where
  targetCache : Nat → List (IPredEntry PC)
  pathHist : List HistoryEntry
  headHistEntry : Nat
  ghr : BitVec 32

namespace SimpleIndirect

variable {PC : Type} (prm : IndirectParams) (t : SimpleIndirect PC)

def init (isa : Isa PC) : SimpleIndirect PC :=
  ⟨fun _ => List.replicate prm.numWays ⟨0, isa.ofAddr 0⟩, [], 0, 0⟩

def ghrMask : BitVec 32 := (1 <<< prm.ghrNumBits) - 1

/-- The loop of `getSetIndex` over the targets, the youngest one first. -/
def hashPath (hashShift : Nat) : Nat → List Addr → Addr → Addr
  | _, [], hash => hash
  | i, targetAddr :: path, hash =>
    if i < prm.pathLength then
      hashPath hashShift (i + 1) path (hash ^^^ (targetAddr >>> (prm.instShift + i * hashShift)))
    else hash

def getSetIndex (pathHist : List HistoryEntry) (brAddr : Addr) (ghr : BitVec 32) : Addr :=
  let hash := brAddr >>> prm.instShift
  let hash := if prm.hashGHR then hash ^^^ ghr.setWidth 64 else hash
  let hash :=
    if prm.hashTargets then
      let hashShift := Nat.log2 prm.numSets / prm.pathLength
      hashPath prm hashShift 0 (pathHist.reverse.map HistoryEntry.targetAddr) hash
    else hash
  hash &&& BitVec.ofNat 64 (prm.numSets - 1)

def getTag (brAddr : Addr) : Addr :=
  (brAddr >>> prm.instShift) &&& ((1#32 <<< prm.tagBits) - 1).signExtend 64

/-- Where a target is looked up and recorded: the set index and the tag. -/
structure Place where
  setIndex : Addr
  tag : Addr
  deriving DecidableEq, Repr

def place (pathHist : List HistoryEntry) (brAddr : Addr) (ghr : BitVec 32) : Place :=
  ⟨getSetIndex prm pathHist brAddr ghr, getTag prm brAddr⟩

def lookup (brAddr : Addr) : Option PC :=
  let at_ := place prm t.pathHist brAddr t.ghr
  ((t.targetCache at_.setIndex.toNat).find? fun way => way.tag == at_.tag).map IPredEntry.target

def recordIndirect (brAddr tgtAddr : Addr) (seqNum : InstSeqNum) : SimpleIndirect PC :=
  { t with pathHist := t.pathHist ++ [⟨brAddr, tgtAddr, seqNum⟩] }

def updateDirectionInfo (actuallyTaken : Bool) : SimpleIndirect PC :=
  { t with ghr := ((t.ghr <<< 1) ||| (BitVec.ofBool actuallyTaken).setWidth 32) &&& ghrMask prm }

def changeDirectionPrediction (previousGhr : BitVec 32) (actuallyTaken : Bool) :
    SimpleIndirect PC :=
  { t with
    ghr := ((previousGhr <<< 1) + (BitVec.ofBool actuallyTaken).setWidth 32) &&& ghrMask prm }

def commit (seqNum : InstSeqNum) : SimpleIndirect PC :=
  match t.pathHist[t.headHistEntry]? with
  | some h =>
    if h.seqNum ≤ seqNum then
      if prm.pathLength ≤ t.headHistEntry then { t with pathHist := t.pathHist.tail }
      else { t with headHistEntry := t.headHistEntry + 1 }
    else t
  | none => t

def squash (seqNum : InstSeqNum) : SimpleIndirect PC :=
  { t with pathHist := t.pathHist.takeWhile fun h => h.seqNum ≤ seqNum }

def deleteIndirectInfo (previousGhr : BitVec 32) : SimpleIndirect PC := { t with ghr := previousGhr }

/-- What `recordTarget` computes: the youngest entry, and the place without it on the path. -/
def recordPlace (ghr : BitVec 32) : Option (HistoryEntry × Place) :=
  t.pathHist.getLast?.map fun h => (h, place prm t.pathHist.dropLast h.pcAddr ghr)

/-- Replace the target of a tag in a set; `rand` chooses a way if there is none. -/
def setTarget (rand : Nat) (tag : Addr) (target : PC) (iset : List (IPredEntry PC)) :
    List (IPredEntry PC) :=
  match iset.findIdx? fun way => way.tag == tag with
  | some way => iset.modify way fun e => { e with target := target }
  | none => iset.modify (rand % prm.numWays) fun _ => ⟨tag, target⟩

/-- There is no youngest entry to read on an empty path; the model does nothing then. -/
def recordTarget (isa : Isa PC) (rand : Nat) (ghr : BitVec 32) (target : PC) : SimpleIndirect PC :=
  match recordPlace prm t ghr with
  | none => t
  | some (h, at_) =>
    { t with
      pathHist := t.pathHist.dropLast ++ [{ h with targetAddr := isa.instAddr target }]
      targetCache := Function.update t.targetCache at_.setIndex.toNat
        (setTarget prm rand at_.tag target (t.targetCache at_.setIndex.toNat)) }

def indirect (isa : Isa PC) : IndirectPredictor PC (SimpleIndirect PC) (BitVec 32) where
  genIndirectInfo := SimpleIndirect.ghr
  lookup := lookup prm
  recordIndirect := recordIndirect
  updateDirectionInfo := updateDirectionInfo prm
  commit := fun t seqNum _ => commit prm t seqNum
  squash := squash
  deleteIndirectInfo := deleteIndirectInfo
  changeDirectionPrediction := changeDirectionPrediction prm
  recordTarget := fun t rand _ ghr target => recordTarget prm t isa rand ghr target

theorem hashPath_append {hashShift i : Nat} {path older : List Addr} {hash : Addr}
    (enough : prm.pathLength ≤ i + path.length) :
    hashPath prm hashShift i (path ++ older) hash = hashPath prm hashShift i path hash := by
  induction path generalizing i hash with
  | nil =>
    have full : ¬i < prm.pathLength := Nat.not_lt.mpr enough
    cases older with
    | nil => rfl
    | cons => rw [nil_append, hashPath, hashPath, if_neg full]
  | cons a path ih => grind [hashPath]

theorem place_append {older pathHist : List HistoryEntry} {brAddr : Addr} {ghr : BitVec 32}
    (enough : prm.pathLength ≤ pathHist.length) :
    place prm (older ++ pathHist) brAddr ghr = place prm pathHist brAddr ghr := by
  have long : prm.pathLength
      ≤ 0 + (pathHist.reverse.map HistoryEntry.targetAddr).length := by
    rw [length_map, length_reverse, Nat.zero_add]
    exact enough
  rw [place, place, getSetIndex, getSetIndex, List.reverse_append, map_append]
  simp only [hashPath_append prm long]

end SimpleIndirect

end Gem5.Pred
