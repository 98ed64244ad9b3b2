import Gem5.Lib.Bits
import Gem5.Pred.Driver
import Mathlib.Data.Nat.Log

/-!
# The tournament predictor

Two tables of counters are read at a global and at a local history, and a third table chooses
between their predictions. Both histories are updated when a branch is predicted.
-/

namespace Gem5.Pred

structure TournamentParams where
  localPredictorSize : Nat
  localCtrBits : Nat
  localHistoryTableSize : Nat
  globalPredictorSize : Nat
  globalCtrBits : Nat
  choicePredictorSize : Nat
  choiceCtrBits : Nat
  instShiftAmt : Nat

/-- A table of counters of some bits. -/
abbrev SatCounters := Nat → Nat

namespace SatCounters

def incr (ctrBits : Nat) (ctrs : SatCounters) (i : Nat) : SatCounters :=
  Function.update ctrs i (if ctrs i < 2 ^ ctrBits - 1 then ctrs i + 1 else ctrs i)

def decr (ctrs : SatCounters) (i : Nat) : SatCounters :=
  Function.update ctrs i (if 0 < ctrs i then ctrs i - 1 else ctrs i)

end SatCounters

/-- The state for one thread. -/
structure TournamentBP where
  globalHistory : BitVec 32
  localHistoryTable : Nat → BitVec 32
  localCtrs : SatCounters
  globalCtrs : SatCounters
  choiceCtrs : SatCounters

structure BPHistory where
  globalHistory : BitVec 32
  localHistoryIdx : BitVec 32
  localHistory : BitVec 32
  localPredTaken : Bool
  globalPredTaken : Bool
  globalUsed : Bool
  deriving DecidableEq, Repr

namespace TournamentParams

variable (prm : TournamentParams)

/-- What the constructor checks of the table of local histories, whose size is an `unsigned`. -/
structure Accepted : Prop where
  power : ∃ k, prm.localHistoryTableSize = 2 ^ k
  unsigned : prm.localHistoryTableSize < 2 ^ 32

def localPredictorMask : BitVec 32 := mask 32 (Nat.clog 2 prm.localPredictorSize)

def globalHistoryBits : Nat :=
  max (Nat.clog 2 prm.globalPredictorSize) (Nat.clog 2 prm.choicePredictorSize)

def globalHistoryMask : BitVec 32 := BitVec.ofNat 32 prm.globalPredictorSize - 1

def choiceHistoryMask : BitVec 32 := BitVec.ofNat 32 prm.choicePredictorSize - 1

def historyRegisterMask : BitVec 32 := mask 32 prm.globalHistoryBits

def localThreshold : Nat := 2 ^ (prm.localCtrBits - 1) - 1

def globalThreshold : Nat := 2 ^ (prm.globalCtrBits - 1) - 1

def choiceThreshold : Nat := 2 ^ (prm.choiceCtrBits - 1) - 1

end TournamentParams

namespace TournamentBP

def invalidPredictorIndex : BitVec 32 := BitVec.allOnes 32

variable (prm : TournamentParams) (t : TournamentBP)

def calcLocHistIdx (branchAddr : Addr) : BitVec 32 :=
  ((branchAddr >>> prm.instShiftAmt) &&& BitVec.ofNat 64 (prm.localHistoryTableSize - 1)).setWidth 32

/-- `updateGlobalHistTaken` and `updateGlobalHistNotTaken` -/
def updateGlobalHist (taken : Bool) : TournamentBP :=
  { t with
    globalHistory :=
      ((t.globalHistory <<< 1) ||| (BitVec.ofBool taken).setWidth 32) &&& prm.historyRegisterMask }

/-- `updateLocalHistTaken` and `updateLocalHistNotTaken` -/
def updateLocalHist (localHistoryIdx : BitVec 32) (taken : Bool) : TournamentBP :=
  { t with
    localHistoryTable := Function.update t.localHistoryTable localHistoryIdx.toNat
      ((t.localHistoryTable localHistoryIdx.toNat <<< 1) ||| (BitVec.ofBool taken).setWidth 32) }

def btbUpdate (branchAddr : Addr) : TournamentBP :=
  let localHistoryIdx := (calcLocHistIdx prm branchAddr).toNat
  { t with
    globalHistory := t.globalHistory &&& (prm.historyRegisterMask &&& ~~~1)
    localHistoryTable := Function.update t.localHistoryTable localHistoryIdx
      (t.localHistoryTable localHistoryIdx &&& (prm.localPredictorMask &&& ~~~1)) }

def lookup (branchAddr : Addr) : Bool × TournamentBP × BPHistory :=
  let localHistoryIdx := calcLocHistIdx prm branchAddr
  let localPredictorIdx := t.localHistoryTable localHistoryIdx.toNat &&& prm.localPredictorMask
  let localPrediction := prm.localThreshold < t.localCtrs localPredictorIdx.toNat
  let globalPrediction :=
    prm.globalThreshold < t.globalCtrs (t.globalHistory &&& prm.globalHistoryMask).toNat
  let choicePrediction :=
    prm.choiceThreshold < t.choiceCtrs (t.globalHistory &&& prm.choiceHistoryMask).toNat
  let history : BPHistory :=
    ⟨t.globalHistory, localHistoryIdx, localPredictorIdx, localPrediction, globalPrediction,
      choicePrediction⟩
  let taken := if choicePrediction then globalPrediction else localPrediction
  (taken, (t.updateGlobalHist prm taken).updateLocalHist localHistoryIdx taken, history)

def uncondBranch : TournamentBP × BPHistory :=
  (t.updateGlobalHist prm true,
    ⟨t.globalHistory, invalidPredictorIndex, invalidPredictorIndex, true, true, true⟩)

/-- The counters after a branch is resolved. -/
def train (taken : Bool) (history : BPHistory) : TournamentBP :=
  let oldLocalPredValid := history.localHistory != invalidPredictorIndex
  let oldLocalPredIndex := (history.localHistory &&& prm.localPredictorMask).toNat
  let choicePredictorIdx := (history.globalHistory &&& prm.choiceHistoryMask).toNat
  let choiceCtrs :=
    if history.localPredTaken != history.globalPredTaken && oldLocalPredValid then
      if history.localPredTaken == taken then t.choiceCtrs.decr choicePredictorIdx
      else if history.globalPredTaken == taken then
        t.choiceCtrs.incr prm.choiceCtrBits choicePredictorIdx
      else t.choiceCtrs
    else t.choiceCtrs
  let globalPredictorIdx := (history.globalHistory &&& prm.globalHistoryMask).toNat
  let change (ctrBits : Nat) (ctrs : SatCounters) (i : Nat) : SatCounters :=
    if taken then ctrs.incr ctrBits i else ctrs.decr i
  { t with
    choiceCtrs := choiceCtrs
    globalCtrs := change prm.globalCtrBits t.globalCtrs globalPredictorIdx
    localCtrs :=
      if oldLocalPredValid then change prm.localCtrBits t.localCtrs oldLocalPredIndex
      else t.localCtrs }

def update (branchAddr : Addr) (taken : Bool) (history : BPHistory) (squashed : Bool) :
    TournamentBP :=
  if squashed then
    let shifted (h : BitVec 32) := (h <<< 1) ||| (BitVec.ofBool taken).setWidth 32
    let localHistoryIdx := (calcLocHistIdx prm branchAddr).toNat
    { t with
      globalHistory := shifted history.globalHistory &&& prm.historyRegisterMask
      localHistoryTable :=
        if history.localHistory != invalidPredictorIndex then
          Function.update t.localHistoryTable localHistoryIdx (shifted history.localHistory)
        else t.localHistoryTable }
  else t.train prm taken history

def squash (history : BPHistory) : TournamentBP :=
  { t with
    globalHistory := history.globalHistory
    localHistoryTable :=
      if history.localHistoryIdx != invalidPredictorIndex then
        Function.update t.localHistoryTable history.localHistoryIdx.toNat history.localHistory
      else t.localHistoryTable }

def direction (PC : Type) : DirectionPredictor PC TournamentBP BPHistory where
  lookup := lookup prm
  uncondBranch := fun t _ => uncondBranch prm t
  btbUpdate := fun t branchAddr history => (btbUpdate prm t branchAddr, history)
  update := fun t _ branchAddr taken history squashed _ =>
    (update prm t branchAddr taken history squashed, history)
  squash := squash

end TournamentBP

end Gem5.Pred
