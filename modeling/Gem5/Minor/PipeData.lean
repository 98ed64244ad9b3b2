import Gem5.FlexCPU.Isa

/-!
# Dynamic instructions of the Minor CPU

`MinorDynInst` with the flags of its `StaticInst`, the register classes that the
scoreboard knows, and the reasons of `BranchData`. Only the part of an instruction
that Execute and the load/store queue look at is kept.
-/

namespace Gem5.Minor

open FlexCPU (PCState)

inductive RegClass where
  | int
  | float
  | vec
  | vecElem
  | vecPred
  | cc
  | misc
  deriving DecidableEq

structure RegId where
  cls : RegClass
  idx : Nat
  deriving DecidableEq

/-- `ZeroReg` of RISC-V. -/
def RegId.zeroReg : RegId := ⟨.int, 0⟩

def RegId.isZeroReg (r : RegId) : Bool := r == .zeroReg

/-- The last field holds for every format: a memory reference has a memory op class. -/
structure StaticInst where
  isMemRef : Bool := false
  isLoad : Bool := false
  isStore : Bool := false
  isAtomic : Bool := false
  isMemBarrier : Bool := false
  isPrefetch : Bool := false
  isMicroop : Bool := false
  isLastMicroop : Bool := false
  isSerializeAfter : Bool := false
  isSquashAfter : Bool := false
  isIprAccess : Bool := false
  isQuiesce : Bool := false
  opClass : Nat := 0
  srcRegs : List RegId := []
  destRegs : List RegId := []
  memRef_opClass : isMemRef = true → opClass ≠ 0 := by simp

/-- `RiscvStaticInst::advancePC` and `RiscvMicroInst::advancePC`. -/
def StaticInst.advancePC (si : StaticInst) (pc : PCState) : PCState :=
  if si.isMicroop then (if si.isLastMicroop then pc.uEnd else pc.uAdvance) else pc.advance

/-- `InstId`; the execute sequence numbers of a thread name its instructions. -/
structure InstId where
  threadId : Nat
  streamSeqNum : Nat
  execSeqNum : Nat
  deriving DecidableEq

/-- `unpredictable` remembers the `mark_unpredictable` of the issue. -/
structure DynInst where
  id : InstId
  fault : Bool := false
  staticInst : StaticInst := {}
  pc : PCState := default
  predictedTaken : Bool := false
  predictedTarget : PCState := default
  fuIndex : Nat := 0
  inLSQ : Bool := false
  inStoreBuffer : Bool := false
  canEarlyIssue : Bool := false
  instToWaitFor : Nat := 0
  extraCommitDelay : Nat := 0
  extraCommitDelayExpr : Bool := false
  minimumCommitCycle : Nat := 0
  flatDestRegs : List RegId := []
  unpredictable : Bool := false

namespace DynInst

def isInst (x : DynInst) : Bool := !x.fault

def isMemRef (x : DynInst) : Bool := x.isInst && x.staticInst.isMemRef

/-- `isInst() && staticInst->isMemBarrier()`. -/
def isMemBarrier (x : DynInst) : Bool := x.isInst && x.staticInst.isMemBarrier

/-- The op class `No_OpClass` is 0. -/
def isNoCostInst (x : DynInst) : Bool := x.isInst && x.staticInst.opClass == 0

def isLastOpInInst (x : DynInst) : Bool := !(x.staticInst.isMicroop && !x.staticInst.isLastMicroop)

end DynInst

/-- `BranchData::Reason`. -/
inductive Reason where
  | noBranch
  | unpredictedBranch
  | branchPrediction
  | correctlyPredictedBranch
  | badlyPredictedBranch
  | badlyPredictedBranchTarget
  | suspendThread
  | interrupt
  | haltFetch
  deriving DecidableEq

def Reason.isStreamChange : Reason → Bool
  | noBranch => false
  | correctlyPredictedBranch => false
  | _ => true

/-- The reason that `tryToBranch` finds, for the program counter that the instruction has
left in the thread. -/
def DynInst.branchReason (x : DynInst) (suspended fault : Bool) (after : PCState) : Reason :=
  let forceBranch := !suspended && !x.fault && x.isLastOpInInst
    && (x.staticInst.isSerializeAfter || x.staticInst.isSquashAfter || x.staticInst.isIprAccess)
  let mustBranch := x.pc != after || fault || forceBranch
  let target := if fault then after else x.staticInst.advancePC after
  if x.predictedTaken && !forceBranch then
    if !mustBranch then .badlyPredictedBranch
    else if x.predictedTarget = target then .correctlyPredictedBranch
    else .badlyPredictedBranchTarget
  else if mustBranch then .unpredictedBranch
  else .noBranch

end Gem5.Minor

namespace Gem5.Minor

open FlexCPU (Addr ExtMachInst Fault MachInst MicroPC PCState)

namespace InstId

def firstStreamSeqNum : Nat := 1

def firstPredictionSeqNum : Nat := 1

def firstLineSeqNum : Nat := 1

def firstFetchSeqNum : Nat := 1

def firstExecSeqNum : Nat := 1

end InstId

/-- `InstId` as far as a line fills it. -/
structure LineId where
  threadId : Nat
  streamSeqNum : Nat
  predictionSeqNum : Nat
  lineSeqNum : Nat
  deriving DecidableEq

/-- `BranchData` without its instruction; a bubble has no thread. -/
structure BranchData where
  reason : Reason
  threadId : Nat
  newStreamSeqNum : Nat
  newPredictionSeqNum : Nat
  target : PCState
  deriving DecidableEq

def BranchData.isStreamChange (b : BranchData) : Bool := b.reason.isStreamChange

/-- A line that is not a bubble. A line with a fault has width 0 and no bytes. -/
structure ForwardLineData where
  id : LineId
  pc : PCState
  lineBaseAddr : Addr
  fault : Option Fault := none
  lineWidth : Nat := 0
  line : Nat → BitVec 8 := fun _ => 0

def ForwardLineData.isFault (l : ForwardLineData) : Bool := l.fault.isSome

/-- `gtoh(*(MachInst *)(line + index))`. -/
def ForwardLineData.word (l : ForwardLineData) (index : Nat) : MachInst :=
  (l.line (index + 3) ++ l.line (index + 2)) ++ (l.line (index + 1) ++ l.line index)

/-- What the front end asks of the static instructions `ι`. The decoder makes no micro-ops;
they come from `fetchMicroop` only. -/
structure StaticInsts (ι : Type) where
  decodeInst : ExtMachInst → ι
  isControl : ι → Bool
  isSyscall : ι → Bool
  isMacroop : ι → Bool
  isMicroop : ι → Bool
  isLastMicroop : ι → Bool
  fetchMicroop : ι → MicroPC → ι
  decodeInst_plain : ∀ word, isMicroop (decodeInst word) = false

/-- `RiscvStaticInst::advancePC` and `RiscvMicroInst::advancePC`. -/
def StaticInsts.advancePC {ι : Type} (isa : StaticInsts ι) (si : ι) (pc : PCState) : PCState :=
  if isa.isMicroop si then (if isa.isLastMicroop si then pc.uEnd else pc.uAdvance)
  else pc.advance

/-- `MinorDynInst` in the front end. The pointer `staticInst` of a fault is null. -/
structure FetchedInst (ι : Type) where
  id : LineId
  fetchSeqNum : Nat
  execSeqNum : Nat := 0
  pc : PCState
  staticInst : Option ι := none
  fault : Option Fault := none
  triedToPredict : Bool := false
  predictedTaken : Bool := false
  predictedTarget : PCState := default

def FetchedInst.isFault {ι : Type} (x : FetchedInst ι) : Bool := x.fault.isSome

end Gem5.Minor
