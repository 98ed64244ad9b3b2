import Gem5.Minor.PipeData
import Mathlib.Logic.Function.Basic

/-!
# The scoreboard of the Minor CPU

`Scoreboard` with its 16-bit counters. The register numbers are those of RISC-V; a
register is tracked when `findIndex` gives it an index.
-/

namespace Gem5.Minor

structure Scoreboard where
  numResults : Nat → Nat := fun _ => 0
  numUnpredictableResults : Nat → Nat := fun _ => 0
  fuIndices : Nat → Int := fun _ => 0
  returnCycle : Nat → Nat := fun _ => 0
  writingInst : Nat → Nat := fun _ => 0

namespace Scoreboard

def numIntRegs : Nat := 33
def numCCRegs : Nat := 0
def numFloatRegs : Nat := 32
def numVecRegs : Nat := 1

/-- `findIndex`. -/
def findIndex (r : RegId) : Option Nat :=
  if r.isZeroReg then none
  else match r.cls with
    | .int => some r.idx
    | .float => some (numIntRegs + numCCRegs + r.idx)
    | .vec => some (numIntRegs + numCCRegs + numFloatRegs + r.idx)
    | .vecElem => some (numIntRegs + numCCRegs + numFloatRegs + r.idx)
    | .vecPred => some (numIntRegs + numCCRegs + numFloatRegs + numVecRegs + r.idx)
    | .cc => some (numIntRegs + r.idx)
    | .misc => none

/-- Increment and decrement of an `unsigned short`. -/
def inc (n : Nat) : Nat := (n + 1) % 2 ^ 16
def dec (n : Nat) : Nat := (n + (2 ^ 16 - 1)) % 2 ^ 16

/-- The entries of `flatDestRegIdx`; `ZeroReg` marks an untracked destination. `flatten`
is `ThreadContext::flattenRegId`. -/
def flattenDests (flatten : RegId → RegId) (si : StaticInst) : List RegId :=
  si.destRegs.map fun r => if (findIndex (flatten r)).isSome then flatten r else .zeroReg

/-- One round of the loop of `markupInstDests`. -/
def markupDest (execSeqNum fuIndex retireTime : Nat) (markUnpredictable : Bool)
    (s : Scoreboard) (index : Nat) : Scoreboard :=
  { s with
    numUnpredictableResults :=
      if markUnpredictable then
        Function.update s.numUnpredictableResults index (inc (s.numUnpredictableResults index))
      else s.numUnpredictableResults
    numResults := Function.update s.numResults index (inc (s.numResults index))
    returnCycle := Function.update s.returnCycle index retireTime
    writingInst :=
      if s.writingInst index < execSeqNum then Function.update s.writingInst index execSeqNum
      else s.writingInst
    fuIndices :=
      if s.writingInst index < execSeqNum then Function.update s.fuIndices index fuIndex
      else s.fuIndices }

/-- One round of the loop of `clearInstDests`. -/
def clearDest (clearUnpredictable : Bool) (s : Scoreboard) (index : Nat) : Scoreboard :=
  let left := dec (s.numResults index)
  { s with
    numUnpredictableResults :=
      if clearUnpredictable && s.numUnpredictableResults index != 0 then
        Function.update s.numUnpredictableResults index (dec (s.numUnpredictableResults index))
      else s.numUnpredictableResults
    numResults := Function.update s.numResults index left
    returnCycle := if left = 0 then Function.update s.returnCycle index 0 else s.returnCycle
    writingInst := if left = 0 then Function.update s.writingInst index 0 else s.writingInst
    fuIndices := if left = 0 then Function.update s.fuIndices index (-1) else s.fuIndices }

end Scoreboard

/-- The indices of the tracked destinations, with their multiplicity. -/
def DynInst.trackedDests (x : DynInst) : List Nat :=
  if x.fault then [] else x.flatDestRegs.filterMap Scoreboard.findIndex

namespace Scoreboard

def markupInstDests (s : Scoreboard) (x : DynInst) (retireTime : Nat)
    (markUnpredictable : Bool) : Scoreboard :=
  x.trackedDests.foldl (markupDest x.id.execSeqNum x.fuIndex retireTime markUnpredictable) s

def clearInstDests (s : Scoreboard) (x : DynInst) (clearUnpredictable : Bool) : Scoreboard :=
  x.trackedDests.foldl (clearDest clearUnpredictable) s

/-- The indices of the source registers, untracked ones included. -/
def sources (flatten : RegId → RegId) (x : DynInst) : List (Option Nat) :=
  x.staticInst.srcRegs.map fun r => findIndex (flatten r)

def execSeqNumToWaitFor (flatten : RegId → RegId) (s : Scoreboard) (x : DynInst) : Nat :=
  if x.fault then 0
  else (sources flatten x).foldl (fun ret src =>
    match src with
    | some index => if ret < s.writingInst index then s.writingInst index else ret
    | none => ret) 0

def canInstIssue (flatten : RegId → RegId) (s : Scoreboard) (x : DynInst)
    (srcRegRelativeLatencies : List Nat) (cantForwardFromFUIndices : List Bool)
    (now : Nat) : Bool :=
  x.fault || (sources flatten x).zipIdx.all fun (src, srcIndex) =>
    match src with
    | none => true
    | some index =>
      let cantForward := s.fuIndices index != 1 && cantForwardFromFUIndices.getD index false
      let relativeLatency :=
        if cantForward then 0
        else srcRegRelativeLatencies.getD srcIndex (srcRegRelativeLatencies.getLast?.getD 0)
      !(now + relativeLatency < s.returnCycle index || s.numUnpredictableResults index != 0)

end Scoreboard

end Gem5.Minor
