import Gem5.FlexCPU.Frontend

/-!
# Issue: dependencies between in-flight instructions

`populateDependencies` reads the statuses and flags of the buffer and only adds
callbacks and counts, so its rules are listed from the state before the issue and
then carried out one after the other.
-/

namespace Gem5.FlexCPU

/-- What `populateDependencies` does with another instruction. -/
inductive Registration where
  /-- one of the `add*Dependency` functions -/
  | depend (gate : Gate) (m : Milestone) (parent : InstId)
  /-- `owner->addEffAddrCalculatedCallback(cb)` -/
  | callback (owner : InstId) (cb : Callback)
  deriving DecidableEq

namespace Thread

/-- `inst.add*Dependency(parent)`: nothing happens when the parent is squashed or
has passed the milestone. -/
def addDependency (t : Thread) (i : InstId) (g : Gate) (m : Milestone) (p : InstId) : Thread :=
  if (t.insts p).squashed || (t.insts p).reached m then t
  else (t.update i (·.awaits g m p)).update p (·.addCallback m (.decrement g i))

def register (i : InstId) (t : Thread) : Registration → Thread
  | .depend g m p => t.addDependency i g m p
  | .callback owner cb => t.update owner (·.addCallback .effAddr cb)

/-- The tests of `populateDependencies` that need a predecessor in the buffer. -/
def onPrevious (t : Thread) (on : Bool) (rule : InstId → Registration) : List Registration :=
  if on then t.beforeBack.toList.map rule else []

def inOrderRules (cfg : Config) (t : Thread) : List Registration :=
  t.onPrevious cfg.inOrderExecute (.depend .exec .completion)
    ++ t.onPrevious cfg.inOrderBeginExecute (.depend .exec .beginExec)

def serializationRules (cfg : Config) (t : Thread) (si : StaticInst) : List Registration :=
  (t.lock t.lastSerializingInstruction).toList.map (.depend .exec .commit)
    ++ t.onPrevious (if cfg.strictSerialize then si.isSerializing else si.isSerializeBefore)
        (.depend .exec .commit)

def barrierRules (t : Thread) (i : InstId) (si : StaticInst) : List Registration :=
  (if si.isMemRef then (t.lock t.lastMemBarrier).toList.map (.depend .mem .completion) else [])
    ++ (if si.isMemBarrier then
          (t.inflightInsts.reverse.filter fun j => j != i
            && ((t.insts j).staticInst.isMemBarrier || (t.insts j).staticInst.isMemRef)).map
            (.depend (if si.isMemRef then .mem else .exec) .completion)
        else [])

def nonSpeculativeRules (t : Thread) (si : StaticInst) : List Registration :=
  t.onPrevious si.isNonSpeculative (.depend .exec .commit)

/-- Case 1 and Case 2 of the conservative memory dependence ordering. -/
def overlapRules (t : Thread) (i other : InstId) : List Registration :=
  if (t.insts other).isEffAddred then [.callback i (.overlapKnown i other)]
  else [.callback i (.overlapOurs i other), .callback other (.overlapTheirs i other),
    .depend .mem .effAddr other]

def memoryOrderRules (t : Thread) (i : InstId) (si : StaticInst) : List Registration :=
  if si.isMemRef then
    ((t.inflightInsts.takeWhile (· ≠ i)).filter fun j => (t.insts j).staticInst.isStore).flatMap
      (t.overlapRules i)
  else []

def storeAtCommitRules (t : Thread) (si : StaticInst) : List Registration :=
  t.onPrevious si.isStore (.depend .mem .commit)

def dataRules (t : Thread) (si : StaticInst) : List Registration :=
  (si.srcRegs.filter (!·.isZeroReg)).flatMap fun r =>
    (t.lock (t.lastUses r).producer).toList.map (.depend .exec .completion)

def dependencyRules (cfg : Config) (t : Thread) (i : InstId) : List Registration :=
  let si := (t.insts i).staticInst
  t.inOrderRules cfg ++ t.serializationRules cfg si ++ t.barrierRules i si
    ++ t.nonSpeculativeRules si ++ t.memoryOrderRules i si ++ t.storeAtCommitRules si
    ++ t.dataRules si

/-- `setDataSource` for each source operand. -/
def dataSources (t : Thread) (si : StaticInst) : List DataSource :=
  si.srcRegs.map fun r => if r.isZeroReg then {} else t.lastUses r

/-- The assignments to `lastSerializingInstruction`; under strict serialization
they stand inside the test that the buffer holds more than one instruction. -/
def recordsSerializing (cfg : Config) (t : Thread) (si : StaticInst) : Bool :=
  if cfg.strictSerialize then 1 < t.inflightInsts.length && si.isSerializing
  else si.isSerializeAfter

def populateDependencies (cfg : Config) (t : Thread) (i : InstId) : Thread :=
  let si := (t.insts i).staticInst
  let r := (t.dependencyRules cfg i).foldl (register i) t
  let r := r.update i fun inst => { inst with sources := t.dataSources si }
  { r with
    lastSerializingInstruction :=
      if t.recordsSerializing cfg si then some i else t.lastSerializingInstruction
    lastMemBarrier := if si.isMemBarrier then some i else t.lastMemBarrier }

/-- The branch prediction request of `onIssueAccessed`. -/
def requestPrediction (cfg : Config) (t : Thread) (i : InstId) : Thread :=
  if cfg.hasBranchPredictor then
    if t.remainingBranchPredDepth = 0 then { t with unpredictedBranch := some i }
    else ({ t with
      remainingBranchPredDepth := t.remainingBranchPredDepth - 1 }).predictCtrlInst i
  else t

/-- `onIssueAccessed` up to the request for the per-thread issue queue. -/
def enterIssue (cfg : Config) (t : Thread) (i : InstId) : Thread :=
  let t := { t.update i fun inst => { inst with issueSeqNum := t.nextIssueNum } with
    nextIssueNum := t.nextIssueNum + 1 }
  let t := (t.populateDependencies cfg i).populateUses i
  (t.setStatus i .issued).request (.issueTid i)

def onIssueAccessed (cfg : Config) (t : Thread) (i : InstId) : Thread :=
  let t := t.enterIssue cfg i
  let t := if (t.insts i).staticInst.isLastMicroop then { t with curMacroOp := none } else t
  if t.hasNextPC then t.advanceInst cfg t.getNextPC else t.requestPrediction cfg i

end Thread

end Gem5.FlexCPU
