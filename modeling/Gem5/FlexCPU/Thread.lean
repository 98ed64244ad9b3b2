import Gem5.FlexCPU.InflightInst

/-!
# The state of a FlexCPU thread

`FlexCPUThread` together with what the resources of `FlexCPU` hold on its behalf.
Requests queued on a resource and scheduled events form one list, `requests`. The
C++ call stack is explicit: `calls` lists what the running handler still has to
do, so that a callback loop interrupted by a nested call resumes where it was.
-/

namespace Gem5.FlexCPU

/-- The parameters of a thread and the parts of the ISA that are generated code. -/
structure Config where
  inOrderBeginExecute : Bool
  inOrderExecute : Bool
  strictSerialize : Bool
  hasBranchPredictor : Bool
  inflightInstsMaxSize : Nat
  branchPredMaxDepth : Nat
  fetchBufSize : Nat
  cacheLineSize : Nat
  decodeInst : ExtMachInst → StaticInst
  fetchMicroop : StaticInst → MicroPC → StaticInst
  invoke : Fault → Option StaticInst → ThreadContext → ThreadContext

/-- The request of an access, or one of the two halves of a split one. -/
inductive Half where
  | main
  | low
  | high
  deriving DecidableEq

structure Packet where
  inst : InstId
  half : Half
  write : Bool
  deriving DecidableEq

/-- Work that a resource, a port, a translation or the event queue still owes. -/
inductive Request where
  | itb (inst : InstId) (vaddr : Addr)
  | fetch (inst : InstId) (vaddr : Addr)
  | fetchResp (inst : InstId) (vaddr : Addr)
  | issue (inst : InstId)
  | issueTid (inst : InstId)
  | exec (inst : InstId)
  | delayedCall (inst : InstId)
  | bpred (inst : InstId)
  | dtb (inst : InstId) (pending : List Half)
  | mem (pkt : Packet)
  | memResp (pkt : Packet)
  deriving DecidableEq

/-- The resources that serve their requests first in, first out. -/
inductive Queue where
  | instFetchUnit
  | issueUnit
  | issueThreadUnit
  | executionUnit
  | memoryUnit
  deriving DecidableEq

namespace Request

def queue : Request → Option Queue
  | fetch .. => some .instFetchUnit
  | issue .. => some .issueUnit
  | issueTid .. => some .issueThreadUnit
  | exec .. => some .executionUnit
  | mem .. => some .memoryUnit
  | _ => none

/-- The requests that keep their instruction alive with a `shared_ptr`: entries
of the per-thread queues, and the callback of a write. -/
def holds (i : InstId) : Request → Bool
  | fetch j _ => j == i
  | issueTid j => j == i
  | mem p => p.write && p.inst == i
  | memResp p => p.write && p.inst == i
  | _ => false

end Request

/-- What a running handler still has to do once the calls above it return. -/
inductive Call where
  /-- the rest of a callback loop -/
  | run (cb : Callback)
  /-- `requestExecution` and the second `notifyExecuting` of `executeInstruction` -/
  | requestExecution (inst : InstId)
  /-- the loop of `commitAllAvailableInstructions` with its `buffer_shrunk` -/
  | commitAll (shrunk : Bool)
  /-- `pop_front` after `notifyCommitted` -/
  | commitPop
  /-- the control part of `onExecutionCompleted` -/
  | resolveControl (inst : InstId)
  /-- the rest of `onDataAddrTranslated` after `notifyEffAddrCalculated` -/
  | afterEffAddr (inst : InstId)
  | attemptFetch (inst : InstId)
  deriving DecidableEq

/-- The assertions and panics on the modelled paths. -/
inductive Panic where
  | notReady
  | producerNotComplete
  | resultNotValid
  | nextPCUnknown
  | notInBuffer
  | rangesNotValid
  | splitMmappedIpr
  | romMicroop
  | noStaticInst
  deriving DecidableEq

/-- The members of `FlexCPUThread`. The fields after `calls` record what the
thread did, for specifications: instructions passed to `commitToTC` with their
program counter and destination values, calls of `executeInstruction` and of
`sendToMemory`, instructions passed to `requestExecution`, results of `decode`,
and packets passed to `DataPort::sendPacket`. -/
structure Thread where
  tc : ThreadContext
  lastCommittedInstNum : Nat := 0
  nextIssueNum : Nat := 0
  fetchBuf : Addr → MachInst := fun _ => 0
  fetchBufBase : Addr := 0
  fetchOffset : Addr := 0
  decoder : Decoder := {}
  curMacroOp : Option StaticInst := none
  lastSerializingInstruction : Option InstId := none
  lastMemBarrier : Option InstId := none
  unpredictedBranch : Option InstId := none
  inflightInsts : List InstId := []
  lastUses : RegId → DataSource := fun _ => {}
  advanceInstNeedsRetry : Bool := false
  advanceInstRetryPC : PCState := default
  remainingBranchPredDepth : Nat
  insts : InstId → InflightInst := fun _ => {}
  nextInst : InstId := 0
  requests : List Request := []
  calls : List Call := []
  commits : List (Addr × List (Option RegVal)) := []
  executed : List InstId := []
  requested : List StaticInst := []
  decodes : List (InstId × StaticInst) := []
  sends : List InstId := []
  sent : List Packet := []
  panicked : Option Panic := none

namespace Thread

/-- A constructed thread; a depth of zero means no limit. -/
def init (cfg : Config) (tc : ThreadContext) : Thread :=
  { tc := tc
    remainingBranchPredDepth :=
      if cfg.branchPredMaxDepth = 0 then 2 ^ 32 - 1 else cfg.branchPredMaxDepth }

def fail (t : Thread) (p : Panic) : Thread := { t with panicked := some p }

def update (t : Thread) (i : InstId) (f : InflightInst → InflightInst) : Thread :=
  { t with insts := Function.update t.insts i (f (t.insts i)) }

def push (t : Thread) (cs : List Call) : Thread := { t with calls := cs ++ t.calls }

def request (t : Thread) (r : Request) : Thread := { t with requests := t.requests ++ [r] }

/-- `!weak.expired()`. -/
def alive (t : Thread) (i : InstId) : Bool :=
  t.inflightInsts.contains i || t.requests.any (·.holds i)

/-- The guard of the handlers that take a `weak_ptr`. -/
def live (t : Thread) (i : InstId) : Bool := t.alive i && !(t.insts i).squashed

/-- `weak.lock()`. -/
def lock (t : Thread) (w : Option InstId) : Option InstId := w.filter t.alive

def back (t : Thread) : Option InstId := t.inflightInsts.getLast?

/-- `*(++inflightInsts.rbegin())` when the buffer has two elements or more. -/
def beforeBack (t : Thread) : Option InstId := t.inflightInsts.dropLast.getLast?

/-- The common part of `notifyExecuting`, `notifyEffAddrCalculated`,
`notifyComplete` and `notifyCommitted`, with what the caller does afterwards. -/
def notify (t : Thread) (i : InstId) (m : Milestone) (after : List Call) : Thread :=
  (t.update i (·.passes m)).push (((t.insts i).callbacks m).map .run ++ after)

/-- The two `size_t` counters reach zero here. -/
def decrement (t : Thread) (g : Gate) (i : InstId) : Thread :=
  if t.alive i then
    let t := t.update i (·.decrement g)
    if (t.insts i).remaining g = 0 then t.push (((t.insts i).onReady g).map .run) else t
  else t

def setStatus (t : Thread) (i : InstId) (s : Status) : Thread :=
  t.update i fun inst => { inst with status := s }

end Thread

end Gem5.FlexCPU
