import Gem5.Minor.Buffers
import Gem5.Minor.PipeData
import Mathlib.Logic.Function.Basic

/-!
# Fetch1

The stage that fetches lines (`fetch1.cc`). A `FetchRequest` is named by the sequence
number of its line, as the source names it by its pointer. What the TLB and the
instruction cache answer is given to each call; the packet of a response carries its
bytes.
-/

namespace Gem5.Minor

open FlexCPU (Addr Fault PCState)

inductive FetchRequestState where
  | notIssued
  | inTranslation
  | translated
  | requestIssuing
  | complete
  deriving DecidableEq

/-- `FetchRequest` with the address and size of its `Request`. -/
structure FetchRequest where
  id : LineId
  pc : PCState
  vaddr : Addr
  size : Nat
  state : FetchRequestState := .notIssued
  packet : Option (Nat → BitVec 8) := none
  fault : Option Fault := none

inductive FetchState where
  | halted
  | waitingForPC
  | running
  deriving DecidableEq

inductive IcacheState where
  | running
  | needsRetry
  deriving DecidableEq

structure Fetch1ThreadInfo where
  state : FetchState := .waitingForPC
  pc : PCState := .ofAddr 0
  streamSeqNum : Nat := InstId.firstStreamSeqNum
  predictionSeqNum : Nat := InstId.firstPredictionSeqNum
  blocked : Bool := false
  wakeupGuard : Bool := false

structure Fetch1Config where
  numThreads : Nat
  lineSnap : Nat
  maxLineWidth : Nat
  fetchLimit : Nat

/-- `discarded` logs the lines whose slot Fetch1 has given back. -/
structure Fetch1 where
  fetchInfo : Nat → Fetch1ThreadInfo := fun _ => {}
  threadPriority : Nat := 0
  reqs : Nat → FetchRequest
  requests : Queue Nat
  transfers : Queue Nat
  icacheState : IcacheState := .running
  lineSeqNum : Nat := InstId.firstLineSeqNum
  discarded : List Nat := []

/-- The input buffers of Fetch2, which Fetch1 reserves. -/
abbrev LineBuffers := Nat → InputBuffer ForwardLineData

/-- What is outside Fetch1 in one call of `evaluate`: the threads that are active, the
priority list of the policy, the answer of the TLB to a new request (`none` when it is
delayed) and whether the cache takes the packets of the new and of the front request. -/
structure Fetch1Answers where
  active : Nat → Bool
  priorityList : List Nat
  translation : Option (Option Fault)
  sendNew : Bool
  sendFront : Bool

namespace Fetch1

def updateThread (s : Fetch1) (tid : Nat) (f : Fetch1ThreadInfo → Fetch1ThreadInfo) : Fetch1 :=
  { s with fetchInfo := Function.update s.fetchInfo tid (f (s.fetchInfo tid)) }

def updateRequest (s : Fetch1) (n : Nat) (f : FetchRequest → FetchRequest) : Fetch1 :=
  { s with reqs := Function.update s.reqs n (f (s.reqs n)) }

@[simp] theorem updateRequest_self (s : Fetch1) (n : Nat) (f : FetchRequest → FetchRequest) :
    (s.updateRequest n f).reqs n = f (s.reqs n) := Function.update_self ..

theorem updateRequest_other {s : Fetch1} {n m : Nat} (other : m ≠ n)
    (f : FetchRequest → FetchRequest) : (s.updateRequest n f).reqs m = s.reqs m :=
  Function.update_of_ne other ..

@[simp] theorem updateRequest_requests (s : Fetch1) (n : Nat) (f : FetchRequest → FetchRequest) :
    (s.updateRequest n f).requests = s.requests := rfl

@[simp] theorem updateRequest_transfers (s : Fetch1) (n : Nat)
    (f : FetchRequest → FetchRequest) : (s.updateRequest n f).transfers = s.transfers := rfl

/-- `FetchRequest::isDiscardable`. -/
def isDiscardable (s : Fetch1) (n : Nat) : Bool :=
  let r := s.reqs n
  let thread := s.fetchInfo r.id.threadId
  r.state != .inTranslation && r.state != .requestIssuing
    && (r.id.streamSeqNum != thread.streamSeqNum
      || r.id.predictionSeqNum != thread.predictionSeqNum)

/-- The first thread of the priority list that can fetch. -/
def getScheduledThread (a : Fetch1Answers) (s : Fetch1) : Option Nat :=
  a.priorityList.find? fun tid =>
    a.active tid && !(s.fetchInfo tid).blocked && (s.fetchInfo tid).state == .running

def moveFromRequestsToTransfers (s : Fetch1) (n : Nat) : Fetch1 :=
  { s with requests := s.requests.pop, transfers := s.transfers.push n }

@[simp] theorem moveFromRequestsToTransfers_reqs (s : Fetch1) (n : Nat) :
    (s.moveFromRequestsToTransfers n).reqs = s.reqs := rfl

/-- `icachePort.sendTimingReq` answers `sent`. -/
def tryToSend (s : Fetch1) (n : Nat) (sent : Bool) : Fetch1 :=
  if sent then
    s.updateRequest n fun r => { r with packet := none, state := .requestIssuing }
  else { s with icacheState := .needsRetry }

def makePacket (s : Fetch1) (n : Nat) : Fetch1 :=
  s.updateRequest n fun r =>
    { r with packet := some (r.packet.getD fun _ => 0) }

def tryToSendToTransfers (s : Fetch1) (n : Nat) (sent : Bool) : Fetch1 :=
  if s.requests.queue ≠ [] ∧ s.requests.queue.head? ≠ some n then s
  else if (s.reqs n).state = .inTranslation then s
  else if s.isDiscardable n || (s.reqs n).fault.isSome then
    (s.updateRequest n fun r => { r with state := .complete }).moveFromRequestsToTransfers n
  else if (s.reqs n).state = .translated then
    let s := (s.makePacket n).tryToSend n sent
    if sent then s.moveFromRequestsToTransfers n else s
  else s

/-- `FetchRequest::finish` and `handleTLBResponse`. -/
def finish (s : Fetch1) (n : Nat) (fault : Option Fault) (sent : Bool) : Fetch1 :=
  (s.updateRequest n fun r => { r with fault := fault, state := .translated }).tryToSendToTransfers
    n sent

def recvTimingResp (s : Fetch1) (n : Nat) (bytes : Nat → BitVec 8) : Fetch1 :=
  s.updateRequest n fun r => { r with packet := some bytes, state := .complete }

def recvReqRetry (s : Fetch1) (sent : Bool) : Fetch1 :=
  match s.requests.queue with
  | [] => s
  | n :: _ =>
    let s := { s with icacheState := .running }.tryToSend n sent
    if sent then s.moveFromRequestsToTransfers n else s

def alignedPC (cfg : Fetch1Config) (pc : PCState) : Addr :=
  pc.pc &&& ~~~(BitVec.ofNat 64 cfg.lineSnap - 1)

def requestSize (cfg : Fetch1Config) (pc : PCState) : Nat :=
  cfg.maxLineWidth - (alignedPC cfg pc).toNat % cfg.lineSnap

/-- A delayed translation leaves the new request in the TLB. -/
def fetchLine (cfg : Fetch1Config) (s : Fetch1) (tid : Nat) (translation : Option (Option Fault))
    (sent : Bool) : Fetch1 :=
  let thread := s.fetchInfo tid
  let n := s.lineSeqNum
  let request : FetchRequest :=
    { id := ⟨tid, thread.streamSeqNum, thread.predictionSeqNum, n⟩
      pc := thread.pc
      vaddr := alignedPC cfg thread.pc
      size := requestSize cfg thread.pc
      state := .inTranslation }
  let s := { s with
    reqs := Function.update s.reqs n request
    transfers := s.transfers.reserve
    requests := s.requests.push n }
  let s := match translation with
    | some fault => s.finish n fault sent
    | none => s
  { s with lineSeqNum := n + 1 }.updateThread tid fun t =>
    { t with pc := .ofAddr (request.vaddr + BitVec.ofNat 64 request.size) }

def numInFlightFetches (s : Fetch1) : Nat := s.requests.occupiedSpace + s.transfers.occupiedSpace

def updateExpectedSeqNums (s : Fetch1) (branch : BranchData) : Fetch1 :=
  s.updateThread branch.threadId fun t =>
    { t with
      streamSeqNum := branch.newStreamSeqNum
      predictionSeqNum := branch.newPredictionSeqNum }

def changeStream (s : Fetch1) (branch : BranchData) : Fetch1 :=
  (s.updateExpectedSeqNums branch).updateThread branch.threadId fun t =>
    { t with
      state := match branch.reason with
        | .suspendThread => if t.wakeupGuard then t.state else .waitingForPC
        | .haltFetch => .halted
        | _ => .running
      pc := branch.target }

/-- A branch of Execute, unless the thread is halted. -/
def takeExecuteBranch (s : Fetch1) (branch : BranchData) : Fetch1 :=
  if branch.isStreamChange && (s.fetchInfo branch.threadId).state != .halted then
    s.changeStream branch
  else s

/-- A prediction of Fetch2, unless the thread is halted or has left its stream. -/
def takePrediction (s : Fetch1) (branch : BranchData) : Fetch1 :=
  if branch.isStreamChange && (s.fetchInfo branch.threadId).state != .halted
      && branch.newStreamSeqNum == (s.fetchInfo branch.threadId).streamSeqNum then
    s.changeStream branch
  else s

/-- Of two branches for one thread, a change of stream from Execute comes first. -/
def takeBranches (s : Fetch1) (executeBranch fetch2Branch : Option BranchData) : Fetch1 :=
  match executeBranch, fetch2Branch with
  | some e, some p =>
    if e.threadId = p.threadId then
      if e.isStreamChange then s.takeExecuteBranch e else s.takePrediction p
    else (s.takeExecuteBranch e).takePrediction p
  | some e, none => s.takeExecuteBranch e
  | none, some p => s.takePrediction p
  | none, none => s

def markBlocked (cfg : Fetch1Config) (s : Fetch1) (nextStageReserve : LineBuffers) : Fetch1 :=
  { s with
    fetchInfo := fun tid =>
      if tid < cfg.numThreads then
        { s.fetchInfo tid with blocked := !(nextStageReserve tid).canReserve }
      else s.fetchInfo tid }

/-- Fetch a line for the scheduled thread and take a slot in the buffer that it is for. -/
def startFetch (cfg : Fetch1Config) (a : Fetch1Answers) (s : Fetch1)
    (nextStageReserve : LineBuffers) : Fetch1 × LineBuffers :=
  if s.numInFlightFetches < cfg.fetchLimit then
    match s.getScheduledThread a with
    | some tid =>
      (({ s with threadPriority := tid }).fetchLine cfg tid a.translation a.sendNew,
        Function.update nextStageReserve tid (nextStageReserve tid).reserve)
    | none => (s, nextStageReserve)
  else (s, nextStageReserve)

def stepQueues (s : Fetch1) (sent : Bool) : Fetch1 :=
  match s.icacheState, s.requests.queue with
  | .running, n :: _ => s.tryToSendToTransfers n sent
  | _, _ => s

/-- The line of a response. Without a fault the packet must be there. -/
def processResponse (s : Fetch1) (n : Nat) : Option (Fetch1 × ForwardLineData) :=
  let r := s.reqs n
  match r.fault, r.packet with
  | some fault, _ =>
    some (s.updateThread r.id.threadId fun t => { t with state := .waitingForPC },
      { id := r.id, pc := r.pc, lineBaseAddr := r.vaddr, fault := some fault })
  | none, some bytes =>
    some (s.updateRequest n fun r => { r with packet := none },
      { id := r.id, pc := r.pc, lineBaseAddr := r.vaddr, lineWidth := r.size, line := bytes })
  | none, none => none

/-- The front of the transfers, once complete, is discarded or becomes the output line. -/
def takeResponse (s : Fetch1) (nextStageReserve : LineBuffers) :
    Option (Fetch1 × LineBuffers × Option ForwardLineData) :=
  match s.transfers.queue with
  | [] => some (s, nextStageReserve, none)
  | n :: _ =>
    if (s.reqs n).state ≠ .complete then some (s, nextStageReserve, none)
    else if s.isDiscardable n then
      let tid := (s.reqs n).id.threadId
      some ({ s with transfers := s.transfers.pop, discarded := s.discarded ++ [n] },
        Function.update nextStageReserve tid (nextStageReserve tid).freeReservation, none)
    else match s.processResponse n with
      | some (s, line) =>
        some ({ s with transfers := s.transfers.pop }, nextStageReserve, some line)
      | none => none

def clearGuards (s : Fetch1) : Fetch1 :=
  { s with fetchInfo := fun tid => { s.fetchInfo tid with wakeupGuard := false } }

/-- `Fetch1::evaluate`; `none` when a line without packet is to be adopted, where the
source reads through a null pointer. -/
def evaluate (cfg : Fetch1Config) (a : Fetch1Answers)
    (executeBranch fetch2Branch : Option BranchData) (s : Fetch1)
    (nextStageReserve : LineBuffers) : Option (Fetch1 × LineBuffers × Option ForwardLineData) :=
  let s := (s.markBlocked cfg nextStageReserve).takeBranches executeBranch fetch2Branch
  let (s, nextStageReserve) := s.startFetch cfg a nextStageReserve
  match (s.stepQueues a.sendFront).takeResponse nextStageReserve with
  | some (s, nextStageReserve, line) => some (s.clearGuards, nextStageReserve, line)
  | none => none

def wakeupFetch (s : Fetch1) (tid : Nat) (pc : PCState) : Fetch1 :=
  s.updateThread tid fun t => { t with pc := pc, state := .running, wakeupGuard := true }

end Fetch1

end Gem5.Minor
