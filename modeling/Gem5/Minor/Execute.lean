import Gem5.Minor.Scoreboard
import Gem5.Minor.Lsq
import Gem5.Lib.Runs

/-!
# The Execute stage of the Minor CPU

`Execute` for any number of threads over shared functional units and one load/store
queue. `evaluate` is cut into phases: the step of the queue, the interrupts, the rounds
of the commit loop, the issue of one instruction after the other, and the advance of
the pipelines. Between two cycles translations finish, responses and retries arrive,
and a drain may begin or end. What an instruction computes is an answer of the
environment.
-/

namespace Gem5.Minor

open FlexCPU (PCState)

inductive DrainState where
  | notDraining
  | drainCurrentInst
  | drainHaltFetch
  | drainAllInsts
  deriving DecidableEq

/-- `MinorFUTiming`. -/
structure FuTiming where
  suppress : Bool := false
  extraCommitLat : Nat := 0
  extraCommitLatExpr : Bool := false
  extraAssumedLat : Nat := 0
  srcRegsRelativeLats : List Nat := []

/-- `MinorFU`. -/
structure FuDescription where
  opLat : Nat
  issueLat : Nat := 1
  provides : Nat → Bool := fun _ => true
  findTiming : StaticInst → Option FuTiming := fun _ => none
  cantForwardFromFUIndices : List Bool := []

/-- `FUPipeline`: the first slot is the input, the last one the front. -/
structure FuPipeline where
  slots : List (Option InstId)
  stalled : Bool := false
  nextInsertCycle : Nat := 0

namespace FuPipeline

def front (p : FuPipeline) : Option InstId := p.slots.getLast?.join

def alreadyPushed (p : FuPipeline) : Bool := p.slots.head?.join.isSome

def push (p : FuPipeline) (i : InstId) : FuPipeline := { p with slots := some i :: p.slots.tail }

def canInsert (p : FuPipeline) (now : Nat) : Bool :=
  p.nextInsertCycle == 0 || p.nextInsertCycle ≤ now

def advance (p : FuPipeline) (issueLat now : Nat) : FuPipeline :=
  let nextInsertCycle :=
    if p.alreadyPushed then
      if p.nextInsertCycle ≤ now then now + issueLat else p.nextInsertCycle
    else if p.stalled && p.nextInsertCycle != 0 then p.nextInsertCycle + 1
    else p.nextInsertCycle
  if p.stalled then { p with nextInsertCycle := nextInsertCycle }
  else
    let slots := none :: p.slots.dropLast
    { slots := slots, stalled := slots.getLast?.join.isSome, nextInsertCycle := nextInsertCycle }

end FuPipeline

structure Config where
  allowEarlyMemIssue : Bool
  commitLimit : Nat
  memoryCommitLimit : Nat
  funcUnits : List FuDescription
  lsq : LsqParams
  flatten : RegId → RegId

/-- `ExecuteThreadInfo`, with the input that is still to be issued, the status of the
context, and the number that Decode gives to the next instruction. -/
structure ThreadInfo where
  input : List InstId := []
  inFlightInsts : List InstId := []
  inFUMemInsts : List InstId := []
  streamSeqNum : Nat := 1
  lastCommitWasEndOfMacroop : Bool := true
  drainState : DrainState := .notDraining
  suspended : Bool := false
  nextExecSeqNum : Nat := 1

/-- The arguments and the counts of a running `commit`. -/
structure CommitLoop where
  tid : Nat
  onlyCommitMicroops : Bool
  discard : Bool
  numInstsCommitted : Nat := 0
  numMemRefsCommitted : Nat := 0

inductive Phase where
  | idle
  | interrupts
  | commit (loop : CommitLoop)
  | issue (tid : Option Nat)
  | advance

/-- The last two fields record which instructions were committed and discarded. -/
structure Execute where
  insts : InstId → DynInst := fun id => { id := id }
  threads : Nat → ThreadInfo := fun _ => {}
  scoreboards : Nat → Scoreboard := fun _ => {}
  funcUnits : List FuPipeline
  lsq : Lsq := {}
  branch : Reason := .noBranch
  now : Nat := 0
  phase : Phase := .idle
  panicked : Bool := false
  committed : List InstId := []
  discarded : List InstId := []

namespace Execute

def init (cfg : Config) : Execute :=
  { funcUnits := cfg.funcUnits.map fun d => { slots := List.replicate (d.opLat + 1) none } }

def fail (s : Execute) : Execute := { s with panicked := true }

def updateInst (s : Execute) (i : InstId) (f : DynInst → DynInst) : Execute :=
  { s with insts := Function.update s.insts i (f (s.insts i)) }

def updateThread (s : Execute) (tid : Nat) (f : ThreadInfo → ThreadInfo) : Execute :=
  { s with threads := Function.update s.threads tid (f (s.threads tid)) }

def instIsRightStream (s : Execute) (i : InstId) : Bool :=
  i.streamSeqNum == (s.threads i.threadId).streamSeqNum

def instIsHeadInst (s : Execute) (i : InstId) : Bool :=
  (s.threads i.threadId).inFlightInsts.head? == some i

def view (s : Execute) : View := ⟨s.instIsRightStream, s.instIsHeadInst⟩

def isInbetweenInsts (s : Execute) (tid : Nat) : Bool :=
  (s.threads tid).lastCommitWasEndOfMacroop && !s.lsq.accessesInFlight

def updateBranchData (s : Execute) (tid : Nat) (reason : Reason) : Execute :=
  if reason = .noBranch then s
  else
    { s.updateThread tid fun t =>
        { t with
          streamSeqNum := if reason.isStreamChange then t.streamSeqNum + 1 else t.streamSeqNum } with
      branch := reason }

/-- `tryToBranch`; `after` is the program counter the instruction has left. -/
def tryToBranch (s : Execute) (i : InstId) (fault : Bool) (after : PCState) : Execute :=
  s.updateBranchData i.threadId
    ((s.insts i).branchReason (s.threads i.threadId).suspended fault after)

/-- What `initiateAcc` does when it raises no fault. -/
inductive InitAcc where
  | failedPredicate
  | access (a : Access)

/-- What the environment decides in one round of `commit`: whether a PC event strikes,
whether an interrupt is pending, the fault and the program counter that `execute`,
`initiateAcc` or `completeAcc` gives, whether the thread is suspended by it, and the
value of the extra delay. -/
structure CommitAnswer where
  pcEvent : Bool := false
  interrupted : Bool := false
  fault : Bool := false
  after : PCState := default
  suspends : Bool := false
  initAcc : InitAcc := .failedPredicate
  extraDelay : Nat := 0

/-- The local variables of one round of `commit`. -/
structure Round where
  inst : InstId
  committed : Bool := false
  discarded : Bool := false
  completed : Bool := false
  completedMemRef : Bool := false
  issuedMemRef : Bool := false
  fault : Bool := false

/-- The end of `commitInst` for a completed instruction. -/
def suspendThread (s : Execute) (i : InstId) (interrupted : Bool) : Execute :=
  if !(s.insts i).fault && (s.threads i.threadId).suspended && s.branch = .noBranch
      && !interrupted then
    s.updateBranchData i.threadId .suspendThread
  else s

def commitInst (cfg : Config) (s : Execute) (i : InstId) (early : Bool) (a : CommitAnswer) :
    Execute × Round :=
  let x := s.insts i
  let tid := i.threadId
  if (s.threads tid).suspended && !a.interrupted then (s.fail, { inst := i })
  else if x.fault then
    ((s.tryToBranch i true a.after).suspendThread i a.interrupted,
      { inst := i, completed := true, fault := true })
  else if x.isMemRef then
    if !s.lsq.canRequest cfg.lsq then (s, { inst := i })
    else if a.fault then
      if early then
        (s.updateInst i fun x => { x with canEarlyIssue := false }, { inst := i, fault := true })
      else
        ((s.tryToBranch i true a.after).suspendThread i a.interrupted,
          { inst := i, completed := true, issuedMemRef := true, fault := true })
    else
      let lsq := match a.initAcc with
        | .failedPredicate => s.lsq.pushFailedRequest i x.isMemBarrier
        | .access acc => s.lsq.pushRequest cfg.lsq i x.isMemBarrier acc
      (({ s with lsq := lsq }).suspendThread i a.interrupted,
        { inst := i, completed := true, issuedMemRef := true })
  else if x.isMemBarrier && !s.lsq.canPushIntoStoreBuffer cfg.lsq then (s, { inst := i })
  else if x.staticInst.isQuiesce && s.branch ≠ .noBranch then (s, { inst := i })
  else
    let s := if a.suspends then s.updateThread tid fun t => { t with suspended := true } else s
    ((s.tryToBranch i a.fault a.after).suspendThread i a.interrupted,
      { inst := i, completed := true, committed := true, fault := a.fault })

/-- `handleMemResponse` for the head instruction. -/
def handleMemResponse (s : Execute) (i : InstId) (r : ReqId) (a : CommitAnswer) : Execute × Round :=
  let x := s.lsq.reqs r
  let fault :=
    if x.fault then !(s.insts i).staticInst.isPrefetch
    else x.packet && a.fault
  let stored := x.packet && !x.fault && !a.fault && x.needsToBeSentToStoreBuffer
  let s := if stored then
      { s.updateInst i fun x => { x with inStoreBuffer := true } with
        lsq := s.lsq.sendStoreToStoreBuffer r }
    else s
  (({ s with lsq := s.lsq.popResponse r }).tryToBranch i fault a.after,
    { inst := i, committed := true, completed := true, completedMemRef := true, fault := fault })

/-- The instruction at the end of a functional unit. -/
def fuFront (s : Execute) (fu : Nat) : Option InstId := (s.funcUnits[fu]?).bind (·.front)

/-- The memory reference that may be sent to the queue ahead of its turn. -/
def earlyIssue (cfg : Config) (s : Execute) (tid : Nat) (head : InstId) : Option InstId :=
  match (s.threads tid).inFUMemInsts with
  | [] => none
  | m :: _ =>
    if s.lsq.canRequest cfg.lsq then
      (s.fuFront (s.insts m).fuIndex).filter fun f =>
        !(s.insts f).inLSQ && (s.insts f).canEarlyIssue
          && (s.threads tid).streamSeqNum == f.streamSeqNum
          && (s.insts f).instToWaitFor < head.execSeqNum
    else none

/-- The instruction that a round tries to commit, and whether it is early. -/
def candidate (cfg : Config) (s : Execute) (tid : Nat) (head : InstId) : Option (InstId × Bool) :=
  match s.earlyIssue cfg tid head with
  | some f => some (f, true)
  | none =>
    if (s.insts head).isNoCostInst
        || (!(s.insts head).inLSQ && s.fuFront (s.insts head).fuIndex == some head) then
      some (head, false)
    else none

/-- The extra commit delay becomes the earliest cycle of the commit. -/
def delayCommit (s : Execute) (i : InstId) (extraDelay : Nat) : Execute :=
  s.updateInst i fun x =>
    let delay := x.extraCommitDelay
      + (if x.extraCommitDelayExpr && extraDelay < 128 then extraDelay else 0)
    { x with
      extraCommitDelayExpr := false
      minimumCommitCycle := if delay ≠ 0 then s.now + delay else x.minimumCommitCycle
      extraCommitDelay := 0 }

/-- An incomplete barrier holds the memory reference back. -/
def heldByBarrier (s : Execute) (tid : Nat) (i : InstId) : Bool :=
  (s.insts i).isMemRef && s.lsq.lastMemBarrier tid < i.execSeqNum && s.lsq.lastMemBarrier tid ≠ 0

def unstall (s : Execute) (i : InstId) : Execute :=
  { s with funcUnits := s.funcUnits.modify (s.insts i).fuIndex fun p => { p with stalled := false } }

/-- A round that tries to commit an instruction from a functional unit. -/
def tryToCommit (cfg : Config) (s : Execute) (c : CommitLoop) (i : InstId) (early : Bool)
    (a : CommitAnswer) : Execute × Round :=
  if i.streamSeqNum ≠ (s.threads c.tid).streamSeqNum || c.discard then
    (s.unstall i, { inst := i, discarded := true, completed := true })
  else
    let s := s.delayCommit i a.extraDelay
    if s.heldByBarrier c.tid i then (s, { inst := i })
    else if s.now < (s.insts i).minimumCommitCycle then (s, { inst := i })
    else
      let done := s.commitInst cfg i early a
      if done.2.completed then (done.1.unstall i, done.2) else done

/-- The decision of one round of `commit` about the head of the instructions in flight. -/
def commitHead (cfg : Config) (s : Execute) (c : CommitLoop) (head : InstId) (a : CommitAnswer) :
    Execute × Round :=
  let response := if (s.insts head).inLSQ then s.lsq.findResponse cfg.lsq head else none
  if s.isInbetweenInsts c.tid && a.pcEvent then
    (s.updateBranchData c.tid .unpredictedBranch, { inst := head })
  else match response.filter fun _ => c.numMemRefsCommitted < cfg.memoryCommitLimit with
    | some r =>
      if head.streamSeqNum ≠ (s.threads c.tid).streamSeqNum || c.discard then
        ({ s with lsq := s.lsq.popResponse r },
          { inst := head, discarded := true, completed := true, completedMemRef := true })
      else s.handleMemResponse head r a
    | none =>
      if !(c.onlyCommitMicroops && (s.threads c.tid).lastCommitWasEndOfMacroop) then
        match s.candidate cfg c.tid head with
        | some (i, early) => s.tryToCommit cfg c i early a
        | none => (s, { inst := head })
      else (s, { inst := head })

/-- A finished instruction is removed, and its barrier and its destinations are cleared. -/
def retire (s : Execute) (tid : Nat) (r : Round) : Execute :=
  let x := s.insts r.inst
  let lsq :=
    if x.isMemBarrier then s.lsq.completeMemBarrierInst r.inst x.inStoreBuffer r.committed
    else s.lsq
  { s.updateThread tid fun t =>
      { t with
        lastCommitWasEndOfMacroop := x.fault || x.isLastOpInInst
        inFlightInsts := t.inFlightInsts.tail } with
    lsq := lsq
    scoreboards := Function.update s.scoreboards tid
      ((s.scoreboards tid).clearInstDests x x.isMemRef) }

/-- The end of a round of `commit`. -/
def settle (s : Execute) (tid : Nat) (r : Round) : Execute :=
  let s := { s with
    committed := if r.committed then s.committed ++ [r.inst] else s.committed
    discarded := if r.discarded then s.discarded ++ [r.inst] else s.discarded }
  let s := if r.issuedMemRef then
      s.updateInst r.inst fun x => { x with fuIndex := 0, inLSQ := true }
    else s
  let s := if r.completed && (s.insts r.inst).isMemRef
      && (s.threads tid).inFUMemInsts.head? == some r.inst then
      s.updateThread tid fun t => { t with inFUMemInsts := t.inFUMemInsts.tail }
    else s
  if r.completed && !(r.issuedMemRef && !r.fault) then s.retire tid r else s

/-- The condition of the loop of `commit`, after a round. -/
def goesOn (cfg : Config) (s : Execute) (c : CommitLoop) : Bool :=
  !(s.threads c.tid).inFlightInsts.isEmpty && !s.branch.isStreamChange
    && c.numInstsCommitted != cfg.commitLimit

def count (s : Execute) (c : CommitLoop) (r : Round) : CommitLoop :=
  if r.committed then
    { c with
      numInstsCommitted :=
        if (s.insts r.inst).isNoCostInst then c.numInstsCommitted else c.numInstsCommitted + 1
      numMemRefsCommitted :=
        if r.completedMemRef then c.numMemRefsCommitted + 1 else c.numMemRefsCommitted }
  else c

/-- `HaltFetch` is signalled once the current instruction is finished. -/
def haltFetch (s : Execute) (tid : Nat) : Execute :=
  if (s.threads tid).drainState = .drainHaltFetch then
    (s.updateBranchData tid .haltFetch).updateThread tid fun t =>
      { t with drainState := .drainAllInsts }
  else s

/-- `evaluate` between its `commit` and its `issue`. -/
def afterCommit (s : Execute) (tid : Nat) : Execute :=
  let s := if (s.threads tid).drainState = .drainCurrentInst then
      let s := if s.isInbetweenInsts tid then
          s.updateThread tid fun t => { t with drainState := .drainHaltFetch }
        else s
      { s with branch := .noBranch }
    else s
  { s.haltFetch tid with phase := .issue none }

/-- One round of `commit`; the loop is left when the round completes nothing. -/
def commitRound (cfg : Config) (s : Execute) (c : CommitLoop) (a : CommitAnswer) : Execute :=
  match (s.threads c.tid).inFlightInsts with
  | [] => s.afterCommit c.tid
  | head :: _ =>
    let d := s.commitHead cfg c head a
    let t := d.1.settle c.tid d.2
    let c := t.count c d.2
    if d.2.completed && !d.2.fault && t.goesOn cfg c then { t with phase := .commit c }
    else t.afterCommit c.tid

/-- The start of `commit` for a thread, or of what replaces it while it drains. -/
def startCommit (cfg : Config) (s : Execute) (tid : Nat) (onlyCommitMicroops : Bool) : Execute :=
  let start (c : CommitLoop) (s : Execute) :=
    if s.goesOn cfg c then { s with phase := .commit c } else s.afterCommit tid
  match (s.threads tid).drainState with
  | .notDraining => start ⟨tid, onlyCommitMicroops, false, 0, 0⟩ s
  | .drainCurrentInst => start ⟨tid, true, false, 0, 0⟩ s
  | .drainHaltFetch => s.afterCommit tid
  | .drainAllInsts =>
    start ⟨tid, false, true, 0, 0⟩ (s.updateThread tid fun t => { t with input := [] })

/-- The timing of an instruction in a functional unit. -/
def timing (d : FuDescription) (x : DynInst) : FuTiming :=
  if x.fault then {} else (d.findTiming x.staticInst).getD {}

/-- Whether the instruction can be issued to the functional unit now. -/
def accepts (cfg : Config) (s : Execute) (tid : Nat) (x : DynInst) (d : FuDescription)
    (p : FuPipeline) : Bool :=
  (x.fault || d.provides x.staticInst.opClass) && !p.alreadyPushed && !p.stalled
    && p.canInsert s.now && !(timing d x).suppress
    && (s.scoreboards tid).canInstIssue cfg.flatten x (timing d x).srcRegsRelativeLats
      d.cantForwardFromFUIndices s.now

/-- The marks that `issue` leaves on an instruction. -/
def marked (cfg : Config) (s : Execute) (tid : Nat) (x : DynInst) (fu : Nat) (lat : FuTiming) :
    DynInst :=
  let waitFor := (s.scoreboards tid).execSeqNumToWaitFor cfg.flatten x
  { x with
    fuIndex := fu
    extraCommitDelay := lat.extraCommitLat
    extraCommitDelayExpr := lat.extraCommitLatExpr
    instToWaitFor :=
      if x.isMemRef && cfg.allowEarlyMemIssue then max waitFor (s.lsq.lastMemBarrier tid)
      else x.instToWaitFor
    canEarlyIssue := if x.isMemRef && cfg.allowEarlyMemIssue then true else x.canEarlyIssue
    flatDestRegs := Scoreboard.flattenDests cfg.flatten x.staticInst
    unpredictable := x.isMemRef && lat.extraAssumedLat == 0 }

/-- The instruction enters the queues of its thread and marks its destinations. -/
def enter (s : Execute) (tid : Nat) (x : DynInst) (retireTime : Nat) : Execute :=
  { s.updateThread tid fun t =>
      { t with
        input := t.input.tail
        inFlightInsts := t.inFlightInsts ++ [x.id]
        inFUMemInsts := if x.isMemRef then t.inFUMemInsts ++ [x.id] else t.inFUMemInsts } with
    insts := Function.update s.insts x.id x
    scoreboards := Function.update s.scoreboards tid
      ((s.scoreboards tid).markupInstDests x retireTime x.unpredictable)
    lsq := if x.isMemBarrier then s.lsq.issuedMemBarrierInst x.id else s.lsq }

/-- `noCostFUIndex`. -/
def noCostFUIndex (cfg : Config) : Nat := cfg.funcUnits.length + 1

/-- The first functional unit that takes the instruction. -/
def findFU (cfg : Config) (s : Execute) (tid : Nat) (x : DynInst) : Option (Nat × FuDescription) :=
  ((List.range cfg.funcUnits.length).zip cfg.funcUnits).find? fun f =>
    match s.funcUnits[f.1]? with
    | some p => s.accepts cfg tid x f.2 p
    | none => false

/-- `issue` for the next instruction of the input. -/
def issueInst (cfg : Config) (s : Execute) (tid : Nat) : Execute :=
  match (s.threads tid).input with
  | [] => s
  | i :: rest =>
    let x := s.insts i
    if (s.threads tid).suspended || i.streamSeqNum ≠ (s.threads tid).streamSeqNum then
      { s.updateThread tid fun t => { t with input := rest } with discarded := s.discarded ++ [i] }
    else if x.isNoCostInst then
      let x := { x with
        fuIndex := noCostFUIndex cfg
        extraCommitDelay := 0
        extraCommitDelayExpr := false
        flatDestRegs := Scoreboard.flattenDests cfg.flatten x.staticInst
        unpredictable := false }
      s.enter tid x s.now
    else match s.findFU cfg tid x with
      | none => s
      | some (fu, d) =>
        let lat := timing d x
        { s.enter tid (s.marked cfg tid x fu lat)
            (s.now + d.opLat + lat.extraCommitLat + lat.extraAssumedLat) with
          funcUnits := s.funcUnits.modify fu (·.push i) }

/-- The end of `evaluate`: the pipelines advance and the branch leaves the stage. -/
def advance (cfg : Config) (s : Execute) : Execute :=
  { s with
    funcUnits := (cfg.funcUnits.zip s.funcUnits).map fun f => f.2.advance f.1.issueLat s.now
    now := s.now + 1
    branch := .noBranch
    phase := .idle }

/-- An instruction that Decode hands over. -/
structure Arrival where
  streamSeqNum : Nat
  fault : Bool := false
  staticInst : StaticInst := {}
  pc : PCState := default
  predictedTaken : Bool := false
  predictedTarget : PCState := default

/-- Decode numbers the instruction and puts it into the input buffer. Its stream is one
that Execute has announced. -/
def arrive (s : Execute) (tid : Nat) (a : Arrival) : Execute :=
  let i : InstId := ⟨tid, a.streamSeqNum, (s.threads tid).nextExecSeqNum⟩
  if (s.threads tid).streamSeqNum < a.streamSeqNum then s
  else { s.updateThread tid fun t =>
      { t with input := t.input ++ [i], nextExecSeqNum := t.nextExecSeqNum + 1 } with
    insts := Function.update s.insts i
      { id := i
        fault := a.fault
        staticInst := a.staticInst
        pc := a.pc
        predictedTaken := a.predictedTaken
        predictedTarget := a.predictedTarget } }

def drain (s : Execute) : Execute :=
  { s with
    threads := fun tid =>
      if (s.threads tid).drainState = .notDraining then
        { s.threads tid with
          drainState := if s.isInbetweenInsts tid then .drainHaltFetch else .drainCurrentInst }
      else s.threads tid }

def drainResume (s : Execute) : Execute :=
  { s with threads := fun tid => { s.threads tid with drainState := .notDraining } }

inductive Event where
  | arrive (tid : Nat) (inst : Arrival)
  | finish (r : ReqId) (answer : Translation) (port : Port)
  | perform (k : Nat) (bytes : Nat → Byte)
  | respond (k : Nat)
  | retry (port : Port)
  | drain
  | drainResume
  | activate (tid : Nat) (suspended : Bool)
  | evaluate (port : Port) (ports : List Port)
  | interrupt (tid : Nat)
  | startCommit (tid : Option Nat) (onlyCommitMicroops : Bool)
  | commit (answer : CommitAnswer)
  | issue (tid : Nat)
  | advance

def finish (cfg : Config) (s : Execute) (r : ReqId) (a : Translation) (port : Port) : Execute :=
  if (s.lsq.reqs r).state = .inTranslation then
    { s with lsq := s.lsq.finish cfg.lsq s.view port r a }
  else s

/-- Events between two cycles. -/
def outside (cfg : Config) (s : Execute) : Event → Execute
  | .arrive tid inst => s.arrive tid inst
  | .finish r a port => s.finish cfg r a port
  | .perform k bytes => { s with lsq := s.lsq.perform k bytes }
  | .respond k =>
    if (s.lsq.inMemory[k]?).any (·.performed) then { s with lsq := s.lsq.recvTimingResp k } else s
  | .retry port =>
    if s.lsq.needsRetry then { s with lsq := s.lsq.recvReqRetry cfg.lsq port } else s
  | .drain => s.drain
  | .drainResume => s.drainResume
  | .activate tid suspended => s.updateThread tid fun t => { t with suspended := suspended }
  | .evaluate port ports =>
    { s with lsq := s.lsq.step cfg.lsq s.view port ports, phase := .interrupts }
  | _ => s

/-- An interrupt is taken between instructions of a thread that does not drain. -/
def takeInterrupt (s : Execute) (tid : Nat) : Execute :=
  if (s.threads tid).drainState = .notDraining ∧ s.isInbetweenInsts tid = true then
    { s.updateBranchData tid .interrupt with phase := .advance }
  else s

/-- The phases of `evaluate`. A translation may finish while `commit` runs, as
`translateTiming` may call `finish` at once. -/
def running (cfg : Config) (s : Execute) (e : Event) : Execute :=
  match s.phase with
  | .idle => s.outside cfg e
  | .interrupts =>
    match e with
    | .interrupt tid => s.takeInterrupt tid
    | .startCommit tid only =>
      if s.branch ≠ .noBranch then { s with phase := .advance }
      else match tid with
        | none => { s with phase := .issue none }
        | some tid => s.startCommit cfg tid only
    | _ => s
  | .commit c =>
    match e with
    | .commit a => s.commitRound cfg c a
    | .finish r a port => s.finish cfg r a port
    | _ => s
  | .issue chosen =>
    match e with
    | .issue tid =>
      if chosen.getD tid = tid then { s.issueInst cfg tid with phase := .issue (some tid) } else s
    | .advance => s.advance cfg
    | _ => s
  | .advance =>
    match e with
    | .advance => s.advance cfg
    | _ => s

/-- A panic stops the simulation. -/
def step (cfg : Config) (s : Execute) (e : Event) : Execute :=
  if s.panicked || s.lsq.panicked then s else s.running cfg e

/-- The states that runs with guarded steps reach. -/
abbrev Guarded (cfg : Config) (guard : Execute → Event → Prop) : Execute → Prop :=
  Runs.Reaches (step cfg) guard (init cfg)

abbrev Reachable (cfg : Config) : Execute → Prop := Guarded cfg Runs.Free

def play (cfg : Config) (events : List Event) : Execute := Runs.run (step cfg) (init cfg) events

theorem Guarded.play {cfg : Config} {guard : Execute → Event → Bool} {events : List Event}
    (pass : Runs.offered (step cfg) guard (init cfg) events = true) :
    Guarded cfg (fun s e => guard s e = true) (play cfg events) :=
  Runs.reaches_offered pass

theorem reachable_play (cfg : Config) (events : List Event) : Reachable cfg (play cfg events) :=
  Runs.reaches_run ..

end Execute

end Gem5.Minor
