import Gem5.FlexCPU.Issue

/-!
# Execution, memory access and commit

The handlers of `FlexCPUThread` from `onIssueTidAccessed` to
`commitAllAvailableInstructions`, with the requests they make of `FlexCPU`.
-/

namespace Gem5.FlexCPU

namespace Thread

/-- `readIntRegOperand` and its siblings for the other register classes. -/
def readOperand (t : Thread) (r : RegId) (source : DataSource) : Except Panic RegVal :=
  if r.isZeroReg then .ok 0
  else match t.lock source.producer with
    | none => .ok (t.tc.regs r)
    | some p =>
      if (t.insts p).isComplete then
        match (t.insts p).results[source.resultIdx]? with
        | some (some v) => .ok v
        | _ => .error .resultNotValid
      else .error .producerNotComplete

def readOperands (t : Thread) (i : InstId) : Except Panic (List RegVal) :=
  ((t.insts i).staticInst.srcRegs.zip (t.insts i).sources).mapM fun s => t.readOperand s.1 s.2

def executeInstruction (t : Thread) (i : InstId) : Thread :=
  if t.live i then
    if (t.insts i).isReady then
      ({ t with executed := t.executed ++ [i] }).notify i .beginExec [.requestExecution i]
    else t.fail .notReady
  else t

def requestExecution (t : Thread) (i : InstId) : Thread :=
  (({ t with requested := t.requested ++ [(t.insts i).staticInst] }).request (.exec i)).notify
    i .beginExec []

def onIssueTidAccessed (t : Thread) (i : InstId) : Thread :=
  let t := t.setStatus i .issuedTid
  if (t.insts i).isReady then t.push [.run (.executeInstruction i)]
  else t.update i (·.addReadyCallback .exec (.executeInstruction i))

def markFault (cfg : Config) (t : Thread) (i : InstId) (f : Fault) : Thread :=
  let t := t.update i fun inst => { inst with fault := some f }
  let t := (t.squashUpTo cfg i false).notifySquashed i
  ({ t with advanceInstNeedsRetry := false }).push [.commitAll false]

def onExecutionCompleted (cfg : Config) (t : Thread) (i : InstId) : Option Fault → Thread
  | some f => t.markFault cfg i f
  | none => t.notify i .completion
      ((if (t.insts i).staticInst.isControl then [.resolveControl i] else [])
        ++ [.commitAll false])

/-- The branch resolution in `onExecutionCompleted`. A prediction was made if and
only if another instruction follows or waits for a free slot of the buffer. -/
def resolveControl (cfg : Config) (t : Thread) (i : InstId) : Thread :=
  if cfg.hasBranchPredictor then
    if i ∈ t.inflightInsts then
      let following := (t.inflightInsts.dropWhile (· ≠ i)).tail.head?
      if following.isSome || t.advanceInstNeedsRetry then
        let t := t.freeBranchPredDepth
        let correctPC := (t.insts i).staticInst.advancePC (t.insts i).pcState
        let predictedPC := (following.map fun j => (t.insts j).pcState).getD t.advanceInstRetryPC
        if correctPC.pc = predictedPC.pc ∧ correctPC.upc = predictedPC.upc then t
        else (t.squashUpTo cfg i true).advanceInst cfg correctPC
      else t.advanceToNextPC cfg
    else t.fail .notInBuffer
  else t.advanceToNextPC cfg

/-- `roundDown(addr + size - 1, cache_line_size)`. -/
def splitAddr (cfg : Config) (acc : Access) : Addr :=
  (acc.addr + BitVec.ofNat 64 acc.size - 1) &&& ~~~(BitVec.ofNat 64 cfg.cacheLineSize - 1)

/-- `MemIface::initiateMemRead` and `MemIface::writeMem`. -/
def initiateMemAccess (cfg : Config) (t : Thread) (i : InstId) (acc : Access) : Thread :=
  let split : Bool := acc.addr < splitAddr cfg acc
  if split && acc.mmappedIpr then t.fail .splitMmappedIpr
  else
    (t.update i fun inst => { inst with access := some acc, isSplitMemReq := split }).request
      (.dtb i (if split then [.low, .high] else [.main]))

/-- The event that `requestExecution` schedules, with its callback. -/
def delayedCall (cfg : Config) (t : Thread) (i : InstId) : Thread :=
  let inst := t.insts i
  let si := inst.staticInst
  if t.alive i then
    match t.readOperands i with
    | .error p => t.fail p
    | .ok vals =>
      if si.isMemRef then
        match si.initiateAcc vals inst.pcState t.tc with
        | .ok acc => t.initiateMemAccess cfg i acc
        | .error f => if t.live i then t.markFault cfg i f else t
      else
        match si.execute vals inst.pcState t.tc with
        | .ok (results, pc) =>
          let t := t.update i fun inst => { inst.setResults results with pcState := pc }
          if t.live i then t.onExecutionCompleted cfg i none else t
        | .error f => if t.live i then t.onExecutionCompleted cfg i (some f) else t
  else t

/-- The size of one half of an access. -/
def halfSize (cfg : Config) (acc : Access) : Half → Addr
  | .main => BitVec.ofNat 64 acc.size
  | .low => splitAddr cfg acc - acc.addr
  | .high => acc.addr + BitVec.ofNat 64 acc.size - splitAddr cfg acc

/-- `effPAddrRange` and `effPAddrRangeHigh`. -/
def setPAddrs (cfg : Config) (t : Thread) (i : InstId) (half : Half) (paddr : Addr) : Thread :=
  t.update i fun inst =>
    let size := (inst.access.map fun acc => halfSize cfg acc half).getD 0
    let range : AddrRange := ⟨paddr, paddr + size - 1⟩
    if half = .high then { inst with accessedSplitPAddrs := some range }
    else { inst with accessedPAddrs := some range }

def onDataAddrTranslated (cfg : Config) (t : Thread) (i : InstId) (pending : List Half)
    (half : Half) (fault : Option Fault) (paddr : Addr) : Thread :=
  if t.live i then
    match fault with
    | some f => t.markFault cfg i f
    | none =>
      let t := t.setPAddrs cfg i half paddr
      if pending.erase half = [] then t.notify i .effAddr [.afterEffAddr i]
      else t.request (.dtb i (pending.erase half))
  else t

def packets (inst : InflightInst) (i : InstId) : List Packet :=
  (if inst.isSplitMemReq then [Half.low, Half.high] else [Half.main]).map fun h =>
    ⟨i, h, inst.staticInst.isStore⟩

/-- `requestMemRead`, `requestMemWrite` and their split variants. -/
def requestMem (t : Thread) (i : InstId) : Thread :=
  match (t.insts i).access with
  | none => t
  | some acc =>
    if acc.noAccess then t
    else { t with
      requests := t.requests ++ (packets (t.insts i) i).map fun p =>
        if acc.mmappedIpr then .memResp p else .mem p }

def sendToMemory (cfg : Config) (t : Thread) (i : InstId) : Thread :=
  let t := { t.setStatus i .memorying with sends := t.sends ++ [i] }
  let si := (t.insts i).staticInst
  if si.isStore then
    match si.completeAcc 0 (t.insts i).pcState t.tc with
    | .error f => t.markFault cfg i f
    | .ok vals => ((t.update i (·.setResults vals)).requestMem i).push [.commitAll false]
  else t.requestMem i

/-- The rest of `onDataAddrTranslated`. -/
def afterEffAddr (cfg : Config) (t : Thread) (i : InstId) : Thread :=
  if (t.insts i).isMemReady then t.sendToMemory cfg i
  else t.update i (·.addReadyCallback .mem (.sendToMemory i))

/-- The request that `memoryUnit` runs; a write keeps its own context alive. -/
def sendPacket (t : Thread) (p : Packet) : Thread :=
  if p.write || t.alive p.inst then
    ({ t with sent := t.sent ++ [p] }).request (.memResp p)
  else t

def awaitsPacket (i : InstId) : Request → Bool
  | .mem p => p.inst == i
  | .memResp p => p.inst == i
  | _ => false

/-- `completeMemAccess`, once the other half of a split access is back. -/
def completeMemAccess (cfg : Config) (t : Thread) (p : Packet) (data : Nat) : Thread :=
  let i := p.inst
  if t.requests.any (awaitsPacket i) then t
  else if p.write then t.onExecutionCompleted cfg i none
  else if t.alive i then
    match (t.insts i).staticInst.completeAcc data (t.insts i).pcState t.tc with
    | .ok vals =>
      let t := t.update i (·.setResults vals)
      if t.live i then t.onExecutionCompleted cfg i none else t
    | .error f => if t.live i then t.onExecutionCompleted cfg i (some f) else t
  else t

/-- `inst_ptr->effAddrOverlap(*other)` and, if it holds, `addMemDependency`. -/
def dependOnOverlap (t : Thread) (i other : InstId) : Thread :=
  if (t.insts i).addrsValid && (t.insts other).addrsValid then
    if (t.insts i).effAddrOverlap (t.insts other) then t.addDependency i .mem .completion other
    else t
  else t.fail .rangesNotValid

def runCallback (cfg : Config) (t : Thread) : Callback → Thread
  | .decrement g c => t.decrement g c
  | .overlapKnown i other =>
    if t.live other && !(t.insts other).isComplete then t.dependOnOverlap i other else t
  | .overlapOurs i other =>
    if t.live other && !(t.insts other).isComplete && (t.insts other).isEffAddred then
      t.dependOnOverlap i other
    else t
  | .overlapTheirs i other =>
    if t.live i && (t.insts i).isEffAddred then t.dependOnOverlap i other else t
  | .executeInstruction i => t.executeInstruction i
  | .sendToMemory i => if t.live i then t.sendToMemory cfg i else t
  | .squashPredictor _ => t
  | .releaseIfIncomplete _ => t

def canCommit (inst : InflightInst) : Bool :=
  !inst.isCommitted && (inst.isComplete || (inst.isMemorying && inst.staticInst.isStore))

def commitToTC (inst : InflightInst) (tc : ThreadContext) : ThreadContext :=
  { (inst.staticInst.destRegs.zip inst.results).foldl (fun tc d => tc.setReg d.1 (d.2.getD 0)) tc
    with pcState := inst.staticInst.advancePC inst.pcState }

def commitInstruction (t : Thread) (i : InstId) : Thread :=
  { t with
    tc := commitToTC (t.insts i) t.tc
    lastCommittedInstNum := (t.insts i).seqNum
    commits := t.commits ++ [((t.insts i).pcState.pc, (t.insts i).results)] }

def handleFault (cfg : Config) (t : Thread) (i : InstId) (f : Fault) : Thread :=
  ({ t with
    inflightInsts := []
    fetchBufBase := 0
    tc := cfg.invoke f (t.insts i).instRef t.tc }).advanceToNextPC cfg

def retryAdvance (cfg : Config) (t : Thread) (shrunk : Bool) : Thread :=
  if shrunk && t.advanceInstNeedsRetry then t.advanceInst cfg t.advanceInstRetryPC else t

/-- One round of the loop of `commitAllAvailableInstructions`. -/
def commitAllAvailableInstructions (cfg : Config) (t : Thread) (shrunk : Bool) : Thread :=
  match t.inflightInsts.head? with
  | none => t.retryAdvance cfg shrunk
  | some x =>
    if canCommit (t.insts x) || (t.insts x).squashed then
      match (t.insts x).fault with
      | some f => t.handleFault cfg x f
      | none =>
        if (t.insts x).squashed then t.push [.commitPop, .commitAll true]
        else (t.commitInstruction x).notify x .commit [.commitPop, .commitAll true]
    else t.retryAdvance cfg shrunk

def commitPop (t : Thread) : Thread := { t with inflightInsts := t.inflightInsts.tail }

/-- `BPredUnit::predict` rewrites the program counter of the branch in place; the
micro program counter stays. -/
def onBranchPredictorAccessed (cfg : Config) (t : Thread) (i : InstId) (taken : Bool)
    (target targetNpc : Addr) : Thread :=
  let inst := t.insts i
  let si := inst.staticInst
  if !t.alive i || inst.isCommitted || inst.squashed || inst.isComplete then
    t.freeBranchPredDepth
  else
    let pc := { inst.pcState with pc := target, npc := targetNpc }
    let knownWrong :=
      if si.isDirectCtrl && si.isUncondCtrl then !taken || si.branchTarget inst.pcState != pc
      else (si.isCall || si.isReturn) && !taken
    if knownWrong then t.freeBranchPredDepth
    else
      (t.update i fun inst =>
        { inst with
          squashCallbacks := inst.squashCallbacks ++ [.releaseIfIncomplete i] }).advanceInst
        cfg pc

end Thread

end Gem5.FlexCPU
