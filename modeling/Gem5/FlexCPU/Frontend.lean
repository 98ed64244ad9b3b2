import Gem5.FlexCPU.Thread

/-!
# Fetch, decode, branch prediction slots and squashing

`advanceInst`, `attemptFetch`, `onInstDataFetched`, `freeBranchPredDepth`,
`predictCtrlInst` and `squashUpTo` of `FlexCPUThread`.
-/

namespace Gem5.FlexCPU

namespace Thread

/-- `inflightInsts.push_back(make_shared<InflightInst>(...))`. -/
def allocate (t : Thread) (inst : InflightInst) : Thread :=
  { t with
    insts := Function.update t.insts t.nextInst inst
    nextInst := t.nextInst + 1
    inflightInsts := t.inflightInsts ++ [t.nextInst] }

def issueInstruction (t : Thread) (i : InstId) : Thread := t.request (.issue i)

/-- The object `advanceInst` creates, `Empty` and with its sequence number. -/
def freshInst (t : Thread) (nextPC : PCState) : InflightInst :=
  { status := .empty
    seqNum := t.lastCommittedInstNum + t.inflightInsts.length + 1
    pcState := nextPC }

def bufferFull (cfg : Config) (t : Thread) : Bool :=
  cfg.inflightInstsMaxSize != 0 && cfg.inflightInstsMaxSize ≤ t.inflightInsts.length

def advanceInst (cfg : Config) (t : Thread) (nextPC : PCState) : Thread :=
  if t.tc.status ≠ .active then t
  else if t.bufferFull cfg then
    { t with advanceInstNeedsRetry := true, advanceInstRetryPC := nextPC }
  else
    let t := { t with advanceInstNeedsRetry := false }
    if isRomMicroPC nextPC.upc then t.fail .romMicroop
    else match t.curMacroOp with
      | some macroOp =>
        let inst := (t.freshInst nextPC).setStaticInst (cfg.fetchMicroop macroOp nextPC.upc)
        (t.allocate { inst with status := .decoded }).issueInstruction t.nextInst
      | none =>
        { t.allocate (t.freshInst nextPC) with
          fetchOffset := 0
          calls := .attemptFetch t.nextInst :: t.calls }

/-- `BaseCPU::PCMask`. -/
def pcMask : Addr := ~~~3#64

def fetchBufMask (cfg : Config) : Addr := ~~~(BitVec.ofNat 64 cfg.fetchBufSize - 1)

/-- The address of the next word the decoder needs. -/
def fetchAddr (t : Thread) (i : InstId) : Addr :=
  ((t.insts i).pcState.pc &&& pcMask) + t.fetchOffset

def fetchBufHit (cfg : Config) (t : Thread) (vaddr : Addr) : Bool :=
  t.fetchBufBase != 0 && t.fetchBufBase ≤ vaddr
    && vaddr + 4 ≤ t.fetchBufBase + BitVec.ofNat 64 cfg.fetchBufSize

def onInstDataFetched (cfg : Config) (t : Thread) (i : InstId) (data : MachInst) : Thread :=
  let pc := (t.insts i).pcState
  match (t.decoder.moreBytes pc data).decode cfg.decodeInst pc with
  | (decoder, some (si, pc)) =>
    let t := { t with decoder := decoder, decodes := t.decodes ++ [(i, si)] }
    (t.update i fun inst =>
      { inst.setStaticInst si with pcState := pc, status := .decoded }).issueInstruction i
  | (decoder, none) =>
    { t with
      decoder := decoder
      fetchOffset := t.fetchOffset + 4
      calls := .attemptFetch i :: t.calls }

/-- The fetch buffer is indexed by virtual address. -/
def attemptFetch (cfg : Config) (t : Thread) (i : InstId) : Thread :=
  let vaddr := t.fetchAddr i
  if t.fetchBufHit cfg vaddr then t.onInstDataFetched cfg i (t.fetchBuf vaddr)
  else t.request (.itb i (vaddr &&& fetchBufMask cfg))

def bufferInstructionData (t : Thread) (vaddr : Addr) (data : Addr → MachInst) : Thread :=
  { t with fetchBufBase := vaddr, fetchBuf := if vaddr = 0 then t.fetchBuf else data }

def predictCtrlInst (t : Thread) (i : InstId) : Thread :=
  (t.update i fun inst =>
    { inst with
      squashCallbacks := inst.squashCallbacks ++ [.squashPredictor inst.issueSeqNum] }).request
    (.bpred i)

def freeBranchPredDepth (t : Thread) : Thread :=
  if t.remainingBranchPredDepth = 0 then
    let waiting := (t.lock t.unpredictedBranch).filter fun u =>
      t.back == some u && !t.advanceInstNeedsRetry
    let t := { t with unpredictedBranch := none }
    match waiting with
    | some u => t.predictCtrlInst u
    | none => { t with remainingBranchPredDepth := t.remainingBranchPredDepth + 1 }
  else { t with remainingBranchPredDepth := t.remainingBranchPredDepth + 1 }

def runSquashCallback (t : Thread) : Callback → Thread
  | .releaseIfIncomplete j => if (t.insts j).isComplete then t else t.freeBranchPredDepth
  | _ => t

def notifySquashed (t : Thread) (i : InstId) : Thread :=
  if (t.insts i).squashed then t
  else (t.insts i).squashCallbacks.foldl runSquashCallback
    (t.update i fun inst => { inst with squashed := true })

/-- `lastUses[dst_reg] = {inst_ptr, dst_idx}` for each destination in turn. -/
def populateUses (t : Thread) (i : InstId) : Thread :=
  { t with
    lastUses := (t.insts i).staticInst.destRegs.zipIdx.foldl
      (fun uses d => fun r => if r = d.1 then ⟨some i, d.2⟩ else uses r) t.lastUses }

/-- The instructions after `i`, youngest first. -/
def youngerThan (t : Thread) (i : InstId) : List InstId :=
  t.inflightInsts.reverse.takeWhile (· ≠ i)

/-- One round of the loop of `squashUpTo`. -/
def squashBack (t : Thread) (v : InstId) : Thread :=
  let t := t.notifySquashed v
  { t with inflightInsts := t.inflightInsts.dropLast }

def serializes (cfg : Config) (si : StaticInst) : Bool :=
  if cfg.strictSerialize then si.isSerializing else si.isSerializeAfter

/-- The reverse search of `squashUpTo` for the youngest instruction of a kind; the
weak pointer stays as it is when there is none, or when it was not squashed. -/
def rebuildLast (t : Thread) (victims : List InstId) (last : Option InstId)
    (kind : StaticInst → Bool) : Option InstId :=
  if victims.any (fun v => last == some v) then
    (t.inflightInsts.reverse.find? fun j => kind (t.insts j).staticInst).or last
  else last

def rebuildLasts (cfg : Config) (t : Thread) (victims : List InstId) : Thread :=
  let t := t.inflightInsts.foldl populateUses t
  { t with
    lastSerializingInstruction :=
      t.rebuildLast victims t.lastSerializingInstruction (serializes cfg)
    lastMemBarrier := t.rebuildLast victims t.lastMemBarrier (·.isMemBarrier) }

def squashUpTo (cfg : Config) (t : Thread) (i : InstId) (rebuild : Bool) : Thread :=
  let victims := t.youngerThan i
  let t := victims.foldl squashBack t
  let t := if rebuild then t.rebuildLasts cfg victims else t
  { t with decoder := .reset, curMacroOp := none }

/-- `hasNextPC`; a last instruction that is not decoded would be dereferenced. -/
def hasNextPC (t : Thread) : Bool :=
  match t.back with
  | none => true
  | some i => !(t.insts i).staticInst.isControl || (t.insts i).isComplete

def getNextPC (t : Thread) : PCState :=
  match t.back with
  | none => t.tc.pcState
  | some i => (t.insts i).staticInst.advancePC (t.insts i).pcState

/-- `advanceInst(getNextPC())` with the assertion of `getNextPC`. -/
def advanceToNextPC (cfg : Config) (t : Thread) : Thread :=
  if t.back.any (fun i => (t.insts i).instRef.isNone) then t.fail .noStaticInst
  else if t.hasNextPC then t.advanceInst cfg t.getNextPC
  else t.fail .nextPCUnknown

end Thread

end Gem5.FlexCPU
