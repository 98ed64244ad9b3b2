import Gem5.FlexCPU.Invariant

/-!
# What a step can do

Every step of the thread is a sequence of moves. A move states the change and the
facts that the code, or the invariant, establishes before it, so that a property
of all runs is proved by looking at the moves and never at the handlers.
-/

namespace Gem5.FlexCPU

namespace Thread

/-- In the buffer, unsquashed, in status `s`, and not carried by any token. -/
structure Idle (t : Thread) (i : InstId) (s : Status) : Prop where
  mem : i ∈ t.inflightInsts
  unsquashed : (t.insts i).squashed = false
  stage : stage t.requests t.calls i = 0
  status : (t.insts i).status = s

/-- No pending call relies on the buffer. -/
def Quiet (t : Thread) : Prop := ∀ c ∈ t.calls, c.protects = false

/-- The last instruction is issued and has no successor yet. -/
structure CanAdvance (t : Thread) : Prop where
  quiet : t.Quiet
  settled : .commitPop ∉ t.calls
  issued : ∀ l, t.back = some l → Status.issued ≤ (t.insts l).status
  unsquashed : ∀ l, t.back = some l → (t.insts l).squashed = false
  control : ∀ l, t.back = some l → (t.insts l).staticInst.isControl = true →
    Status.complete ≤ (t.insts l).status ∨ Predicted (t.insts l) l

/-- Where `advanceInst` gets its program counter from. -/
def NextPC (t : Thread) (pc : PCState) : Prop :=
  pc = t.getNextPC ∧ t.hasNextPC = true
    ∨ t.advanceInstNeedsRetry = true ∧ pc = t.advanceInstRetryPC

/-- A request that is dropped without further effect. -/
def Spent (t : Thread) : Request → Prop
  | .bpred _ => False
  | .mem p => p.write = false ∧ t.alive p.inst = false
  | _ => True

/-- Removal of the first request of its queue. -/
structure Serves (t : Thread) (r : Request) (before after : List Request) : Prop where
  split : t.requests = before ++ r :: after
  first : r.queue.isSome = true → ∀ q ∈ before, q.queue ≠ r.queue

/-- `advanceInst` on a full buffer. -/
def stall (t : Thread) (pc : PCState) : Thread :=
  { t with advanceInstNeedsRetry := true, advanceInstRetryPC := pc }

/-- `advanceInst` on a buffer with room. -/
def extend (t : Thread) (pc : PCState) : Thread :=
  { t.allocate (t.freshInst pc) with
    advanceInstNeedsRetry := false
    fetchOffset := 0
    calls := .attemptFetch t.nextInst :: t.calls }

/-- The branch is predicted and releases its slot if it is squashed. -/
def holdSlot (t : Thread) (i : InstId) : Thread :=
  t.update i fun inst =>
    { inst with squashCallbacks := inst.squashCallbacks ++ [.releaseIfIncomplete i] }

/-- The state in which a branch can ask for a prediction. -/
structure Unpredicted (cfg : Config) (t : Thread) (i : InstId) : Prop where
  predictor : cfg.hasBranchPredictor = true
  control : (t.insts i).staticInst.isControl = true
  issued : Status.issued ≤ (t.insts i).status
  unsquashed : (t.insts i).squashed = false
  unpredicted : ¬ Predicted (t.insts i) i
  unasked : .bpred i ∉ t.requests
  back : t.back = some i
  incomplete : (t.insts i).status < .complete
  retry : t.advanceInstNeedsRetry = false

/-- `sendToMemory` up to `notifyMemorying`. -/
def enterMemory (t : Thread) (i : InstId) : Thread :=
  { t.setStatus i .memorying with sends := t.sends ++ [i] }

/-- The state in which an instruction may be sent to memory. -/
structure CanSend (t : Thread) (i : InstId) : Prop extends t.Idle i .effAddred where
  memRef : (t.insts i).staticInst.isMemRef = true
  ready : (t.insts i).remaining .mem = 0
  overlaps : ∀ c ∈ t.calls, ∀ other, c ≠ .run (.overlapKnown i other)
    ∧ c ≠ .run (.overlapOurs i other)
  quiet : (t.insts i).staticInst.isStore = true → t.Quiet

end Thread

open Thread

/-- Event `e` serves request `r` in state `o`. -/
def Event.Serves (e : Event) (o : Thread) (r : Request) : Prop :=
  ∃ k ans, e = .serve k ans ∧ o.requests[k]? = some r ∧ o.servable k r ans = true

/-- Why instruction `i` is given fault `f`. -/
def FaultCause (e : Event) (t : Thread) (i : InstId) (f : Fault) : Prop :=
  (∃ k ans, e = .serve k ans ∧ ans.fault = some f)
    ∨ (∃ vals, (t.insts i).staticInst.execute vals (t.insts i).pcState t.tc = .error f)
    ∨ (t.insts i).staticInst.isMemRef = true

/-- `Move cfg o e t t'`: in the step that event `e` causes in state `o`, the thread
moves from `t` to `t'`. -/
inductive Move (cfg : Config) (o : Thread) (e : Event) : Thread → Thread → Prop where
  | drop {t : Thread} {r before after} (serves : t.Serves r before after)
      (spent : t.Spent r) (calls : t.calls = []) :
      Move cfg o e t { t with requests := before ++ after }
  | enqueue {t : Thread} {i r} (token : r.isToken i = true)
      (fits : (t.insts i).squashed = true ∨ t.Idle i (t.insts i).status ∧ r.Fits (t.insts i))
      (unit : r.queue ≠ some .issueThreadUnit
        ∧ (r.queue = some .instFetchUnit → (t.insts i).squashed = false)) :
      Move cfg o e t (t.request r)
  | fill {t : Thread} {vaddr data} (answer : ∃ k ans, e = .serve k ans ∧ data = ans.fetched) :
      Move cfg o e t (t.bufferInstructionData vaddr data)
  | refetch {t : Thread} {i} (idle : t.Idle i .empty) (calls : t.calls = []) :
      Move cfg o e t (t.push [.attemptFetch i])
  | fetchWord {t : Thread} {i decoder} (idle : t.Idle i .empty) (quiet : t.Quiet)
      (word : (t.decoder.moreBytes (t.insts i).pcState (t.fetchBuf (t.fetchAddr i))).decode
        cfg.decodeInst (t.insts i).pcState = (decoder, none)) :
      Move cfg o e t { t with
        decoder := decoder
        fetchOffset := t.fetchOffset + 4
        calls := .attemptFetch i :: t.calls }
  | decode {t : Thread} {i decoder si pc} (idle : t.Idle i .empty)
      (word : (t.decoder.moreBytes (t.insts i).pcState (t.fetchBuf (t.fetchAddr i))).decode
        cfg.decodeInst (t.insts i).pcState = (decoder, some (si, pc)))
      (hit : t.fetchBufHit cfg (t.fetchAddr i) = true)
      (origin : o = { t with calls := .attemptFetch i :: t.calls }) :
      Move cfg o e t (({ t with decoder := decoder, decodes := t.decodes ++ [(i, si)] }).update i
        fun inst => { inst.setStaticInst si with pcState := pc, status := .decoded })
  | issue {t : Thread} {i before after} (idle : t.Idle i .decoded) (back : t.back = some i)
      (calls : t.calls = []) (served : e.Serves o (.issue i))
      (origin : t = { o with requests := before ++ after }) :
      Move cfg o e t (t.enterIssue cfg i)
  | stall {t : Thread} {pc} (can : t.CanAdvance) (full : t.bufferFull cfg = true)
      (active : t.tc.status = .active) (next : t.NextPC pc) :
      Move cfg o e t (t.stall pc)
  | extend {t : Thread} {pc} (can : t.CanAdvance) (room : t.bufferFull cfg = false)
      (active : t.tc.status = .active) (next : t.NextPC pc) :
      Move cfg o e t (t.extend pc)
  | reserve {t : Thread} {i} (can : t.Unpredicted cfg i) (depth : 0 < t.remainingBranchPredDepth)
      (other : t.unpredictedBranch ≠ some i) (calls : t.calls = []) :
      Move cfg o e t (({ t with
        remainingBranchPredDepth := t.remainingBranchPredDepth - 1 }).predictCtrlInst i)
  | defer {t : Thread} {i} (can : t.Unpredicted cfg i) (depth : t.remainingBranchPredDepth = 0)
      (calls : t.calls = []) :
      Move cfg o e t { t with unpredictedBranch := some i }
  | release {t : Thread} {i before after} (serves : t.Serves (.bpred i) before after)
      (calls : t.calls = []) :
      Move cfg o e t ({ t with requests := before ++ after }).freeBranchPredDepth
  | predictStall {t : Thread} {i before after pc} (serves : t.Serves (.bpred i) before after)
      (can : ({ t with requests := before ++ after }).Unpredicted cfg i) (calls : t.calls = [])
      (full : t.bufferFull cfg = true) (active : t.tc.status = .active)
      (micro : pc.upc = (t.insts i).pcState.upc ∧ pc.nupc = (t.insts i).pcState.nupc) :
      Move cfg o e t ((({ t with requests := before ++ after }).holdSlot i).stall pc)
  | predictExtend {t : Thread} {i before after pc} (serves : t.Serves (.bpred i) before after)
      (can : ({ t with requests := before ++ after }).Unpredicted cfg i) (calls : t.calls = [])
      (room : t.bufferFull cfg = false) (active : t.tc.status = .active)
      (micro : pc.upc = (t.insts i).pcState.upc ∧ pc.nupc = (t.insts i).pcState.nupc) :
      Move cfg o e t ((({ t with requests := before ++ after }).holdSlot i).extend pc)
  | enterTid {t : Thread} {i} (idle : t.Idle i .issued) (calls : t.calls = [])
      (ready : (t.insts i).remaining .exec = 0) :
      Move cfg o e t ((t.setStatus i .issuedTid).push [.run (.executeInstruction i)])
  | waitTid {t : Thread} {i} (idle : t.Idle i .issued) (calls : t.calls = [])
      (unready : (t.insts i).remaining .exec ≠ 0) :
      Move cfg o e t ((t.setStatus i .issuedTid).update i
        (·.addReadyCallback .exec (.executeInstruction i)))
  | execute {t : Thread} {i} (idle : t.Idle i .issuedTid)
      (ready : (t.insts i).remaining .exec = 0)
      (below : ∀ c ∈ t.calls, Call.Above (.run (.executeInstruction i)) c)
      (origin : o = { t with calls := .run (.executeInstruction i) :: t.calls }) :
      Move cfg o e t
        (({ t with executed := t.executed ++ [i] }).notify i .beginExec [.requestExecution i])
  | requestExecution {t : Thread} {i} (idle : t.Idle i .executing)
      (once : (t.insts i).fired .beginExec = 1)
      (below : ∀ c ∈ t.calls, Call.Above (.requestExecution i) c) :
      Move cfg o e t (t.requestExecution i)
  | setAccess {t : Thread} {i acc split}
      (idle : (t.insts i).squashed = true ∨ t.Idle i .executing) :
      Move cfg o e t (t.update i fun inst => { inst with access := some acc, isSplitMemReq := split })
  | execResult {t : Thread} {i vals results pc}
      (idle : (t.insts i).squashed = true ∨ t.Idle i .executing)
      (plain : (t.insts i).staticInst.isMemRef = false)
      (operands : t.readOperands i = .ok vals)
      (value : (t.insts i).staticInst.execute vals (t.insts i).pcState t.tc = .ok (results, pc)) :
      Move cfg o e t (t.update i fun inst => { inst.setResults results with pcState := pc })
  | loadResult {t : Thread} {p before after vals} (serves : t.Serves (.memResp p) before after)
      (read : p.write = false) (calls : t.calls = []) :
      Move cfg o e t (({ t with requests := before ++ after }).update p.inst (·.setResults vals))
  | complete {t : Thread} {i}
      (unsquashed : (t.insts i).squashed = false) (allocated : i < t.nextInst)
      (stage : stage t.requests t.calls i = 0) (pending : (t.insts i).fired .completion = 0)
      (packets : t.requests.any (awaitsPacket i) = false)
      (status : i ∈ t.inflightInsts ∧ (t.insts i).status = .executing
          ∧ (t.insts i).fired .beginExec = 2 ∧ (t.insts i).staticInst.isMemRef = false
        ∨ i ∈ t.inflightInsts ∧ (t.insts i).status = .memorying
          ∧ (t.insts i).staticInst.isMemRef = true
        ∨ (t.insts i).status = .committed ∧ (t.insts i).staticInst.isStore = true)
      (calls : t.calls = [])
      (served : e.Serves o (.delayedCall i) ∧ (t.insts i).status = .executing
        ∨ ∃ p, e.Serves o (.memResp p) ∧ p.inst = i ∧ o.calls = []
          ∧ o.requests.countP (awaitsPacket i) = 1 ∧ (o.insts i).status = (t.insts i).status) :
      Move cfg o e t (t.onExecutionCompleted cfg i none)
  | setPAddrs {t : Thread} {i half paddr} (idle : t.Idle i .executing)
      (memRef : (t.insts i).staticInst.isMemRef = true) (calls : t.calls = []) :
      Move cfg o e t (t.setPAddrs cfg i half paddr)
  | effAddr {t : Thread} {i} (idle : t.Idle i .executing)
      (twice : (t.insts i).fired .beginExec = 2)
      (memRef : (t.insts i).staticInst.isMemRef = true) (calls : t.calls = []) :
      Move cfg o e t (t.notify i .effAddr [.afterEffAddr i])
  | awaitMem {t : Thread} {i} (idle : t.Idle i .effAddred)
      (memRef : (t.insts i).staticInst.isMemRef = true)
      (unready : (t.insts i).remaining .mem ≠ 0) (unused : (t.insts i).onReady .mem = []) :
      Move cfg o e t (t.update i (·.addReadyCallback .mem (.sendToMemory i)))
  | sendLoad {t : Thread} {i} (can : t.CanSend i)
      (load : (t.insts i).staticInst.isStore = false) :
      Move cfg o e t ((t.enterMemory i).requestMem i)
  | sendStore {t : Thread} {i vals} (can : t.CanSend i)
      (store : (t.insts i).staticInst.isStore = true) :
      Move cfg o e t ((((t.enterMemory i).update i (·.setResults vals)).requestMem i).push
        [.commitAll false])
  | sendFault {t : Thread} {i f} (can : t.CanSend i)
      (store : (t.insts i).staticInst.isStore = true) :
      Move cfg o e t ((t.enterMemory i).markFault cfg i f)
  | fault {t : Thread} {i f} (idle : t.Idle i (t.insts i).status)
      (kind : (t.insts i).status = .empty ∨ (t.insts i).status = .executing
        ∨ (t.insts i).status = .memorying ∧ (t.insts i).staticInst.isStore = false)
      (packets : t.requests.any (awaitsPacket i) = false) (calls : t.calls = [])
      (cause : FaultCause e t i f) :
      Move cfg o e t (t.markFault cfg i f)
  | transmit {t : Thread} {p before after} (serves : t.Serves (.mem p) before after)
      (alive : (p.write || t.alive p.inst) = true) (calls : t.calls = []) :
      Move cfg o e t { t with
        requests := before ++ after ++ [.memResp p]
        sent := t.sent ++ [p] }
  | decrement {t : Thread} {g c rest} (calls : t.calls = .run (.decrement g c) :: rest) :
      Move cfg o e t (({ t with calls := rest }).decrement g c)
  | overlap {t : Thread} {cb rest i other} (calls : t.calls = .run cb :: rest)
      (kind : cb = .overlapKnown i other ∨ cb = .overlapOurs i other
        ∨ cb = .overlapTheirs i other)
      (fine : (({ t with calls := rest }).runCallback cfg cb).panicked = none) :
      Move cfg o e t (({ t with calls := rest }).runCallback cfg cb)
  | pop {t : Thread} {c rest} (calls : t.calls = c :: rest)
      (kind : c.carries = true ∨ (∃ shrunk, c = .commitAll shrunk)
        ∨ ∃ cb, c = .run cb ∧ ((∃ n, cb = .squashPredictor n) ∨ ∃ i, cb = .releaseIfIncomplete i)) :
      Move cfg o e t { t with calls := rest }
  | resolveCorrect {t : Thread} {i rest} (calls : t.calls = .resolveControl i :: rest)
      (predictor : cfg.hasBranchPredictor = true)
      (followed : t.back ≠ some i ∨ t.advanceInstNeedsRetry = true)
      (correct : ∀ pc, (((t.inflightInsts.dropWhile (· ≠ i)).tail.head?.map fun j =>
          (t.insts j).pcState).getD t.advanceInstRetryPC) = pc →
        ((t.insts i).staticInst.advancePC (t.insts i).pcState).pc = pc.pc
          ∧ ((t.insts i).staticInst.advancePC (t.insts i).pcState).upc = pc.upc) :
      Move cfg o e t ({ t with calls := rest }).freeBranchPredDepth
  | resolveWrong {t : Thread} {i rest} (calls : t.calls = .resolveControl i :: rest)
      (predictor : cfg.hasBranchPredictor = true)
      (followed : t.back ≠ some i ∨ t.advanceInstNeedsRetry = true) :
      Move cfg o e t { (({ t with calls := rest }).freeBranchPredDepth).squashUpTo cfg i true with
        advanceInstNeedsRetry := false }
  | resolveUnpredicted {t : Thread} {i rest} (calls : t.calls = .resolveControl i :: rest)
      (back : t.back = some i) (retry : t.advanceInstNeedsRetry = false) :
      Move cfg o e t { t with calls := rest }
  | commit {t : Thread} {x} (front : t.inflightInsts.head? = some x)
      (unsquashed : (t.insts x).squashed = false)
      (status : (t.insts x).status = .complete
        ∨ (t.insts x).status = .memorying ∧ (t.insts x).staticInst.isStore = true)
      (quiet : t.Quiet) :
      Move cfg o e t ((t.commitInstruction x).notify x .commit [.commitPop, .commitAll true])
  | popFront {t : Thread} {rest} (calls : t.calls = .commitPop :: rest) :
      Move cfg o e t { t with calls := rest, inflightInsts := t.inflightInsts.tail }
  | reset {t : Thread} {x f} (buffer : t.inflightInsts = [x])
      (squashed : (t.insts x).squashed = true) (fault : (t.insts x).fault = some f)
      (quiet : t.Quiet) :
      Move cfg o e t { t with
        inflightInsts := []
        fetchBufBase := 0
        tc := cfg.invoke f (t.insts x).instRef t.tc }
  | wake {t : Thread} (calls : t.calls = []) (inactive : t.tc.status ≠ .active) :
      Move cfg o e t { t with tc := { t.tc with status := .active } }

end Gem5.FlexCPU
