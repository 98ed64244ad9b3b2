import Gem5.FlexCPU.Backend
import Gem5.Lib.Runs

/-!
# The FlexCPU thread as a machine

An event is the activation of the thread or the service of one outstanding
request, with whatever the resource answers. Requests on a FIFO resource are
served in order; between resources every order is possible. Between two events
the calls left by the handler run to the end.
-/

namespace Gem5.FlexCPU

/-- What the environment decides when it serves a request. -/
structure Answer where
  fault : Option Fault := none
  taken : Bool := false
  target : Addr := 0
  targetNpc : Addr := 0
  fetched : Addr → MachInst := fun _ => 0
  paddr : Addr := 0
  half : Half := .main
  data : Nat := 0

inductive Event where
  | activate
  | serve (k : Nat) (ans : Answer)

namespace Thread

def runCall (cfg : Config) (t : Thread) : Call → Thread
  | .run cb => t.runCallback cfg cb
  | .requestExecution i => t.requestExecution i
  | .commitAll shrunk => t.commitAllAvailableInstructions cfg shrunk
  | .commitPop => t.commitPop
  | .resolveControl i => t.resolveControl cfg i
  | .afterEffAddr i => t.afterEffAddr cfg i
  | .attemptFetch i => t.attemptFetch cfg i

def serveRequest (cfg : Config) (t : Thread) (ans : Answer) : Request → Thread
  | .itb i vaddr =>
    if t.live i then
      match ans.fault with
      | some f => t.markFault cfg i f
      | none => t.request (.fetch i vaddr)
    else t
  | .fetch i vaddr => if (t.insts i).squashed then t else t.request (.fetchResp i vaddr)
  | .fetchResp i vaddr =>
    let t := t.bufferInstructionData vaddr ans.fetched
    if t.live i then t.push [.attemptFetch i] else t
  | .issue i => if t.live i then t.onIssueAccessed cfg i else t
  | .issueTid i => if (t.insts i).squashed then t else t.onIssueTidAccessed i
  | .exec i => if t.alive i then t.request (.delayedCall i) else t
  | .delayedCall i => t.delayedCall cfg i
  | .bpred i => t.onBranchPredictorAccessed cfg i ans.taken ans.target ans.targetNpc
  | .dtb i pending => t.onDataAddrTranslated cfg i pending ans.half ans.fault ans.paddr
  | .mem p => t.sendPacket p
  | .memResp p => t.completeMemAccess cfg p ans.data

/-- Whether the environment can serve request `k` now. -/
def servable (t : Thread) (k : Nat) (r : Request) (ans : Answer) : Bool :=
  (r.queue.isNone || (t.requests.take k).all fun q => q.queue != r.queue)
    && match r with
      | .dtb _ pending => pending.contains ans.half
      | _ => true

/-- A context is activated when it is not active; a system call that suspends its
own thread has left an empty buffer. -/
def activate (cfg : Config) (t : Thread) : Thread :=
  if t.tc.status = .active then t
  else ({ t with tc := { t.tc with status := .active } }).advanceToNextPC cfg

def handleEvent (cfg : Config) (t : Thread) : Event → Thread
  | .activate => t.activate cfg
  | .serve k ans =>
    match t.requests[k]? with
    | none => t
    | some r =>
      if t.servable k r ans then
        ({ t with requests := t.requests.eraseIdx k }).serveRequest cfg ans r
      else t

/-- A panic stops the simulation in the state where it struck. -/
def settle (t r : Thread) : Thread :=
  match r.panicked with
  | some p => t.fail p
  | none => r

def step (cfg : Config) (t : Thread) (e : Event) : Thread :=
  if t.panicked.isSome then t
  else match t.calls with
    | c :: rest => settle t (({ t with calls := rest }).runCall cfg c)
    | [] => settle t (t.handleEvent cfg e)

/-- States a thread can reach from its construction. -/
def Reachable (cfg : Config) (tc : ThreadContext) : Thread → Prop :=
  Runs.Reaches (step cfg) Runs.Free (init cfg tc)

end Thread

end Gem5.FlexCPU
