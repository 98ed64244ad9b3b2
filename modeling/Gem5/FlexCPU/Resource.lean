import Gem5.FlexCPU.InflightInst
import Gem5.Lib.Runs

/-!
# The resources of FlexCPU

`Resource`, `MemoryResource`, `ResourceThreadsManaged` and `ResourceFetchDecision`
with their queues and the one event that serves them. A request may add requests and
schedule the resource while it runs, so `attemptAllRequests` is cut where a request
starts and where it returns: what happens in between are steps of their own.
-/

namespace Gem5.FlexCPU

/-- `Enums::FlexPolicy`. -/
inductive FlexPolicy where
  | singleThreaded
  | roundRobin
  | random
  | max
  | event
  | corse
  deriving DecidableEq

/-- What the selection functions read of an instruction at the front of a queue. -/
structure FrontView where
  isSquashed : Bool
  isReady : Bool
  isControl : Bool
  isMemRef : Bool

namespace FlexPolicy

variable (threads : Nat) (size : Nat → Nat) (front : Nat → Option FrontView)

/-- `size() && front().inst->isReady()`. -/
def frontReady (tid : Nat) : Bool := (front tid).any (·.isReady)

def frontUrgent (tid : Nat) : Bool :=
  (front tid).any fun v => v.isReady && (v.isControl || v.isMemRef)

/-- The threads after `priority`, in turn. -/
def turn (priority : Nat) : List Nat :=
  (List.range threads).map fun i => (priority + (i + 1)) % threads

/-- The first thread of a list that passes, which then has priority. -/
def choose (priority : Nat) (order : List Nat) (pass : Nat → Bool) :
    Option Nat × Nat :=
  match order.find? pass with
  | some tid => (some tid, tid)
  | none => (none, priority)

def roundRobinPriority (priority : Nat) : Option Nat × Nat :=
  choose priority (turn threads priority) (frontReady front)

def corsePriority (priority : Nat) : Option Nat × Nat :=
  choose priority ((List.range threads).map fun i => (priority + i) % threads) (frontReady front)

def eventPriority (priority : Nat) : Option Nat × Nat :=
  match choose priority (turn threads priority) (frontUrgent front) with
  | (some tid, priority) => (some tid, priority)
  | (none, _) => roundRobinPriority threads front priority

/-- `std::rand()` is cut to a `ThreadID` and its successor taken as a `size_t`; the last
thread tried is returned also when none is ready. -/
def randomPriority (rand : BitVec 16) : Option Nat :=
  let first := ((rand.toInt + 1) % 2 ^ 64).toNat % threads
  let order := (List.range threads).map fun i => (first + i) % threads
  (order.find? (frontReady front)).or order.getLast?

def maxPriority : Option Nat :=
  ((List.range threads).foldl (fun best tid =>
    if best.2 < size tid && frontReady front tid then (some tid, size tid) else best)
    ((none, 0) : Option Nat × Nat)).1

/-- `qid_select`, with the new value of `priority`. -/
def qidSelect (policy : FlexPolicy) (rand : BitVec 16) (priority : Nat) :
    Option Nat × Nat :=
  match policy with
  | singleThreaded => (some 0, priority)
  | roundRobin => roundRobinPriority threads front priority
  | random => (randomPriority threads front rand, priority)
  | max => (maxPriority threads size front, priority)
  | event => eventPriority threads front priority
  | corse => corsePriority threads front priority

end FlexPolicy

/-- `get_min_qid`: the thread with the shortest issue queue among those with a fetch
request. -/
def getMinQid (threads : Nat) (issueSize size : Nat → Nat) : Option Nat :=
  ((List.range threads).foldl (fun best tid =>
    if issueSize tid < best.2 && size tid != 0 then (some tid, issueSize tid) else best)
    ((none, 2 ^ 31 - 1) : Option Nat × Nat)).1

/-- The four classes. -/
inductive ResourceClass where
  | resource
  | memoryResource
  | resourceThreadsManaged (threadPolicy : FlexPolicy)
  | resourceFetchDecision
  deriving DecidableEq

/-- The constructor arguments and the clock; a bandwidth of zero is unlimited. -/
structure ResourceParams where
  cls : ResourceClass
  latency : Nat
  bandwidth : Int
  threads : Nat
  period : Nat

/-- The number of queues: one for each thread, or one in all. -/
def ResourceParams.queues (prm : ResourceParams) : Nat :=
  match prm.cls with
  | .resource => 1
  | .memoryResource => 1
  | .resourceThreadsManaged _ => prm.threads
  | .resourceFetchDecision => prm.threads

/-- `thread_attr`, with the tick and the order of its addition. -/
structure Queued (α : Type) where
  id : Nat
  tick : Nat
  inst : InstId
  func : α
  deriving DecidableEq

/-- How a request left its queue. -/
inductive Ending where
  | ran (tick : Nat) (result : Bool)
  | dropped
  deriving DecidableEq

/-- A request that left the queue of a thread. -/
structure Departure (α : Type) where
  tid : Nat
  request : Queued α
  outcome : Ending
  deriving DecidableEq

/-- Where `attemptAllRequests` stands. -/
inductive Stage where
  | idle
  | loop (chosen : Option Nat)
  | running (chosen : Nat)
  deriving DecidableEq

/-- A resource, the parts of the CPU it looks at, and what happened to its requests. -/
structure Resource (α : Type) where
  now : Nat := 0
  queues : Nat → List (Queued α) := fun _ => []
  usedBandwidth : Nat := 0
  lastActiveTick : Option Nat := none
  attemptAllEvent : Option Nat := none
  priority : Nat := 0
  stage : Stage := .idle
  portBlocked : Bool := false
  issueSize : Nat → Nat := fun _ => 0
  view : InstId → FrontView := fun _ => ⟨false, false, false, false⟩
  added : Nat → List (Queued α) := fun _ => []
  nextId : Nat := 0
  log : List (Departure α) := []

namespace Resource

variable {α : Type}

/-- `clockEdge(cycles)`. -/
def clockEdge (prm : ResourceParams) (now : Nat) (cycles : Nat) : Nat :=
  (now + (prm.period - 1)) / prm.period * prm.period + prm.period * cycles

def nextCycle (prm : ResourceParams) (now : Nat) : Nat := clockEdge prm now 1

/-- `there_is_no_any_request`, and `requests.empty()` for one queue. -/
def thereIsNoAnyRequest (prm : ResourceParams) (r : Resource α) : Bool :=
  (List.range prm.queues).all fun tid => (r.queues tid).isEmpty

def addRequest (r : Resource α) (tid : Nat) (inst : InstId) (func : α) : Resource α :=
  let q : Queued α := ⟨r.nextId, r.now, inst, func⟩
  { r with
    queues := Function.update r.queues tid (r.queues tid ++ [q])
    added := Function.update r.added tid (r.added tid ++ [q])
    nextId := r.nextId + 1 }

def schedule (prm : ResourceParams) (r : Resource α) : Resource α :=
  if !r.thereIsNoAnyRequest prm && r.attemptAllEvent.isNone then
    { r with attemptAllEvent := some (clockEdge prm r.now prm.latency) }
  else r

/-- `Resource::resourceAvailable`. -/
def bandwidthLeft (prm : ResourceParams) (r : Resource α) : Bool :=
  prm.bandwidth == 0 || r.usedBandwidth < prm.bandwidth

def resourceAvailable (prm : ResourceParams) (r : Resource α) (tid : Nat) : Bool :=
  match prm.cls with
  | .resource => r.bandwidthLeft prm
  | .memoryResource => !r.portBlocked && r.bandwidthLeft prm
  | .resourceThreadsManaged _ => r.bandwidthLeft prm
  | .resourceFetchDecision => !(r.portBlocked || 20 < r.issueSize tid) && r.bandwidthLeft prm

def squashed (r : Resource α) (q : Queued α) : Bool := (r.view q.inst).isSquashed

/-- `clean_squashed`. -/
def cleanSquashed (prm : ResourceParams) (r : Resource α) : Resource α :=
  { r with
    queues := fun tid => if tid < prm.queues then (r.queues tid).dropWhile r.squashed
      else r.queues tid
    log := r.log ++ (List.range prm.queues).flatMap fun tid =>
      ((r.queues tid).takeWhile r.squashed).map (⟨tid, ·, .dropped⟩) }

def frontView (r : Resource α) (tid : Nat) : Option FrontView :=
  (r.queues tid).head?.map fun q => r.view q.inst

/-- The queue that this event serves. -/
def select (prm : ResourceParams) (r : Resource α) (rand : BitVec 16) :
    Option Nat × Nat :=
  match prm.cls with
  | .resource => (some 0, r.priority)
  | .memoryResource => (some 0, r.priority)
  | .resourceThreadsManaged policy =>
    policy.qidSelect prm.threads (fun tid => (r.queues tid).length) r.frontView rand r.priority
  | .resourceFetchDecision =>
    (getMinQid prm.threads r.issueSize fun tid => (r.queues tid).length, r.priority)

def cleans (prm : ResourceParams) : Bool :=
  match prm.cls with
  | .resource => false
  | .memoryResource => false
  | .resourceThreadsManaged _ => true
  | .resourceFetchDecision => true

/-- The bandwidth is reset in a new tick. -/
def newTick (r : Resource α) : Resource α :=
  if r.lastActiveTick = some r.now then r
  else { r with usedBandwidth := 0, lastActiveTick := some r.now }

def prune (prm : ResourceParams) (r : Resource α) : Resource α :=
  if cleans prm then r.cleanSquashed prm else r

/-- `attemptAllRequests` up to its loop. -/
def enter (prm : ResourceParams) (r : Resource α) (rand : BitVec 16) : Resource α :=
  let r := r.newTick.prune prm
  if r.thereIsNoAnyRequest prm then r
  else { r with stage := .loop (r.select prm rand).1, priority := (r.select prm rand).2 }

/-- `attemptAllRequests` after its loop. -/
def leave (prm : ResourceParams) (r : Resource α) : Resource α :=
  if r.thereIsNoAnyRequest prm then { r with stage := .idle }
  else { r with stage := .idle, attemptAllEvent := some (nextCycle prm r.now) }

/-- The test of the loop, and the start of a request that passes it. -/
def iterate (prm : ResourceParams) (r : Resource α) (chosen : Option Nat) : Resource α :=
  match chosen with
  | some tid =>
    if (r.queues tid) ≠ [] ∧ r.resourceAvailable prm tid = true then
      { r with stage := .running tid }
    else r.leave prm
  | none => r.leave prm

/-- The request at the front returns and is popped. -/
def finish (r : Resource α) (tid : Nat) (result : Bool) : Resource α :=
  { r with
    usedBandwidth := if result then r.usedBandwidth + 1 else r.usedBandwidth
    queues := Function.update r.queues tid (r.queues tid).tail
    log := r.log ++ (r.queues tid).head?.toList.map (⟨tid, ·, .ran r.now result⟩)
    stage := .loop (some tid) }

/-- `addRequest` for each request, then `schedule`. -/
def submit (prm : ResourceParams) (r : Resource α) (tid : Nat)
    (requests : List (InstId × α)) : Resource α :=
  (requests.foldl (fun r q => r.addRequest tid q.1 q.2) r).schedule prm

inductive Event (α : Type) where
  | advance (tick : Nat)
  | fire (rand : BitVec 16)
  | proceed
  | finish (result : Bool)
  | submit (tid : Nat) (requests : List (InstId × α))
  | observe (view : InstId → FrontView) (issueSize : Nat → Nat)
  | block
  | retry

/-- Time passes between events and not beyond a scheduled one. Requests are added, and
the rest of the CPU changes, between events or while a request runs; what is squashed
stays squashed. -/
def step (prm : ResourceParams) (r : Resource α) : Event α → Resource α
  | .advance tick =>
    if r.stage = .idle ∧ r.now ≤ tick ∧ r.attemptAllEvent.all (tick ≤ ·) then { r with now := tick }
    else r
  | .fire rand =>
    if r.stage = .idle ∧ r.attemptAllEvent = some r.now then
      ({ r with attemptAllEvent := none }).enter prm rand
    else r
  | .proceed =>
    match r.stage with
    | .loop chosen => r.iterate prm chosen
    | _ => r
  | .finish result =>
    match r.stage with
    | .running tid => r.finish tid result
    | _ => r
  | .submit tid requests =>
    match r.stage with
    | .loop _ => r
    | _ => if tid < prm.queues then r.submit prm tid requests else r
  | .observe view issueSize =>
    match r.stage with
    | .loop _ => r
    | _ => { r with
        view := fun i => { view i with
          isSquashed := (view i).isSquashed || (r.view i).isSquashed }
        issueSize := issueSize }
  | .block =>
    match r.stage with
    | .loop _ => r
    | _ => { r with portBlocked := true }
  | .retry =>
    match r.stage with
    | .loop _ => r
    | _ => ({ r with portBlocked := false }).schedule prm

/-- The requests that left the queue of a thread, in order. -/
def departed (r : Resource α) (tid : Nat) : List (Queued α) :=
  (r.log.filter (·.tid = tid)).map (·.request)

abbrev Reachable (prm : ResourceParams) : Resource α → Prop :=
  Runs.Reaches (step prm) Runs.Free {}

end Resource

end Gem5.FlexCPU
