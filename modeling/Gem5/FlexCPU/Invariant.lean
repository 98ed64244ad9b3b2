import Gem5.FlexCPU.Step
import Gem5.Lib.Latch
import Gem5.Lib.Lists

/-!
# The invariant of a FlexCPU thread

An unsquashed instruction is carried from stage to stage by a single token: a
queued request or a pending call. The token fixes the status of its instruction,
so every milestone is announced a known number of times, and the two counters are
explained by the announcements still to come. Each group of facts mentions only
the parts of the state it is about.
-/

namespace Gem5.FlexCPU

abbrev Insts := InstId → InflightInst

namespace Request

def inst : Request → InstId
  | itb i _ => i
  | fetch i _ => i
  | fetchResp i _ => i
  | issue i => i
  | issueTid i => i
  | exec i => i
  | delayedCall i => i
  | bpred i => i
  | dtb i _ => i
  | mem p => p.inst
  | memResp p => p.inst

/-- The requests that carry an instruction to its next stage. -/
def carries : Request → Bool
  | bpred _ => false
  | mem _ => false
  | memResp _ => false
  | _ => true

def isToken (i : InstId) (r : Request) : Bool := r.carries && r.inst == i

/-- What a request says about its instruction. -/
def Fits : Request → InflightInst → Prop
  | itb .., x => x.status = .empty
  | fetch .., x => x.status = .empty
  | fetchResp .., x => x.status = .empty
  | issue _, x => x.status = .decoded
  | issueTid _, x => x.status = .issued
  | exec _, x => x.status = .executing ∧ x.fired .beginExec = 2
  | delayedCall _, x => x.status = .executing ∧ x.fired .beginExec = 2
  | dtb .., x => x.status = .executing ∧ x.fired .beginExec = 2 ∧ x.staticInst.isMemRef = true
  | bpred _, _ => True
  | mem p, x => x.fired .completion = 0 ∧ x.staticInst.isMemRef = true
      ∧ p.write = x.staticInst.isStore
      ∧ (x.status = .memorying ∨ x.staticInst.isStore = true ∧ x.status = .committed)
  | memResp p, x => x.fired .completion = 0 ∧ x.staticInst.isMemRef = true
      ∧ p.write = x.staticInst.isStore
      ∧ (x.status = .memorying ∨ x.staticInst.isStore = true ∧ x.status = .committed)

end Request

/-- The instruction a callback acts on. -/
def Callback.inst : Callback → Option InstId
  | decrement _ c => some c
  | overlapKnown i _ => some i
  | overlapOurs i _ => some i
  | overlapTheirs i _ => some i
  | executeInstruction i => some i
  | sendToMemory i => some i
  | squashPredictor _ => none
  | releaseIfIncomplete i => some i

namespace Call

def inst : Call → Option InstId
  | run cb => cb.inst
  | requestExecution i => some i
  | resolveControl i => some i
  | afterEffAddr i => some i
  | attemptFetch i => some i
  | commitAll _ => none
  | commitPop => none

/-- The calls that carry an instruction to its next stage. -/
def carries : Call → Bool
  | run (.executeInstruction _) => true
  | run (.sendToMemory _) => true
  | requestExecution _ => true
  | afterEffAddr _ => true
  | attemptFetch _ => true
  | _ => false

def isToken (i : InstId) (c : Call) : Bool := c.carries && c.inst == some i

def Fits : Call → InflightInst → Prop
  | run (.executeInstruction _), x => x.status = .issuedTid
  | run (.sendToMemory _), x =>
      x.status = .effAddred ∧ x.staticInst.isMemRef = true ∧ x.onReady .mem ≠ []
  | requestExecution _, x => x.status = .executing ∧ x.fired .beginExec = 1
  | afterEffAddr _, x =>
      x.status = .effAddred ∧ x.staticInst.isMemRef = true ∧ x.onReady .mem = []
  | attemptFetch _, x => x.status = .empty
  | _, _ => True

/-- The calls whose instruction must stay in the buffer until they run. -/
def protects : Call → Bool
  | requestExecution _ => true
  | resolveControl _ => true
  | afterEffAddr _ => true
  | attemptFetch _ => true
  | _ => false

/-- `Above a b`: call `a` may stand above `b` on the stack. -/
def Above (a : Call) : Call → Prop
  | requestExecution _ =>
    match a with
    | run (.decrement .exec _) => True
    | run (.executeInstruction _) => True
    | requestExecution _ => True
    | _ => False
  | afterEffAddr i =>
    match a with
    | run (.overlapKnown ..) => True
    | run (.overlapOurs ..) => True
    | run (.overlapTheirs ..) => True
    | run (.decrement .mem c) => i < c
    | run (.sendToMemory c) => i < c
    | _ => False
  | resolveControl i =>
    match a with
    | run (.decrement .exec _) => True
    | run (.decrement .mem c) => i < c
    | run (.sendToMemory c) => i < c
    | run (.executeInstruction _) => True
    | requestExecution _ => True
    | _ => False
  | attemptFetch _ => False
  | commitPop => a ≠ commitPop ∧ a ≠ commitAll true
  | _ => True

/-- What the overlap callbacks need below them on the stack: the dependency they
add has to be in place before the memory counter can reach zero. -/
def Needs (c : Call) (below : List Call) : Prop :=
  match c with
  | run (.overlapTheirs i other) => run (.decrement .mem i) ∈ below ∧ other < i
  | run (.overlapKnown i other) => afterEffAddr i ∈ below ∧ other < i
  | run (.overlapOurs i other) => afterEffAddr i ∈ below ∧ other < i
  | _ => True

end Call

/-- The tokens of one instruction. -/
def stage (reqs : List Request) (calls : List Call) (i : InstId) : Nat :=
  reqs.countP (Request.isToken i) + calls.countP (Call.isToken i)

/-- The decrements that registered dependencies will still cause. -/
def due (insts : Insts) (g : Gate) (c : InstId) : Nat :=
  Latch.due (fun d : Milestone × InstId => d.1.announcements)
    (fun d => (insts d.2).fired d.1) ((insts c).deps g)

def owed (insts : Insts) (calls : List Call) (g : Gate) (c : InstId) : Nat :=
  due insts g c + calls.count (.run (.decrement g c))

/-- The decrements beyond one for each dependency. -/
def surplus (insts : Insts) (g : Gate) (c : InstId) : Nat :=
  ((insts c).deps g).countP (·.1 = .beginExec)

/-- A counter holds what is owed to it, less the surplus, as a `size_t`. -/
def Exact (insts : Insts) (calls : List Call) (g : Gate) (c : InstId) : Prop :=
  surplus insts g c ≤ owed insts calls g c
      ∧ (insts c).remaining g = owed insts calls g c - surplus insts g c
    ∨ owed insts calls g c < surplus insts g c
      ∧ (insts c).remaining g = 2 ^ 64 - (surplus insts g c - owed insts calls g c)

/-- A prediction was followed, and the slot is released when `i` is squashed. -/
def Predicted (x : InflightInst) (i : InstId) : Prop :=
  .releaseIfIncomplete i ∈ x.squashCallbacks

def readyCallback : Gate → InstId → Callback
  | .exec, i => .executeInstruction i
  | .mem, i => .sendToMemory i

/-- The closures that wait for the effective address of `p`. -/
def EffAddrCallback (p : InstId) : Callback → Prop
  | .decrement _ _ => True
  | .overlapKnown i other => i = p ∧ other < p
  | .overlapOurs i other => i = p ∧ other < p
  | .overlapTheirs i other => other = p ∧ p < i
  | _ => False

def OverlapFirst (cb : Callback) (later : List Callback) : Prop :=
  match cb with
  | .overlapTheirs i _ => .decrement .mem i ∈ later
  | _ => True

structure Heap (insts : Insts) (buf : List InstId) (reqs : List Request) (calls : List Call)
    (next : InstId) : Prop where
  ordered : buf.Pairwise (· < ·)
  bounded : ∀ i ∈ buf, i < next
  fresh : ∀ i, next ≤ i → insts i = {}
  allocated : ∀ i, i < next → (insts i).status ≠ .invalid
  requests_lt : ∀ r ∈ reqs, r.inst < next
  calls_lt : ∀ c ∈ calls, ∀ i, c.inst = some i → i < next
  callbacks_lt : ∀ p m, ∀ cb ∈ (insts p).callbacks m, ∀ i, cb.inst = some i → i < next
  parents_lt : ∀ c g, ∀ d ∈ (insts c).deps g, d.2 < c
  newest : ∀ i ∈ buf, (insts i).status < .issued → i + 1 = next

/-- The weak pointers to earlier instructions point to issued ones. -/
structure Lasts (insts : Insts) (serializing barrier : Option InstId)
    (uses : RegId → DataSource) (next : InstId) : Prop where
  serializing : ∀ j, serializing = some j → j < next ∧ Status.issued ≤ (insts j).status
  barrier : ∀ j, barrier = some j → j < next ∧ Status.issued ≤ (insts j).status
  uses : ∀ r j, (uses r).producer = some j → j < next ∧ Status.issued ≤ (insts j).status

/-- The shape of the callback vectors. -/
structure Callbacks (insts : Insts) : Prop where
  registered : ∀ m p g c,
    ((insts p).callbacks m).count (.decrement g c) = ((insts c).deps g).count (m, p)
  plain : ∀ m p, m ≠ .effAddr → ∀ cb ∈ (insts p).callbacks m, ∃ g c, cb = .decrement g c
  effAddr : ∀ p, ∀ cb ∈ (insts p).callbacks .effAddr, EffAddrCallback p cb
  overlapFirst : ∀ p, Tails.EachTail OverlapFirst ((insts p).callbacks .effAddr)
  ready : ∀ i g, (insts i).onReady g = [] ∨ (insts i).onReady g = [readyCallback g i]
  mem_kind : ∀ c, ∀ d ∈ (insts c).deps .mem, d.1 ≠ .beginExec
  exec_kind : ∀ c, ∀ d ∈ (insts c).deps .exec, d.1 ≠ .effAddr
  surplus_le : ∀ c, surplus insts .exec c ≤ 1

/-- Some `shared_ptr` to the instruction exists. -/
def Held (buf : List InstId) (reqs : List Request) (c : InstId) : Prop :=
  c ∈ buf ∨ ∃ r ∈ reqs, r.holds c = true

def Counters (insts : Insts) (buf : List InstId) (reqs : List Request) (calls : List Call) : Prop :=
  ∀ c, Held buf reqs c → (insts c).squashed = false → ∀ g, Exact insts calls g c

/-- How statuses, announcements and the buffer go together. -/
structure Milestones (insts : Insts) (buf : List InstId) (next : InstId) : Prop where
  fired_le : ∀ i m, (insts i).fired m ≤ m.announcements
  fired_zero : ∀ i m, (insts i).squashed = false → m ≠ .commit →
    (insts i).status < m.status → (insts i).fired m = 0
  committed_iff : ∀ i ∈ buf, (insts i).squashed = false →
    ((insts i).status = .committed ↔ (insts i).fired .commit = 1)
  left : ∀ i, i < next → i ∉ buf → (insts i).squashed = false →
    (insts i).fired .commit = 1
      ∧ ((insts i).status = .committed
        ∨ (insts i).staticInst.isStore = true ∧ (insts i).status = .complete)
  unissued : ∀ i, (insts i).status < .issued →
    (∀ g, (insts i).deps g = []) ∧ (insts i).squashCallbacks = []
  decoded : ∀ i, (insts i).instRef.isSome = true ↔ Status.decoded ≤ (insts i).status

structure Tokens (insts : Insts) (reqs : List Request) (calls : List Call) : Prop where
  single : ∀ i, (insts i).squashed = false → stage reqs calls i ≤ 1
  request_fits : ∀ r ∈ reqs, (insts r.inst).squashed = false → r.Fits (insts r.inst)
  call_fits : ∀ c ∈ calls, ∀ i, c.inst = some i → (insts i).squashed = false → c.Fits (insts i)
  waiting_exec : ∀ i, (insts i).squashed = false → (insts i).onReady .exec ≠ [] →
    Status.issuedTid ≤ (insts i).status
      ∧ (surplus insts .exec i < owed insts calls .exec i →
        (insts i).status = .issuedTid ∧ stage reqs calls i = 0)
  waiting_mem : ∀ i, (insts i).squashed = false → (insts i).onReady .mem ≠ [] →
    Status.effAddred ≤ (insts i).status
      ∧ (0 < owed insts calls .mem i →
        (insts i).status = .effAddred ∧ stage reqs calls i = 0
          ∧ (insts i).staticInst.isMemRef = true)

structure Stack (insts : Insts) (buf : List InstId) (calls : List Call) : Prop where
  above : calls.Pairwise Call.Above
  needs : Tails.EachTail Call.Needs calls
  protects : ∀ c ∈ calls, c.protects = true → ∀ i, c.inst = some i →
    i ∈ buf ∧ (insts i).squashed = false
  resolving : ∀ i, .resolveControl i ∈ calls →
    (insts i).status = .complete ∧ (insts i).staticInst.isControl = true ∧ .commitPop ∉ calls

/-- The buffer between its two ends. -/
structure Buffer (insts : Insts) (buf : List InstId) (calls : List Call) (lastCommitted max : Nat)
    (status : TCStatus) : Prop where
  issued : ∀ i ∈ buf, buf.getLast? ≠ some i → Status.issued ≤ (insts i).status
  squashed : ∀ i ∈ buf, (insts i).squashed = true →
    buf.getLast? = some i ∧ (insts i).fault.isSome = true ∧ (insts i).fired .commit = 0
  size : max ≠ 0 → buf.length ≤ max
  numbered : ∀ k i, buf[k]? = some i →
    (insts i).seqNum + (if .commitPop ∈ calls then 1 else 0) = lastCommitted + k + 1
  active : status ≠ .active → buf = []
  popping : .commitPop ∈ calls ↔ ∃ i, buf.head? = some i ∧ (insts i).fired .commit = 1
  uncommitted : ∀ i ∈ buf, buf.head? ≠ some i → (insts i).fired .commit = 0

/-- Control instructions and the end of the buffer. -/
structure Control (insts : Insts) (buf : List InstId) (reqs : List Request) (calls : List Call)
    (retry : Bool) (unpredicted : Option InstId) (hasPredictor : Bool) : Prop where
  followed : ∀ i ∈ buf, (insts i).squashed = false → (insts i).staticInst.isControl = true →
    Status.issued ≤ (insts i).status →
    ((insts i).status < .complete ∨ .resolveControl i ∈ calls) →
    (buf.getLast? ≠ some i ∨ retry = true) → Predicted (insts i) i
  asked : ∀ i, .bpred i ∈ reqs → (insts i).squashed = false →
    hasPredictor = true ∧ (insts i).staticInst.isControl = true
      ∧ Status.issued ≤ (insts i).status ∧ ¬ Predicted (insts i) i ∧ reqs.count (.bpred i) = 1
  predicted : ∀ i, Predicted (insts i) i → hasPredictor = true
  squashCallbacks : ∀ i, ∀ cb ∈ (insts i).squashCallbacks,
    (∃ n, cb = .squashPredictor n) ∨ cb = .releaseIfIncomplete i
  waiting : ∀ u, unpredicted = some u →
    hasPredictor = true ∧ (insts u).staticInst.isControl = true
      ∧ Status.issued ≤ (insts u).status
      ∧ ((insts u).squashed = false → ¬ Predicted (insts u) u ∧ .bpred u ∉ reqs)
  retrying : retry = true → ∀ i, buf.getLast? = some i →
    Status.issued ≤ (insts i).status ∧ (insts i).squashed = false

/-- Only the instruction that a fault was marked on carries one. -/
def Faults (insts : Insts) (buf : List InstId) : Prop :=
  ∀ i ∈ buf, (insts i).squashed = false → (insts i).fault = none

/-- An issued store waits for the commit of everything older that is in flight. -/
def Stores (insts : Insts) (buf : List InstId) : Prop :=
  ∀ c ∈ buf, (insts c).squashed = false → (insts c).staticInst.isStore = true →
    Status.issued ≤ (insts c).status →
    ∀ p ∈ buf, p < c → (insts p).fired .commit = 0 →
      ∃ q, p ≤ q ∧ (.commit, q) ∈ (insts c).deps .mem ∧ (insts q).fired .commit = 0

/-- The packet of an outstanding memory access. -/
def Request.packet : Request → Option Packet
  | mem p => some p
  | memResp p => some p
  | _ => none

/-- A write is outstanding only once everything older has committed, so that no squash
reaches it. -/
def Writes (insts : Insts) (buf : List InstId) (reqs : List Request) : Prop :=
  ∀ r ∈ reqs, ∀ p, r.packet = some p → p.write = true →
    (insts p.inst).squashed = false
      ∧ ∀ j ∈ buf, j < p.inst → (insts j).fired .commit = 1

/-- A memory counter that is not zero belongs to a memory reference that is still to be sent. -/
def Settled (insts : Insts) : Prop :=
  ∀ i, (insts i).squashed = false → 0 < (insts i).remaining .mem →
    (insts i).staticInst.isMemRef = true ∧ (insts i).status < .memorying

/-- The invariant without the groups that look at two instructions at once. -/
structure Core (cfg : Config) (t : Thread) : Prop where
  heap : Heap t.insts t.inflightInsts t.requests t.calls t.nextInst
  callbacks : Callbacks t.insts
  counters : Counters t.insts t.inflightInsts t.requests t.calls
  milestones : Milestones t.insts t.inflightInsts t.nextInst
  tokens : Tokens t.insts t.requests t.calls
  stack : Stack t.insts t.inflightInsts t.calls
  buffer : Buffer t.insts t.inflightInsts t.calls t.lastCommittedInstNum
    cfg.inflightInstsMaxSize t.tc.status
  control : Control t.insts t.inflightInsts t.requests t.calls t.advanceInstNeedsRetry
    t.unpredictedBranch cfg.hasBranchPredictor
  stores : Stores t.insts t.inflightInsts
  lasts : Lasts t.insts t.lastSerializingInstruction t.lastMemBarrier t.lastUses t.nextInst
  noMacroOp : t.curMacroOp = none

structure Inv (cfg : Config) (t : Thread) : Prop extends Core cfg t where
  faults : Faults t.insts t.inflightInsts
  writes : Writes t.insts t.inflightInsts t.requests
  settled : Settled t.insts

end Gem5.FlexCPU
