import Gem5.Minor.Queue

/-!
# The store buffer under every caller

The calls that Execute, the translation and the memory system make on the load/store queue,
in any order. A response can report an error.
-/

namespace Gem5.Minor

/-- `retireResponse`, also of a response with an error. The packet of a single request is
replaced by the response either way. -/
def LsqRequest.retireResponseOf (isError : Bool) (x : LsqRequest) (k : Nat) (bytes : Nat → Byte) :
    LsqRequest :=
  match x.kind with
  | .single => { x with
      numRetired := x.numRetired + 1
      loaded := if x.isLoad then x.paste k bytes else x.loaded
      state := .complete }
  | .split =>
    let y := { x with
      numRetired := x.numRetired + 1
      skipped := x.skipped || isError
      loaded := if x.isLoad && !x.skipped && !isError then x.paste k bytes else x.loaded }
    if (y.skipped && !y.hasPacketsInMemSystem) || y.numRetired == y.numTranslated then
      { y with state := .complete }
    else y
  | _ => x

namespace Lsq

/-- `recvTimingResp` for the packet at position `k` of the memory system. -/
def recvTimingRespOf (isError : Bool) (q : Lsq) (k : Nat) : Lsq :=
  match q.inMemory[k]? with
  | none => q
  | some p =>
    let q := { q with
      inMemory := q.inMemory.eraseIdx k
      numAccessesInMemorySystem := dec q.numAccessesInMemorySystem
      trace := q.trace ++ [MemEvent.received p.req p.frag] }
    let retired := q.update p.req (·.retireResponseOf isError p.frag p.bytes)
    let cleared :=
      if (retired.reqs p.req).isComplete && !(retired.reqs p.req).isBarrier then
        retired.deleteRequest p.req
      else retired
    match (q.reqs p.req).state with
    | .requestIssuing => retired
    | .requestNeedsRetry => retired
    | .storeBufferIssuing => cleared
    | .storeBufferNeedsRetry => cleared
    | _ => q.fail

end Lsq

/-- A call on the load/store queue, with the answers of those that it asks. -/
inductive LsqCall where
  | pushRequest (inst : InstId) (isBarrier : Bool) (access : Access)
  | pushFailedRequest (inst : InstId) (isBarrier : Bool)
  | finish (view : View) (port : Port) (req : ReqId) (translation : Translation)
  | step (view : View) (port : Port) (ports : List Port)
  | perform (packet : Nat) (bytes : Nat → Byte)
  | recvTimingResp (packet : Nat) (isError : Bool)
  | recvReqRetry (port : Port)
  | popResponse (inst : InstId)
  | sendStoreToStoreBuffer (inst : InstId)
  | issuedMemBarrierInst (inst : InstId)
  | completeMemBarrierInst (inst : InstId) (inStoreBuffer committed : Bool)

namespace Lsq

/-- A call has no result where it is not made, and after a panic. A store that Execute sends
to the store buffer leaves the transfers at once. -/
def call (prm : LsqParams) (q : Lsq) (c : LsqCall) : Option Lsq :=
  if q.panicked then none
  else
    match c with
    | .pushRequest inst isBarrier access => some (q.pushRequest prm inst isBarrier access)
    | .pushFailedRequest inst isBarrier => some (q.pushFailedRequest inst isBarrier)
    | .finish view port r translation =>
      if (q.reqs r).state = .inTranslation then some (q.finish prm view port r translation)
      else none
    | .step view port ports => some (q.step prm view port ports)
    | .perform k bytes => some (q.perform k bytes)
    | .recvTimingResp k isError =>
      if k < q.inMemory.length then some (q.recvTimingRespOf isError k) else none
    | .recvReqRetry port => if q.needsRetry then some (q.recvReqRetry prm port) else none
    | .popResponse inst => (q.findResponse prm inst).map q.popResponse
    | .sendStoreToStoreBuffer inst =>
      ((q.findResponse prm inst).filter fun r => (q.reqs r).needsToBeSentToStoreBuffer).map
        fun r => (q.sendStoreToStoreBuffer r).popResponse r
    | .issuedMemBarrierInst inst => some (q.issuedMemBarrierInst inst)
    | .completeMemBarrierInst inst inStoreBuffer committed =>
      some (q.completeMemBarrierInst inst inStoreBuffer committed)

/-- The states that calls lead to, from the constructor on, when every call is `ok`. -/
inductive Reached (prm : LsqParams) (ok : Lsq → LsqCall → Bool) : Lsq → Prop where
  | init : Reached prm ok {}
  | call {q q' : Lsq} {c : LsqCall} (before : Reached prm ok q) (meets : ok q c = true)
      (called : q.call prm c = some q') : Reached prm ok q'

/-- Make the calls of a list in order. -/
def run (prm : LsqParams) (ok : Lsq → LsqCall → Bool) : Lsq → List LsqCall → Option Lsq
  | q, [] => some q
  | q, c :: rest => if ok q c then (q.call prm c).bind (run prm ok · rest) else none

theorem Reached.run {prm : LsqParams} {ok : Lsq → LsqCall → Bool} {q q' : Lsq}
    {calls : List LsqCall} (before : Reached prm ok q) (ran : q.run prm ok calls = some q') :
    Reached prm ok q' := by
  induction calls generalizing q with
  | nil => exact Option.some.inj ran ▸ before
  | cons c rest ih =>
    rw [Lsq.run] at ran
    split at ran
    next meets =>
      obtain ⟨mid, called, ran⟩ := Option.bind_eq_some_iff.mp ran
      exact ih (.call before meets called) ran
    next => cases ran

/-- The packets that the port has accepted, in order. -/
def accepted (q : Lsq) : List (ReqId × Nat) :=
  q.trace.filterMap fun
    | .sent r k => some (r, k)
    | _ => none

/-- The requests that have been put in the store buffer, in order. -/
def inserted (q : Lsq) : List ReqId :=
  q.trace.filterMap fun
    | .buffered r => some r
    | _ => none

def numAccepted (q : Lsq) (r : ReqId) : Nat := q.accepted.countP (·.1 == r)

/-- A barrier, or a store that still has packets to send. -/
def unissued (q : Lsq) (r : ReqId) : Bool :=
  (q.reqs r).isBarrier || decide (q.numAccepted r < (q.reqs r).fragments.length)

/-- One packet comes before another by the order of the slots. -/
def SlotOrder (q : Lsq) (a b : ReqId × Nat) : Prop :=
  a.1 = b.1 ∧ a.2 < b.2 ∨ q.inserted.idxOf a.1 < q.inserted.idxOf b.1

/-- The counters of the store buffer are right, and its packets are accepted in order. -/
structure Accounts (prm : LsqParams) (q : Lsq) : Prop where
  unissued : q.numUnissuedAccesses = q.slots.countP q.unissued
  inMemory : q.numAccessesInMemorySystem = q.inMemory.length
  limit : q.numAccessesInMemorySystem ≤ prm.inMemorySystemLimit
  order : (q.accepted.filter fun e => decide (e.1 ∈ q.inserted)).Pairwise q.SlotOrder
  ahead : q.slots.Pairwise fun s t =>
    0 < q.numAccepted t → q.numAccepted s = (q.reqs s).fragments.length

/-- The response ends a split store of the store buffer that has more packets to send: the
response, or an earlier one, is an error, and no other packet is in flight. -/
def cutsShort (q : Lsq) : LsqCall → Bool
  | .recvTimingResp k isError => (q.inMemory[k]?).any fun p =>
    let x := q.reqs p.req
    decide (p.req ∈ q.slots) && x.kind == .split && !x.isBarrier && (x.skipped || isError)
      && x.numIssued == x.numRetired + 1 && x.numIssued != x.numTranslated
  | _ => false

end Lsq

end Gem5.Minor
