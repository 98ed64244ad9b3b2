import Gem5.Minor.PipeData
import Mathlib.Logic.Function.Basic

/-!
# The load/store queue of the Minor CPU

`LSQ` with its three queues, and the memory system behind its port. Request objects
are named by their order of creation; a deleted request is one that is in no queue.
What Execute knows of the instruction of a request, and what the port answers, are
arguments. Addresses are natural numbers: no access reaches the end of the address
space. Byte-enable masks are left out, as no RISC-V instruction passes one.
-/

namespace Gem5.Minor

abbrev ReqId := Nat

abbrev Byte := BitVec 8

/-- `LSQRequestState`. -/
inductive ReqState where
  | notIssued
  | inTranslation
  | translated
  | failed
  | requestIssuing
  | storeToStoreBuffer
  | requestNeedsRetry
  | storeInStoreBuffer
  | storeBufferIssuing
  | storeBufferNeedsRetry
  | complete
  deriving DecidableEq

/-- The subclasses of `LSQRequest`. -/
inductive ReqKind where
  | single
  | split
  | failed
  | barrier
  deriving DecidableEq

/-- The flags of a `Request` that the queue looks at. -/
structure Flags where
  strictlyOrdered : Bool := false
  llsc : Bool := false
  swap : Bool := false
  atomic : Bool := false
  mmappedIpr : Bool := false
  cacheMaintenance : Bool := false
  deriving DecidableEq

def Flags.union (f g : Flags) : Flags where
  strictlyOrdered := f.strictlyOrdered || g.strictlyOrdered
  llsc := f.llsc || g.llsc
  swap := f.swap || g.swap
  atomic := f.atomic || g.atomic
  mmappedIpr := f.mmappedIpr || g.mmappedIpr
  cacheMaintenance := f.cacheMaintenance || g.cacheMaintenance

/-- One of `fragmentRequests`; a single request has one fragment. -/
structure Fragment where
  vaddr : Nat
  size : Nat
  paddr : Nat := 0
  flags : Flags := {}

inductive AddrRangeCoverage where
  | partially
  | full
  | none
  deriving DecidableEq

/-- `LSQRequest` with the fields of its subclasses. The flag `packetSent` of a single
request is `numIssued ≠ 0`, and `packetInFlight` is `numIssued ≠ numRetired`. -/
structure LsqRequest where
  inst : InstId := ⟨0, 0, 0⟩
  instIsBarrier : Bool := false
  kind : ReqKind := .failed
  isLoad : Bool := true
  flags : Flags := {}
  vaddr : Nat := 0
  size : Nat := 0
  data : Nat → Byte := fun _ => 0
  fragments : List Fragment := []
  numTranslated : Nat := 0
  numIssued : Nat := 0
  numRetired : Nat := 0
  paddr : Nat := 0
  packet : Bool := false
  loaded : Nat → Byte := fun _ => 0
  fault : Bool := false
  skipped : Bool := false
  issuedToMemory : Bool := false
  state : ReqState := .notIssued

namespace LsqRequest

def containsAddrRangeOf (x y : LsqRequest) : AddrRangeCoverage :=
  if y.paddr + y.size ≤ x.paddr ∨ x.paddr + x.size ≤ y.paddr then .none
  else if x.paddr ≤ y.paddr ∧ y.paddr + y.size ≤ x.paddr + x.size then .full
  else .partially

def isBarrier (x : LsqRequest) : Bool := x.kind == .barrier || x.instIsBarrier

def isComplete (x : LsqRequest) : Bool := x.state == .complete

def needsToBeSentToStoreBuffer (x : LsqRequest) : Bool := x.state == .storeToStoreBuffer

def sentAllPackets (x : LsqRequest) : Bool :=
  match x.kind with
  | .single => x.numIssued != 0
  | .split => x.numIssued == x.numTranslated
  | _ => true

def hasPacketsInMemSystem (x : LsqRequest) : Bool :=
  match x.kind with
  | .single => x.numIssued != x.numRetired
  | .split => x.numIssued != x.numRetired
  | _ => false

def stepToNextPacket (x : LsqRequest) : LsqRequest := { x with numIssued := x.numIssued + 1 }

/-- `!(isStrictlyOrdered() || is_llsc || is_swap || is_atomic)`. -/
def bufferable (x : LsqRequest) : Bool :=
  !(x.flags.strictlyOrdered || x.flags.llsc || x.flags.swap || x.flags.atomic)

/-- Where fragment `k` stands in the data of the request. -/
def fragment (x : LsqRequest) (k : Nat) : Fragment := x.fragments.getD k ⟨x.vaddr, 0, 0, {}⟩

def offset (x : LsqRequest) (k : Nat) : Nat := (x.fragment k).vaddr - x.vaddr

/-- Paste the data of a fragment into the response. -/
def paste (x : LsqRequest) (k : Nat) (bytes : Nat → Byte) : Nat → Byte := fun i =>
  if x.offset k ≤ i ∧ i < x.offset k + (x.fragment k).size then bytes (i - x.offset k)
  else x.loaded i

/-- `retireResponse` of the two kinds of requests that have packets. -/
def retireResponse (x : LsqRequest) (k : Nat) (bytes : Nat → Byte) : LsqRequest :=
  match x.kind with
  | .single => { x with
      numRetired := x.numRetired + 1
      loaded := if x.isLoad then x.paste k bytes else x.loaded
      state := .complete }
  | .split =>
    let y := { x with
      numRetired := x.numRetired + 1
      loaded := if x.isLoad && !x.skipped then x.paste k bytes else x.loaded }
    if (y.skipped && !y.hasPacketsInMemSystem) || y.numRetired == y.numTranslated then
      { y with state := .complete }
    else y
  | _ => x

end LsqRequest

/-- The answer of the translation. -/
structure Translation where
  fault : Bool := false
  paddr : Nat := 0
  flags : Flags := {}

/-- The fields that `finish` writes. A split request is translated one fragment after the
other, and its physical address is that of the first one. -/
def LsqRequest.translate (x : LsqRequest) (a : Translation) : LsqRequest :=
  match x.kind with
  | .single => { x with
      fault := a.fault
      flags := x.flags.union a.flags
      fragments := x.fragments.map fun f => { f with paddr := a.paddr }
      numTranslated := 1
      paddr := a.paddr
      packet := !a.fault
      state := .translated }
  | .split =>
    let y := { x with
      fault := a.fault
      fragments := x.fragments.modify x.numTranslated fun f =>
        { f with paddr := a.paddr, flags := a.flags }
      numTranslated := x.numTranslated + 1 }
    if a.fault then { y with state := .translated }
    else if y.numTranslated = y.fragments.length then
      { y with
        flags := y.fragments.foldl (fun flags f => flags.union f.flags) y.flags
        paddr := (y.fragment 0).paddr
        packet := true
        state := .translated }
    else y
  | _ => x

/-- `makeFragmentRequests`: the fragments end at the boundaries of the lines. -/
def fragmentsFrom (line : Nat) : Nat → Nat → Nat → List Fragment
  | 0, _, _ => []
  | fuel + 1, addr, left =>
    if left = 0 then []
    else
      let size := min left (line - addr % line)
      ⟨addr, size, 0, {}⟩ :: fragmentsFrom line fuel (addr + size) (left - size)

/-- What an instruction passes to `pushRequest`. -/
structure Access where
  isLoad : Bool
  addr : Nat
  size : Nat
  data : Nat → Byte := fun _ => 0
  flags : Flags := {}

/-- `transferNeedsBurst`. -/
def Access.needsBurst (line : Nat) (a : Access) : Bool := line < a.addr % line + a.size

structure LsqParams where
  inMemorySystemLimit : Nat
  lineWidth : Nat
  requestsQueueSize : Nat
  transfersQueueSize : Nat
  storeBufferSize : Nat
  storeLimitPerCycle : Nat

/-- A packet in the memory system, with the data of a performed read. -/
structure Packet where
  req : ReqId
  frag : Nat
  performed : Bool := false
  bytes : Nat → Byte := fun _ => 0

/-- What happened to a request, for specifications. -/
inductive MemEvent where
  | sent (req : ReqId) (frag : Nat)
  | performed (req : ReqId) (frag : Nat) (bytes : Nat → Byte)
  | received (req : ReqId) (frag : Nat)
  | buffered (req : ReqId)

/-- `instIsRightStream` and `instIsHeadInst` of Execute. -/
structure View where
  instIsRightStream : InstId → Bool
  instIsHeadInst : InstId → Bool

/-- The answers of the port and of `handleLockedWrite`. -/
structure Port where
  accepted : Bool := true
  lockedWrite : Bool := true

structure Lsq where
  reqs : ReqId → LsqRequest := fun _ => {}
  nextReq : Nat := 0
  requests : List ReqId := []
  transfers : List ReqId := []
  slots : List ReqId := []
  numUnissuedAccesses : Nat := 0
  lastMemBarrier : Nat → Nat := fun _ => 0
  needsRetry : Bool := false
  numAccessesInMemorySystem : Nat := 0
  numStoresInTransfers : Nat := 0
  numAccessesIssuedToMemory : Nat := 0
  retryRequest : Option ReqId := none
  inMemory : List Packet := []
  memory : Nat → Byte := fun _ => 0
  trace : List MemEvent := []
  panicked : Bool := false

namespace Lsq

/-- Decrement of an `unsigned int`. -/
def dec (n : Nat) : Nat := if n = 0 then 2 ^ 32 - 1 else n - 1

def update (q : Lsq) (r : ReqId) (f : LsqRequest → LsqRequest) : Lsq :=
  { q with reqs := Function.update q.reqs r (f (q.reqs r)) }

def setState (q : Lsq) (r : ReqId) (s : ReqState) : Lsq :=
  q.update r fun x => { x with state := s }

def fail (q : Lsq) : Lsq := { q with panicked := true }

def create (q : Lsq) (x : LsqRequest) : Lsq :=
  { q with reqs := Function.update q.reqs q.nextReq x, nextReq := q.nextReq + 1 }

def canRequest (prm : LsqParams) (q : Lsq) : Bool := q.requests.length < prm.requestsQueueSize

def accessesInFlight (q : Lsq) : Bool := q.numAccessesIssuedToMemory != 0

def canSendToMemorySystem (prm : LsqParams) (q : Lsq) : Bool :=
  !q.needsRetry && q.numAccessesInMemorySystem < prm.inMemorySystemLimit

/-- `StoreBuffer::canInsert`. -/
def canPushIntoStoreBuffer (prm : LsqParams) (q : Lsq) : Bool :=
  q.slots.length < prm.storeBufferSize

/-- The state of a request after the port has taken a packet of it. -/
def issuingState : ReqState → Option ReqState
  | .translated => some .requestIssuing
  | .requestIssuing => some .requestIssuing
  | .storeInStoreBuffer => some .storeBufferIssuing
  | .storeBufferIssuing => some .storeBufferIssuing
  | _ => none

/-- The state of a request whose packet the port has refused. -/
def retryState : ReqState → Option ReqState
  | .translated => some .requestNeedsRetry
  | .requestIssuing => some .requestNeedsRetry
  | .storeInStoreBuffer => some .storeBufferNeedsRetry
  | .storeBufferIssuing => some .storeBufferNeedsRetry
  | _ => none

/-- The result says whether the last packet of the request was sent. -/
def tryToSend (prm : LsqParams) (port : Port) (q : Lsq) (r : ReqId) : Lsq × Bool :=
  let x := q.reqs r
  let all := x.stepToNextPacket.sentAllPackets
  if !q.canSendToMemorySystem prm then (q, false)
  else if x.flags.mmappedIpr then
    (q.update r fun x => { x.stepToNextPacket with
      state := if all then .complete else .requestIssuing }, all)
  else if port.accepted then
    match issuingState x.state with
    | none => (q.fail, false)
    | some s =>
      ({ q.update r fun x => { x.stepToNextPacket with state := s } with
        numAccessesInMemorySystem := q.numAccessesInMemorySystem + 1
        inMemory := q.inMemory ++ [{ req := r, frag := x.numIssued }]
        trace := q.trace ++ [.sent r x.numIssued] }, all)
  else
    match retryState x.state with
    | none => (q.fail, false)
    | some s => ({ q.setState r s with needsRetry := true, retryRequest := some r }, false)

def moveFromRequestsToTransfers (q : Lsq) (r : ReqId) : Lsq :=
  { q with
    requests := q.requests.tail
    transfers := q.transfers ++ [r]
    numStoresInTransfers :=
      if (q.reqs r).isLoad then q.numStoresInTransfers else q.numStoresInTransfers + 1 }

/-- A request that makes no access passes on to the transfers. -/
def skipToTransfers (q : Lsq) (r : ReqId) : Lsq :=
  (q.update r fun x => { x with state := .complete, skipped := true }).moveFromRequestsToTransfers r

/-- The test of one slot in `canForwardDataToLoad`. -/
def coverage (q : Lsq) (r s : ReqId) : AddrRangeCoverage :=
  let slot := q.reqs s
  if slot.packet && slot.inst.threadId == (q.reqs r).inst.threadId
      && !slot.flags.cacheMaintenance then
    slot.containsAddrRangeOf (q.reqs r)
  else .none

/-- The youngest slot that overlaps the request. -/
def canForwardDataToLoad (q : Lsq) (r : ReqId) : Option ReqId :=
  q.slots.reverse.find? fun s => q.coverage r s != .none

def forwardStoreData (q : Lsq) (r s : ReqId) : Lsq :=
  let store := q.reqs s
  q.update r fun x => { x with loaded := fun i => store.data (i + (x.paddr - store.paddr)) }

/-- The access to memory at the end of `tryToSendToTransfers`. -/
def access (prm : LsqParams) (port : Port) (q : Lsq) (r : ReqId) : Lsq :=
  if q.canSendToMemorySystem prm then
    let q :=
      if !(q.reqs r).bufferable && !(q.reqs r).issuedToMemory then
        { q.update r fun x => { x with issuedToMemory := true } with
          numAccessesIssuedToMemory := q.numAccessesIssuedToMemory + 1 }
      else q
    let sent := q.tryToSend prm port r
    if sent.2 then sent.1.moveFromRequestsToTransfers r else sent.1
  else q

/-- A request that needs no memory access passes on to the transfers. -/
def skipAccess (q : Lsq) (r : ReqId) : Lsq := (q.setState r .complete).moveFromRequestsToTransfers r

/-- `tryToSendToTransfers` for a request of the right stream that is not a bufferable
store. -/
def issueRequest (prm : LsqParams) (view : View) (port : Port) (q : Lsq) (r : ReqId) : Lsq :=
  let x := q.reqs r
  if !x.bufferable && !view.instIsHeadInst x.inst then q
  else if !x.bufferable && (q.canForwardDataToLoad r).isSome then q
  else if x.flags.llsc then
    if q.canSendToMemorySystem prm then
      if x.isLoad || port.lockedWrite then q.access prm port r else q.skipAccess r
    else q
  else if x.isLoad then
    match q.canForwardDataToLoad r with
    | some s => if q.coverage r s = .full then (q.forwardStoreData r s).skipAccess r else q
    | none => q.access prm port r
  else q.access prm port r

def tryToSendToTransfers (prm : LsqParams) (view : View) (port : Port) (q : Lsq) (r : ReqId) :
    Lsq :=
  let x := q.reqs r
  if q.needsRetry then q
  else if x.state = .inTranslation then q
  else if x.state ∉ [.translated, .requestIssuing, .failed, .complete] then q.fail
  else if q.requests.head? ≠ some r then q
  else if prm.transfersQueueSize ≤ q.transfers.length then q
  else if x.isComplete || x.state = .failed then q.skipToTransfers r
  else if !view.instIsRightStream x.inst then
    if x.hasPacketsInMemSystem then q else q.skipToTransfers r
  else if x.fault then q.skipToTransfers r
  else if x.isLoad then
    if q.numStoresInTransfers ≠ 0 then q else q.issueRequest prm view port r
  else if x.bufferable && !x.flags.mmappedIpr then
    (q.setState r .storeToStoreBuffer).moveFromRequestsToTransfers r
  else q.issueRequest prm view port r

/-- `finish`; between two fragments the next translation is started by an event. -/
def finish (prm : LsqParams) (view : View) (port : Port) (q : Lsq) (r : ReqId) (a : Translation) :
    Lsq :=
  let q' := q.update r (·.translate a)
  if (q'.reqs r).state = .translated then q'.tryToSendToTransfers prm view port r else q'

def clearMemBarrier (q : Lsq) (inst : InstId) : Lsq :=
  if q.lastMemBarrier inst.threadId ≤ inst.execSeqNum then
    { q with lastMemBarrier := Function.update q.lastMemBarrier inst.threadId 0 }
  else q

/-- The first loop of `StoreBuffer::step`. -/
def clearBarriers (q : Lsq) : List ReqId → Lsq
  | [] => { q with slots := [] }
  | s :: rest =>
    if (q.reqs s).isComplete && (q.reqs s).isBarrier then
      ({ q with numUnissuedAccesses := dec q.numUnissuedAccesses }.clearMemBarrier
        (q.reqs s).inst).clearBarriers rest
    else { q with slots := s :: rest }

def countIssuedStore (q : Lsq) (r : ReqId) : Lsq :=
  if (q.reqs r).isBarrier then q
  else { q with numUnissuedAccesses := dec q.numUnissuedAccesses }

/-- The second loop of `StoreBuffer::step`, over the slots from some position on. -/
def issueSlots (prm : LsqParams) : Lsq → List ReqId → Nat → List Port → Lsq
  | q, [], _, _ => q
  | q, s :: rest, count, ports =>
    if count < prm.storeLimitPerCycle && q.canSendToMemorySystem prm then
      let x := q.reqs s
      if x.isBarrier && x.isComplete then q
      else if x.state = .storeBufferIssuing && x.sentAllPackets then
        q.issueSlots prm rest count ports
      else
        let sent := q.tryToSend prm (ports.headD {}) s
        if sent.2 then (sent.1.countIssuedStore s).issueSlots prm rest (count + 1) ports.tail
        else sent.1
    else q

/-- `StoreBuffer::step`. -/
def stepStoreBuffer (prm : LsqParams) (q : Lsq) (ports : List Port) : Lsq :=
  if q.numUnissuedAccesses ≠ 0 && !q.needsRetry then
    let q := q.clearBarriers q.slots
    q.issueSlots prm q.slots 0 ports
  else q

def step (prm : LsqParams) (view : View) (port : Port) (ports : List Port) (q : Lsq) : Lsq :=
  let q := match q.requests with
    | [] => q
    | r :: _ => q.tryToSendToTransfers prm view port r
  q.stepStoreBuffer prm ports

def deleteRequest (q : Lsq) (r : ReqId) : Lsq := { q with slots := q.slots.erase r }

/-- `recvTimingResp` for the packet at position `k` of the memory system. -/
def recvTimingResp (q : Lsq) (k : Nat) : Lsq :=
  match q.inMemory[k]? with
  | none => q
  | some p =>
    let q := { q with
      inMemory := q.inMemory.eraseIdx k
      numAccessesInMemorySystem := dec q.numAccessesInMemorySystem
      trace := q.trace ++ [MemEvent.received p.req p.frag] }
    let retired := q.update p.req (·.retireResponse p.frag p.bytes)
    match (q.reqs p.req).state with
    | .requestIssuing => retired
    | .requestNeedsRetry => retired
    | .storeBufferIssuing =>
      if (retired.reqs p.req).isComplete && !(retired.reqs p.req).isBarrier then
        retired.deleteRequest p.req
      else retired
    | .storeBufferNeedsRetry =>
      if (retired.reqs p.req).isComplete && !(retired.reqs p.req).isBarrier then
        retired.deleteRequest p.req
      else retired
    | _ => q.fail

def recvReqRetry (prm : LsqParams) (port : Port) (q : Lsq) : Lsq :=
  match q.retryRequest with
  | none => q
  | some r =>
    let resend (s : ReqState) :=
      ({ q.setState r s with needsRetry := false }).tryToSend prm port r
    match (q.reqs r).state with
    | .requestNeedsRetry =>
      if (resend .translated).2 then
        { (resend .translated).1.moveFromRequestsToTransfers r with retryRequest := none }
      else (resend .translated).1
    | .storeBufferNeedsRetry =>
      if (resend .storeInStoreBuffer).2 then
        { (resend .storeInStoreBuffer).1.countIssuedStore r with retryRequest := none }
      else (resend .storeInStoreBuffer).1
    | _ => q.fail

/-- The request object that `pushRequest` makes, once its translation has started. -/
def newRequest (prm : LsqParams) (inst : InstId) (isBarrier : Bool) (a : Access) : LsqRequest where
  inst := inst
  instIsBarrier := isBarrier
  kind := if a.needsBurst prm.lineWidth then .split else .single
  isLoad := a.isLoad
  flags := a.flags
  vaddr := a.addr
  size := a.size
  data := a.data
  fragments :=
    if a.needsBurst prm.lineWidth then fragmentsFrom prm.lineWidth a.size a.addr a.size
    else [⟨a.addr, a.size, 0, {}⟩]
  state := .inTranslation

def pushRequest (prm : LsqParams) (q : Lsq) (inst : InstId) (isBarrier : Bool) (a : Access) : Lsq :=
  { q.create (newRequest prm inst isBarrier a) with requests := q.requests ++ [q.nextReq] }

def pushFailedRequest (q : Lsq) (inst : InstId) (isBarrier : Bool) : Lsq :=
  { q.create { inst := inst, instIsBarrier := isBarrier, kind := .failed, state := .failed } with
    requests := q.requests ++ [q.nextReq] }

def findResponse (prm : LsqParams) (q : Lsq) (inst : InstId) : Option ReqId :=
  q.transfers.head?.filter fun r =>
    let x := q.reqs r
    x.inst == inst
      && ((x.isComplete && !(x.isBarrier && !q.canPushIntoStoreBuffer prm))
        || (x.needsToBeSentToStoreBuffer && q.canPushIntoStoreBuffer prm))

def popResponse (q : Lsq) (r : ReqId) : Lsq :=
  { q with
    transfers := q.transfers.tail
    numStoresInTransfers :=
      if (q.reqs r).isLoad then q.numStoresInTransfers else dec q.numStoresInTransfers
    numAccessesIssuedToMemory :=
      if (q.reqs r).issuedToMemory then dec q.numAccessesIssuedToMemory
      else q.numAccessesIssuedToMemory }

/-- `StoreBuffer::insert`. -/
def insert (q : Lsq) (r : ReqId) : Lsq :=
  { q.update r fun x =>
      { x with state := if x.isComplete then .complete else .storeInStoreBuffer } with
    numUnissuedAccesses := q.numUnissuedAccesses + 1
    slots := q.slots ++ [r]
    trace := q.trace ++ [.buffered r] }

def sendStoreToStoreBuffer (q : Lsq) (r : ReqId) : Lsq := q.insert r

def issuedMemBarrierInst (q : Lsq) (inst : InstId) : Lsq :=
  { q with lastMemBarrier := Function.update q.lastMemBarrier inst.threadId inst.execSeqNum }

/-- A `BarrierDataRequest`. -/
def barrierRequest (inst : InstId) : LsqRequest where
  inst := inst
  instIsBarrier := true
  kind := .barrier
  state := .complete

def completeMemBarrierInst (q : Lsq) (inst : InstId) (inStoreBuffer committed : Bool) : Lsq :=
  if committed then
    if inStoreBuffer then q else (q.create (barrierRequest inst)).insert q.nextReq
  else q.clearMemBarrier inst

/-- Whether two packets touch a common byte. -/
def packetsOverlap (q : Lsq) (p p' : Packet) : Bool :=
  let f := (q.reqs p.req).fragment p.frag
  let f' := (q.reqs p'.req).fragment p'.frag
  f.paddr < f'.paddr + f'.size && f'.paddr < f.paddr + f.size

/-- The bytes that a write leaves; those of an atomic access or a store conditional are
up to the memory system. -/
def writtenBytes (x : LsqRequest) (k : Nat) (bytes : Nat → Byte) : Nat → Byte :=
  if x.flags.atomic || x.flags.swap || x.flags.llsc then bytes
  else fun i => x.data (x.offset k + i)

/-- The memory system performs a packet: any one that no earlier packet overlaps. -/
def perform (q : Lsq) (k : Nat) (bytes : Nat → Byte) : Lsq :=
  match q.inMemory[k]? with
  | none => q
  | some p =>
    if p.performed || (q.inMemory.take k).any (fun e => !e.performed && q.packetsOverlap e p) then q
    else
      let x := q.reqs p.req
      let f := x.fragment p.frag
      let written := writtenBytes x p.frag bytes
      let read : Nat → Byte := fun i => q.memory (f.paddr + i)
      { q with
        inMemory := q.inMemory.set k { p with performed := true, bytes := read }
        trace := if x.isLoad then q.trace else q.trace ++ [.performed p.req p.frag written]
        memory := fun a =>
          if !x.isLoad && !x.flags.cacheMaintenance && f.paddr ≤ a && a < f.paddr + f.size then
            written (a - f.paddr)
          else q.memory a }

end Lsq

end Gem5.Minor
