import Mathlib.Algebra.GroupWithZero.Nat
import Mathlib.Data.Finset.Card
import Mathlib.Data.List.Basic
import Mathlib.Logic.Function.Basic

/-!
# The queues of the DRAM controller

A packet is split at the boundaries of the bursts. A burst of a read is served by a queued write
or waits in the read queue and then in the response queue; the bursts of a write are queued or
merged. Banks, time and power are left out, and so is the choice between the bursts of a queue.
-/

namespace Gem5.Mem.Dram

/-- The burst size is an `unsigned` power of two, as the constructor checks. -/
structure Params where
  burstSize : Nat
  readBufferSize : Nat
  writeBufferSize : Nat
  writeHighThreshold : Nat
  writeLowThreshold : Nat
  minWritesPerSwitch : Nat
  numPriorities : Nat
  burstPow : burstSize.isPowerOfTwo
  ranged : burstSize < 2 ^ 32

structure Packet where
  addr : Nat
  size : Nat
  isWrite : Bool
  masterId : Nat
  deriving DecidableEq

/-- The fields of a `DRAMPacket` that never change. Packets are named by the number of packets
accepted before them, and a helper by its packet. -/
structure Burst where
  pkt : Nat
  masterId : Nat
  addr : Nat
  size : Nat
  burstHelper : Option Nat
  deriving DecidableEq

structure DRAMPacket extends Burst where
  qosValue : Nat
  deriving DecidableEq

structure BurstHelper where
  burstCount : Nat
  burstsServiced : Nat
  deriving DecidableEq

inductive BusState where
  | read
  | write
  deriving DecidableEq

/-- An accepted packet, the address and size of each of its bursts, and of those that a queued
write served. -/
structure Accepted where
  pkt : Packet
  bursts : List (Nat × Nat)
  fromWrQ : List (Nat × Nat)

end Dram

open Dram

/-- The last three fields record what the controller has done: the packets it has accepted, the
bursts that have left the response queue, and the calls of `accessAndRespond`. -/
structure DRAMCtrl where
  readQueue : Nat → List DRAMPacket
  writeQueue : Nat → List DRAMPacket
  isInWriteQueue : Finset Nat
  respQueue : List DRAMPacket
  totalReadQueueSize : Nat
  totalWriteQueueSize : Nat
  retryRdReq : Bool
  retryWrReq : Bool
  respondEvent : Bool
  busState : BusState
  busStateNext : BusState
  writesThisTime : Nat
  helpers : Nat → Option BurstHelper
  accepted : List Accepted
  served : List Burst
  responses : List Nat

namespace DRAMCtrl

variable (prm : Params) (c : DRAMCtrl)

def new : DRAMCtrl where
  readQueue _ := []
  writeQueue _ := []
  isInWriteQueue := ∅
  respQueue := []
  totalReadQueueSize := 0
  totalWriteQueueSize := 0
  retryRdReq := false
  retryWrReq := false
  respondEvent := false
  busState := .read
  busStateNext := .read
  writesThisTime := 0
  helpers _ := none
  accepted := []
  served := []
  responses := []

def burstAlign (addr : Nat) : Nat := addr - (addr &&& (prm.burstSize - 1))

/-- The address after the burst of `addr`. -/
def nextAddr (addr : Nat) : Nat := ((addr ||| (prm.burstSize - 1)) + 1) % 2 ^ 64

/-- The size of the burst of `pkt` at `addr`, a difference of addresses made `unsigned`. -/
def partSize (pkt : Packet) (addr : Nat) : Nat :=
  (min (nextAddr prm addr) ((pkt.addr + pkt.size) % 2 ^ 64) + 2 ^ 64 - addr) % 2 ^ 64 % 2 ^ 32

/-- `divCeil(offset + size, burstSize)`, as `unsigned` numbers. -/
def dramPktCount (pkt : Packet) : Nat :=
  ((pkt.addr &&& (prm.burstSize - 1)) + pkt.size + prm.burstSize - 1) % 2 ^ 32 / prm.burstSize

def readQueueFull (neededEntries : Nat) : Bool :=
  c.totalReadQueueSize + c.respQueue.length + neededEntries > prm.readBufferSize

def writeQueueFull (neededEntries : Nat) : Bool :=
  c.totalWriteQueueSize + neededEntries > prm.writeBufferSize

def accessAndRespond (pkt : Nat) : DRAMCtrl := { c with responses := c.responses ++ [pkt] }

/-- A queued write covers the read; the ends are addresses. -/
def covers (addr size : Nat) (p : Burst) : Bool :=
  p.addr ≤ addr && (addr + size) % 2 ^ 64 ≤ (p.addr + p.size) % 2 ^ 64

/-- How many of the write queues hold a write that covers the read; the search of a queue ends
with the first. -/
def servicedByWrQ (addr size : Nat) : Nat :=
  if burstAlign prm addr ∈ c.isInWriteQueue then
    (List.range prm.numPriorities).countP fun q => (c.writeQueue q).any fun p => covers addr size p.toBurst
  else 0

/-- What the loop of `addToReadQueue` carries. -/
structure ReadLoop where
  ctrl : DRAMCtrl
  addr : Nat
  pktsServicedByWrQ : Nat
  burstHelper : Option Nat
  bursts : List (Nat × Nat)
  fromWrQ : List (Nat × Nat)

/-- A turn of the loop of `addToReadQueue`; the packet has the number `num` and the priority
`qos`. -/
def readTurn (pkt : Packet) (pktCount num qos : Nat) (st : ReadLoop) : Option ReadLoop :=
  let addr := st.addr
  let size := partSize prm pkt addr
  let found := st.ctrl.servicedByWrQ prm addr size
  let st := { st with addr := nextAddr prm addr, bursts := st.bursts ++ [(addr, size)] }
  if 0 < found then
    some { st with
      pktsServicedByWrQ := st.pktsServicedByWrQ + found
      fromWrQ := st.fromWrQ ++ [(addr, size)] }
  else
    let create := 1 < pktCount ∧ st.burstHelper = none
    let helper := if create then some num else st.burstHelper
    let c := st.ctrl
    let c := if create then
        { c with helpers := Function.update c.helpers num (some ⟨pktCount, 0⟩) }
      else c
    let dramPkt : DRAMPacket := ⟨⟨num, pkt.masterId, addr, size, helper⟩, qos⟩
    if c.readQueueFull prm 1 then none
    else
      some { st with
        burstHelper := helper
        ctrl :=
          { c with
            readQueue := Function.update c.readQueue qos (c.readQueue qos ++ [dramPkt])
            totalReadQueueSize := c.totalReadQueueSize + 1 } }

def readLoop (pkt : Packet) (pktCount num qos : Nat) : Nat → ReadLoop → Option ReadLoop
  | 0, st => some st
  | n + 1, st => do
    let st ← readTurn prm pkt pktCount num qos st
    readLoop pkt pktCount num qos n st

/-- The packet is accepted before its bursts are queued, and has the next number. -/
def addToReadQueue (pkt : Packet) (pktCount qos : Nat) : Option DRAMCtrl :=
  let num := c.accepted.length
  if pktCount = 0 then none
  else do
    let st ← readLoop prm pkt pktCount num qos pktCount (⟨c, pkt.addr, 0, none, [], []⟩ : ReadLoop)
    let c : DRAMCtrl :=
      { st.ctrl with accepted := st.ctrl.accepted ++ [⟨pkt, st.bursts, st.fromWrQ⟩] }
    if st.pktsServicedByWrQ = pktCount then some (c.accessAndRespond num)
    else
      match st.burstHelper with
      | none => some c
      | some h => do
        let helper ← c.helpers h
        some { c with
          helpers := Function.update c.helpers h
            (some { helper with burstsServiced := st.pktsServicedByWrQ }) }

/-- What the loop of `addToWriteQueue` carries. -/
structure WriteLoop where
  ctrl : DRAMCtrl
  addr : Nat
  bursts : List (Nat × Nat)

/-- A turn of the loop of `addToWriteQueue`. -/
def writeTurn (pkt : Packet) (num qos : Nat) (st : WriteLoop) : Option WriteLoop :=
  let addr := st.addr
  let size := partSize prm pkt addr
  let c := st.ctrl
  let st := { st with addr := nextAddr prm addr, bursts := st.bursts ++ [(addr, size)] }
  if burstAlign prm addr ∈ c.isInWriteQueue then some st
  else if c.totalWriteQueueSize < prm.writeBufferSize then
    let dramPkt : DRAMPacket := ⟨⟨num, pkt.masterId, addr, size, none⟩, qos⟩
    let c := { c with
      writeQueue := Function.update c.writeQueue qos (c.writeQueue qos ++ [dramPkt])
      isInWriteQueue := insert (burstAlign prm addr) c.isInWriteQueue
      totalWriteQueueSize := c.totalWriteQueueSize + 1 }
    if c.totalWriteQueueSize = c.isInWriteQueue.card then some { st with ctrl := c } else none
  else none

def writeLoop (pkt : Packet) (num qos : Nat) : Nat → WriteLoop → Option WriteLoop
  | 0, st => some st
  | n + 1, st => do
    let st ← writeTurn prm pkt num qos st
    writeLoop pkt num qos n st

def addToWriteQueue (pkt : Packet) (pktCount qos : Nat) : Option DRAMCtrl := do
  let num := c.accepted.length
  let st ← writeLoop prm pkt num qos pktCount (⟨c, pkt.addr, []⟩ : WriteLoop)
  let c : DRAMCtrl := { st.ctrl with accepted := st.ctrl.accepted ++ [⟨pkt, st.bursts, []⟩] }
  some (c.accessAndRespond num)

/-- The packets of a master move from one priority to another. -/
def escalateQueues (queues : Nat → List DRAMPacket) (mId currPrio tgtPrio : Nat) :
    Nat → List DRAMPacket :=
  let moved := (queues currPrio).filter (·.masterId = mId)
  let queues := Function.update queues currPrio ((queues currPrio).filter (·.masterId ≠ mId))
  Function.update queues tgtPrio
    (queues tgtPrio ++ moved.map fun p => { p with qosValue := tgtPrio })

def escalate (queues : Nat → List DRAMPacket) (mId tgtPrio : Nat) : Nat → List DRAMPacket :=
  (List.range prm.numPriorities).foldl
    (fun queues currPrio =>
      if currPrio = tgtPrio then queues else escalateQueues queues mId currPrio tgtPrio)
    queues

/-- What the policy decides about a request: its priority, and the masters that are escalated,
each with its priority. -/
structure Schedule where
  priority : Nat
  escalations : List (Nat × Nat)

def qosSchedule (sched : Schedule) : DRAMCtrl :=
  sched.escalations.foldl
    (fun c e => { c with
      readQueue := escalate prm c.readQueue e.1 e.2
      writeQueue := escalate prm c.writeQueue e.1 e.2 })
    c

/-- A packet that is not a write is a read. -/
def recvTimingReq (pkt : Packet) (sched : Schedule) : Option DRAMCtrl :=
  let count := dramPktCount prm pkt
  if sched.priority < prm.numPriorities ∧ pkt.size ≠ 0 then
    let c := c.qosSchedule prm sched
    if pkt.isWrite then
      if c.writeQueueFull prm count then some { c with retryWrReq := true }
      else c.addToWriteQueue prm pkt count sched.priority
    else
      if c.readQueueFull prm count then some { c with retryRdReq := true }
      else c.addToReadQueue prm pkt count sched.priority
  else none

/-- The response to a burst that leaves the response queue. -/
def respond (p : Burst) : Option DRAMCtrl :=
  match p.burstHelper with
  | none => some (c.accessAndRespond p.pkt)
  | some h => do
    let helper ← c.helpers h
    let helper := { helper with burstsServiced := helper.burstsServiced + 1 }
    if helper.burstsServiced = helper.burstCount then
      let c := c.accessAndRespond p.pkt
      some { c with helpers := Function.update c.helpers h none }
    else some { c with helpers := Function.update c.helpers h (some helper) }

/-- The retry is the last thing that a handler does. -/
def processRespondEvent : Option DRAMCtrl :=
  match c.respQueue with
  | [] => none
  | p :: rest => do
    let c ← c.respond p.toBurst
    some { c with
      respQueue := rest
      served := c.served ++ [p.toBurst]
      respondEvent := !rest.isEmpty
      retryRdReq := false }

/-- What `processNextReqEvent` finds outside of the queues: the state selected by the turnaround
policy if there is one, whether all ranks are busy, whether the controller drains, and the
position that `chooseNext` returns for each priority. -/
structure Decision where
  turnPolicy : Option BusState
  allBusy : Bool
  draining : Bool
  choose : Nat → Option Nat

def chooseNext (d : Decision) (queues : Nat → List DRAMPacket) (q : Nat) : Option Nat :=
  (d.choose q).filter fun i => i < (queues q).length

/-- The loop over the queues, from the highest priority. -/
def candidate (d : Decision) (queues : Nat → List DRAMPacket) : Option (Nat × Nat) :=
  (List.range prm.numPriorities).reverse.findSome? fun q =>
    (chooseNext d queues q).map fun i => (q, i)

/-- `queue[dram_pkt->qosValue()].erase(it)`, where the iterator is one of the queue `q`. -/
def eraseFrom (queues : Nat → List DRAMPacket) (p : DRAMPacket) (q i : Nat) :
    Option (Nat → List DRAMPacket) :=
  if p.qosValue = q then some (Function.update queues q ((queues q).eraseIdx i)) else none

/-- A read goes to the DRAM and then waits for its response. -/
def issueRead (q i : Nat) : Option DRAMCtrl := do
  let p ← (c.readQueue q)[i]?
  let readQueue ← eraseFrom c.readQueue p q i
  if c.respondEvent = c.respQueue.isEmpty then none
  else
    some { c with
      totalReadQueueSize := c.totalReadQueueSize - 1
      respondEvent := true
      respQueue := c.respQueue ++ [p]
      busStateNext := if prm.writeHighThreshold < c.totalWriteQueueSize then .write
        else c.busStateNext
      readQueue := readQueue }

def issueWrite (draining : Bool) (q i : Nat) : Option DRAMCtrl := do
  let p ← (c.writeQueue q)[i]?
  let writeQueue ← eraseFrom c.writeQueue p q i
  let c := { c with
    writesThisTime := c.writesThisTime + 1
    isInWriteQueue := c.isInWriteQueue.erase (burstAlign prm p.addr)
    totalWriteQueueSize := c.totalWriteQueueSize - 1
    writeQueue := writeQueue }
  let belowThreshold := c.totalWriteQueueSize + prm.minWritesPerSwitch < prm.writeLowThreshold
  if c.totalWriteQueueSize = 0 ∨ (belowThreshold ∧ draining = false) ∨
      (c.totalReadQueueSize ≠ 0 ∧ prm.minWritesPerSwitch ≤ c.writesThisTime) then
    some { c with busStateNext := .read }
  else some c

/-- The retry at the end of `processNextReqEvent`. -/
def retryWrites : DRAMCtrl :=
  if c.retryWrReq ∧ c.totalWriteQueueSize < prm.writeBufferSize then
    { c with retryWrReq := false }
  else c

/-- The bus takes the direction that was chosen for it. -/
def turnaround (turnPolicy : Option BusState) : DRAMCtrl :=
  let next := turnPolicy.getD c.busStateNext
  { c with
    busStateNext := next
    busState := next
    writesThisTime := if c.busState = .write ∧ next ≠ .write then 0 else c.writesThisTime }

def processNextReqEvent (d : Decision) : Option DRAMCtrl :=
  let c := c.turnaround d.turnPolicy
  if d.allBusy then some c
  else
    match c.busState with
    | .read =>
      if c.totalReadQueueSize = 0 then
        if c.totalWriteQueueSize ≠ 0 ∧
            (d.draining ∨ prm.writeLowThreshold < c.totalWriteQueueSize) then
          some (retryWrites prm { c with busStateNext := .write })
        else some c
      else
        match candidate prm d c.readQueue with
        | none => some c
        | some (q, i) => (c.issueRead prm q i).map (retryWrites prm)
    | .write =>
      match candidate prm d c.writeQueue with
      | none => some c
      | some (q, i) => (c.issueWrite prm d.draining q i).map (retryWrites prm)

inductive Event where
  | recvTimingReq (pkt : Packet) (sched : Schedule)
  | processNextReq (d : Decision)
  | processRespond

def step (c : DRAMCtrl) : Event → Option DRAMCtrl
  | .recvTimingReq pkt sched => c.recvTimingReq prm pkt sched
  | .processNextReq d => c.processNextReqEvent prm d
  | .processRespond => c.processRespondEvent

/-- A packet has a size and an address of its type; priorities are those of the configuration;
the respond event comes when it is scheduled. -/
def Offered (c : DRAMCtrl) : Event → Prop
  | .recvTimingReq pkt sched =>
    (0 < pkt.size ∧ pkt.size < 2 ^ 32 ∧ pkt.addr < 2 ^ 64) ∧
      sched.priority < prm.numPriorities ∧ ∀ e ∈ sched.escalations, e.2 < prm.numPriorities
  | .processNextReq _ => True
  | .processRespond => c.respondEvent = true

end DRAMCtrl

end Gem5.Mem
