import Mathlib.Algebra.GroupWithZero.Nat
import Mathlib.Logic.Function.Basic

/-!
# The packet queue

Deferred packets wait in a list until their tick. An event sends the first of them; a refused
packet stays at the front until the peer calls for a retry.
-/

namespace Gem5.Mem


def maxTick : Nat := 2 ^ 64 - 1

/-- What `matchAddr` compares. -/
structure Packet where
  addr : BitVec 64
  isSecure : Bool
  isExpressSnoop : Bool
  deriving DecidableEq, Repr

def Packet.matchAddr (p other : Packet) : Bool :=
  p.addr == other.addr && p.isSecure == other.isSecure

/-- A deferred packet; `stamp` counts the packets queued before it. -/
structure DeferredPacket where
  tick : Nat
  pkt : Packet
  stamp : Nat
  deriving DecidableEq, Repr

inductive DrainState where
  | running
  | draining
  | drained
  deriving DecidableEq, Repr

/-- The asserts of the queue, those of the event manager, and the sanity check. -/
inductive Failure where
  | sendInThePast
  | expressSnoop
  | grown
  | eventScheduledWhileWaiting
  | eventInThePast
  | notWaitingOnRetry
  | waitingOnRetry
  | notReady
  deriving DecidableEq, Repr

/-- The queue with its event and the current tick. -/
structure PacketQueue where
  transmitList : List DeferredPacket
  sendEvent : Option Nat
  curTick : Nat
  disableSanityCheck : Bool
  forceOrder : Bool
  waitingOnRetry : Bool
  drainState : DrainState
  /-- Packets ever queued. -/
  enqueued : Nat
  deriving Repr

namespace PacketQueue

def deferredPacketReady (q : PacketQueue) : Bool :=
  match q.transmitList with
  | [] => false
  | d :: _ => d.tick ≤ q.curTick

def deferredPacketReadyTime (q : PacketQueue) : Nat :=
  match q.transmitList with
  | [] => maxTick
  | d :: _ => d.tick

/-- `em.schedule` and `em.reschedule`, with the assert of the event queue. -/
def setEvent (q : PacketQueue) (tick : Nat) : Except Failure PacketQueue :=
  if q.curTick ≤ tick then .ok { q with sendEvent := some tick } else .error .eventInThePast

def schedSendEvent (q : PacketQueue) (tick : Nat) : Except Failure PacketQueue :=
  if q.waitingOnRetry then
    if q.sendEvent.isSome then .error .eventScheduledWhileWaiting else .ok q
  else if tick ≠ maxTick then
    let tick := max tick ((q.curTick + 1) % 2 ^ 64)
    match q.sendEvent with
    | none => q.setEvent tick
    | some scheduled => if tick < scheduled then q.setEvent tick else .ok q
  else if q.drainState = .draining ∧ q.transmitList = [] ∧ q.sendEvent = none then
    .ok { q with drainState := .drained }
  else .ok q

/-- Insert after the last element that satisfies the test, if there is one. -/
def emplaceAfter (p : DeferredPacket → Bool) (d : DeferredPacket) :
    List DeferredPacket → Option (List DeferredPacket)
  | [] => none
  | x :: list =>
    match emplaceAfter p d list with
    | some list' => some (x :: list')
    | none => if p x then some (x :: d :: list) else none

def schedSendTiming (q : PacketQueue) (pkt : Packet) (tick : Nat) :
    Except Failure PacketQueue :=
  if ¬ q.curTick ≤ tick then .error .sendInThePast
  else if pkt.isExpressSnoop then .error .expressSnoop
  else if ! q.disableSanityCheck ∧ 100 < q.transmitList.length then .error .grown
  else
    let d : DeferredPacket := ⟨tick, pkt, q.enqueued⟩
    let q := { q with enqueued := q.enqueued + 1 }
    match emplaceAfter (fun x => (q.forceOrder && x.pkt.matchAddr pkt) || x.tick ≤ tick) d
        q.transmitList with
    | some list => .ok { q with transmitList := list }
    | none => { q with transmitList := d :: q.transmitList }.schedSendEvent tick

/-- `accept` is the answer of `sendTiming`; what it was asked about comes with the queue. -/
def sendDeferredPacket (q : PacketQueue) (accept : Bool) :
    Except Failure (DeferredPacket × PacketQueue) :=
  if q.waitingOnRetry then .error .waitingOnRetry
  else if ! q.deferredPacketReady then .error .notReady
  else
    match q.transmitList with
    | [] => .error .notReady
    | dp :: list => do
      let q := { q with transmitList := list, waitingOnRetry := ! accept }
      if ! q.waitingOnRetry then
        let q ← q.schedSendEvent q.deferredPacketReadyTime
        pure (dp, q)
      else pure (dp, { q with transmitList := dp :: q.transmitList })

def processSendEvent (q : PacketQueue) (accept : Bool) :
    Except Failure (DeferredPacket × PacketQueue) :=
  if q.waitingOnRetry then .error .waitingOnRetry else q.sendDeferredPacket accept

def retry (q : PacketQueue) (accept : Bool) : Except Failure (DeferredPacket × PacketQueue) :=
  if ! q.waitingOnRetry then .error .notWaitingOnRetry
  else { q with waitingOnRetry := false }.sendDeferredPacket accept

def drain (q : PacketQueue) : PacketQueue :=
  { q with drainState := if q.transmitList = [] then .drained else .draining }

end PacketQueue

/-- The queue, the peer's debt of a retry, and what the peer has accepted at which tick. -/
structure Link where
  queue : PacketQueue
  retryOwed : Bool
  accepted : List (DeferredPacket × Nat)

namespace Link

inductive Action where
  | send (pkt : Packet) (tick : Nat)
  | fire (accept : Bool)
  | retry (accept : Bool)
  | advance (tick : Nat)
  | drain
  | resume
  deriving DecidableEq, Repr

/-- The peer's answer. -/
def answer (l : Link) (accept : Bool) (sent : DeferredPacket × PacketQueue) : Link :=
  ⟨sent.2, ! accept,
    if accept then l.accepted ++ [(sent.1, sent.2.curTick)] else l.accepted⟩

def step (l : Link) : Action → Except Failure Link
  | .send pkt tick => do
    let q ← l.queue.schedSendTiming pkt tick
    pure { l with queue := q }
  | .fire accept => do
    let q := { l.queue with curTick := l.queue.sendEvent.getD 0, sendEvent := none }
    let sent ← q.processSendEvent accept
    pure (l.answer accept sent)
  | .retry accept => do
    let sent ← l.queue.retry accept
    pure (l.answer accept sent)
  | .advance tick => .ok { l with queue := { l.queue with curTick := tick } }
  | .drain => .ok { l with queue := l.queue.drain }
  | .resume => .ok { l with queue := { l.queue with drainState := .running } }

/-- Packets are sent no earlier than now, the event fires at its tick, the peer retries what
it has refused, time does not pass the event, and all ticks are below the limit. -/
def Enabled (limit : Nat) (l : Link) : Action → Prop
  | .send pkt tick => l.queue.curTick ≤ tick ∧ tick < limit ∧ pkt.isExpressSnoop = false
  | .fire _ => ∃ tick, l.queue.sendEvent = some tick ∧ tick < limit
  | .retry _ => l.retryOwed = true
  | .advance tick => l.queue.curTick ≤ tick ∧ tick < limit ∧
      ∀ event, l.queue.sendEvent = some event → tick ≤ event
  | .drain => True
  | .resume => True

structure Initial (limit : Nat) (l : Link) : Prop where
  empty : l.queue.transmitList = []
  noEvent : l.queue.sendEvent = none
  notWaiting : l.queue.waitingOnRetry = false
  notOwed : l.retryOwed = false
  early : l.queue.curTick < limit
  none : l.accepted = []
  noPackets : l.queue.enqueued = 0

inductive Reachable (limit : Nat) : Link → Prop where
  | start {l : Link} : Initial limit l → Reachable limit l
  | step {l l' : Link} (a : Action) :
    Reachable limit l → l.Enabled limit a → l.step a = .ok l' → Reachable limit l'

end Link

end Gem5.Mem
