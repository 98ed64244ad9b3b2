import Gem5.Lib.Bins
import Mathlib.Data.Prod.Lex
import Mathlib.Logic.Function.Basic

/-!
# The event queue

A linked list of bins, one for each tick and priority, each bin a stack linked through
`nextInBin`. Only the top event of a bin has a valid `nextBin`; `nextBinStale` records that
another event was pushed on top, and a pointer so marked may not be followed.
-/

namespace Gem5.Sim

abbrev Tick := Nat
abbrev EventId := Nat

structure Event where
  nextBin : Option EventId
  nextInBin : Option EventId
  nextBinStale : Bool
  when : Tick
  priority : Int
  scheduled : Bool
  squashed : Bool
  initialized : Bool
  exitEvent : Bool
  /-- `queue == this` -/
  ownQueue : Bool
  deriving DecidableEq, Repr

namespace Event

/-- `operator<` -/
def lt (l r : Event) : Bool :=
  l.when < r.when || (l.when == r.when && l.priority < r.priority)

/-- `operator<=` -/
def le (l r : Event) : Bool :=
  l.when < r.when || (l.when == r.when && l.priority ≤ r.priority)

/-- `operator==` -/
def eq (l r : Event) : Bool := l.when == r.when && l.priority == r.priority

/-- The bin of an event. -/
def key (e : Event) : Nat ×ₗ Int := toLex (e.when, e.priority)

theorem lt_iff {l r : Event} : l.lt r = true ↔ l.key < r.key := by
  simp [lt, key, Prod.Lex.toLex_lt_toLex]

theorem le_iff {l r : Event} : l.le r = true ↔ l.key ≤ r.key := by
  simp [le, key, Prod.Lex.toLex_le_toLex]

theorem eq_iff {l r : Event} : l.eq r = true ↔ l.key = r.key := by
  simp [eq, key]

end Event

inductive Error where
  | assertion
  | eventNotFound
  | staleNextBin
  | wrongQueue
  | nullHead
  | outOfFuel
  deriving DecidableEq, Repr

structure EventQueue where
  events : EventId → Event
  head : Option EventId
  curTick : Tick
  /-- How often `insert` ran; bounds the walks along the pointers. -/
  inserted : Nat

namespace EventQueue

def modify (q : EventQueue) (e : EventId) (f : Event → Event) : EventQueue :=
  { q with events := Function.update q.events e (f (q.events e)) }

/-- Read `e->nextBin`. -/
def followBin (q : EventQueue) (e : EventId) : Except Error (Option EventId) :=
  if (q.events e).nextBinStale then .error .staleNextBin else .ok (q.events e).nextBin

def setNextBin (q : EventQueue) (e : EventId) (next : Option EventId) : EventQueue :=
  q.modify e fun x => { x with nextBin := next, nextBinStale := false }

def insertBefore (q : EventQueue) (event : EventId) :
    Option EventId → Except Error EventQueue
  | none => .ok (q.modify event fun x =>
      { x with nextBin := none, nextInBin := none, nextBinStale := false })
  | some curr =>
    if (q.events event).lt (q.events curr) then
      .ok (q.modify event fun x =>
        { x with nextBin := some curr, nextInBin := none, nextBinStale := false })
    else do
      let next ← q.followBin curr
      pure ((q.modify event fun x =>
          { x with nextBin := next, nextInBin := some curr, nextBinStale := false }).modify curr
        fun x => { x with nextBinStale := true })

/-- `while (curr && *curr < *event)` of `insert` and `remove`. -/
def findBin (q : EventQueue) (event : EventId) :
    Nat → EventId → Option EventId → Except Error (EventId × Option EventId)
  | 0, _, _ => .error .outOfFuel
  | _ + 1, prev, none => .ok (prev, none)
  | fuel + 1, prev, some curr =>
    if (q.events curr).lt (q.events event) then do
      let next ← q.followBin curr
      q.findBin event fuel curr next
    else .ok (prev, some curr)

/-- The body of `insert`. -/
def place (q : EventQueue) (event : EventId) : Except Error EventQueue :=
  match q.head with
  | none => do
    let q' ← q.insertBefore event none
    pure { q' with head := some event }
  | some head =>
    if (q.events event).le (q.events head) then do
      let q' ← q.insertBefore event (some head)
      pure { q' with head := some event }
    else do
      let curr ← q.followBin head
      let (prev, curr) ← q.findBin event q.inserted head curr
      let q' ← q.insertBefore event curr
      pure (q'.setNextBin prev (some event))

def insert (q : EventQueue) (event : EventId) : Except Error EventQueue :=
  { q with inserted := q.inserted + 1 }.place event

/-- `while (event != next)` of `removeItem`, and the unlinking after it. -/
def unlinkInBin (q : EventQueue) (event : EventId) :
    Nat → EventId → Option EventId → Except Error EventQueue
  | 0, _, _ => .error .outOfFuel
  | _ + 1, _, none => .error .eventNotFound
  | fuel + 1, curr, some next =>
    if event = next then
      .ok (q.modify curr fun x => { x with nextInBin := (q.events next).nextInBin })
    else q.unlinkInBin event fuel next (q.events next).nextInBin

/-- The new top of the bin comes with the queue. -/
def removeItem (q : EventQueue) (event top : EventId) :
    Except Error (Option EventId × EventQueue) :=
  if event = top then do
    let nextBin ← q.followBin top
    match (q.events top).nextInBin with
    | none => pure (nextBin, q)
    | some next => pure (some next, q.setNextBin next nextBin)
  else do
    let q' ← q.unlinkInBin event q.inserted top (q.events top).nextInBin
    pure (some top, q')

def remove (q : EventQueue) (event : EventId) : Except Error EventQueue :=
  match q.head with
  | none => .error .eventNotFound
  | some head =>
    if ! (q.events event).ownQueue then .error .wrongQueue
    else if (q.events head).eq (q.events event) then do
      let (top, q') ← q.removeItem event head
      pure { q' with head := top }
    else do
      let curr ← q.followBin head
      let (prev, curr) ← q.findBin event q.inserted head curr
      match curr with
      | none => .error .eventNotFound
      | some curr =>
        if (q.events curr).eq (q.events event) then do
          let (top, q') ← q.removeItem event curr
          pure (q'.setNextBin prev top)
        else .error .eventNotFound

def setWhen (q : EventQueue) (event : EventId) (tick : Tick) : EventQueue :=
  q.modify event fun x => { x with when := tick, ownQueue := true }

def schedule (q : EventQueue) (event : EventId) (tick : Tick) : Except Error EventQueue :=
  if q.curTick ≤ tick ∧ (q.events event).scheduled = false
      ∧ (q.events event).initialized = true then do
    let q' ← (q.setWhen event tick).insert event
    pure (q'.modify event fun x => { x with scheduled := true })
  else .error .assertion

def deschedule (q : EventQueue) (event : EventId) : Except Error EventQueue :=
  if (q.events event).scheduled = true ∧ (q.events event).initialized = true then do
    let q' ← q.remove event
    pure (q'.modify event fun x => { x with squashed := false, scheduled := false })
  else .error .assertion

def reschedule (q : EventQueue) (event : EventId) (tick : Tick) (always : Bool) :
    Except Error EventQueue :=
  if q.curTick ≤ tick ∧ (always = true ∨ (q.events event).scheduled = true)
      ∧ (q.events event).initialized = true then do
    let q ← if (q.events event).scheduled then q.remove event else pure q
    let q' ← (q.setWhen event tick).insert event
    pure (q'.modify event fun x => { x with squashed := false, scheduled := true })
  else .error .assertion

/-- `Event::squash` -/
def squash (q : EventQueue) (event : EventId) : EventQueue :=
  q.modify event fun x => { x with squashed := true }

/-- The calls an event may make while it is processed. -/
inductive Op where
  | schedule (event : EventId) (tick : Tick)
  | deschedule (event : EventId)
  | reschedule (event : EventId) (tick : Tick) (always : Bool)
  | squash (event : EventId)
  deriving DecidableEq, Repr

def perform (q : EventQueue) : Op → Except Error EventQueue
  | .schedule event tick => q.schedule event tick
  | .deschedule event => q.deschedule event
  | .reschedule event tick always => q.reschedule event tick always
  | .squash event => .ok (q.squash event)

/-- The first half of `serviceOne`: take the head off the queue. -/
def popHead (q : EventQueue) : Except Error (EventId × EventQueue) :=
  match q.head with
  | none => .error .nullHead
  | some event => do
    let q := q.modify event fun x => { x with scheduled := false }
    let nextBin ← q.followBin event
    match (q.events event).nextInBin with
    | none => pure (event, { q with head := nextBin })
    | some next => pure (event, { q.setNextBin next nextBin with head := some next })

/-- `process` is what the event does when it is processed; the exit event is returned. -/
def serviceOne (q : EventQueue) (process : List Op) :
    Except Error (Option EventId × EventQueue) := do
  let (event, q) ← q.popHead
  if (q.events event).squashed then
    pure (none, q.modify event fun x => { x with squashed := false })
  else
    let q' ← process.foldlM perform { q with curTick := (q.events event).when }
    pure (if (q'.events event).exitEvent then some event else none, q')

end EventQueue

end Gem5.Sim
