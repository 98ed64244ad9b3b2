import Gem5.Lib.Sections
import Gem5.Sim.EventBins

/-!
# Events in checkpoints

`serialize` writes the tick, the priority and the flag word of an event, `unserialize` reads them
into another event, and `checkpointReschedule` is to put that one back into the queue.
-/

namespace Gem5.Sim

open Sections Bins List Option BitVec

variable {ev : EventId → Event} {top : EventId} {rest : List EventId}

/-- `paramOut` of a number; the text is what `showParam` prints. -/
abbrev paramOut (cp : Section) (name : String) (param : Int) : Section := write cp name param

/-- `paramIn` into a type; `none` is `fatal`. -/
abbrev paramIn (ty : Range) (cp : Section) (name : String) : Option Int := read ty cp name

abbrev FlagsType := BitVec 16

namespace FlagsType

def Squashed : FlagsType := 0x0001

def Scheduled : FlagsType := 0x0002

def IsExitEvent : FlagsType := 0x0010

def Initialized : FlagsType := 0x7a40

def InitMask : FlagsType := 0xffc0

/-- `Flags::isSet(flags)` -/
def isSet (f flags : FlagsType) : Bool := f &&& flags != 0

end FlagsType

open FlagsType

/-- The members of an event that a checkpoint holds. -/
structure EventState where
  when : BitVec 64
  priority : BitVec 8
  flags : FlagsType
  deriving DecidableEq, Repr

namespace EventState

variable (s : EventState)

def scheduled : Bool := isSet s.flags Scheduled

def squashed : Bool := isSet s.flags Squashed

def initialized : Bool := s.flags &&& InitMask == Initialized

/-- The flags are written as a `short`. -/
def serialize (cp : Section) : Section :=
  let cp := paramOut cp "_when" s.when.toNat
  let cp := paramOut cp "_priority" s.priority.toInt
  paramOut cp "_flags" s.flags.toInt

/-- The last step of `unserialize`. -/
def maskFlags (flags : FlagsType) : FlagsType :=
  if isSet flags Scheduled && !isSet flags Squashed then flags &&& ~~~(Squashed ||| Scheduled)
  else flags

/-- `none` where an assertion fails or an entry cannot be read. -/
def unserialize (cp : Section) : Option EventState :=
  if s.scheduled then none
  else do
    let when ← paramIn (unsigned 64) cp "_when"
    let priority ← paramIn (signed 8) cp "_priority"
    let flags ← paramIn (unsigned 16) cp "_flags"
    if s.initialized then
      some {
        when := BitVec.ofInt 64 when
        priority := BitVec.ofInt 8 priority
        flags := maskFlags (BitVec.ofInt 16 flags ||| Initialized) }
    else none

end EventState

/-- The members of a checkpoint in an event of the queue. -/
def Event.load (s : EventState) (e : Event) : Event :=
  { e with
    when := s.when.toNat
    priority := s.priority.toInt
    scheduled := s.scheduled
    squashed := s.squashed
    initialized := s.initialized
    exitEvent := isSet s.flags IsExitEvent }

namespace EventQueue

def checkpointReschedule (q : EventQueue) (event : EventId) : Except Error EventQueue :=
  if (q.events event).scheduled then q.insert event else .ok q

/-- The pointers lead from the head to the event. -/
inductive OnQueue (q : EventQueue) : EventId → Prop where
  | head {e : EventId} : q.head = some e → OnQueue q e
  | inBin {e f : EventId} : OnQueue q e → (q.events e).nextInBin = some f → OnQueue q f
  | bin {e f : EventId} : OnQueue q e → q.followBin e = .ok (some f) → OnQueue q f

section Membership

variable {q : EventQueue} {e f : EventId}

theorem InBin.mem_of_nextInBin (h : InBin ev top rest) (mem : e ∈ top :: rest)
    (next : (ev e).nextInBin = some f) : f ∈ rest := by
  induction rest generalizing top with
  | nil =>
    obtain rfl := List.mem_singleton.mp mem
    rw [show (ev e).nextInBin = none from h] at next
    cases next
  | cons g rest ih =>
    rcases List.mem_cons.mp mem with rfl | behind
    · grind [h.1]
    · exact List.mem_cons_of_mem _ (ih h.2.2 behind)

theorem InBin.stale_of_mem
    (h : InBin ev top rest) (mem : e ∈ rest) : (ev e).nextBinStale = true := by
  induction rest generalizing top with
  | nil => cases mem
  | cons g rest ih =>
    rcases List.mem_cons.mp mem with rfl | behind
    · exact h.2.1
    · exact ih h.2.2 behind

theorem Linked.mem_of_nextInBin {last : Option EventId}
    {bins : List (Bin EventId)} (linked : Linked ev last bins) (mem : e ∈ elements bins)
    (next : (ev e).nextInBin = some f) : f ∈ elements bins := by
  induction bins with
  | nil => cases mem
  | cons b bins ih =>
    rw [elements_cons, mem_append] at mem ⊢
    rcases mem with here | later
    · exact Or.inl (List.mem_cons_of_mem _ (linked.1.mem_of_nextInBin here next))
    · exact Or.inr (ih linked.2.2.2 later)

theorem Linked.mem_of_nextBin {bins : List (Bin EventId)}
    (linked : Linked ev none bins) (mem : e ∈ elements bins) (fresh : (ev e).nextBinStale = false)
    (next : (ev e).nextBin = some f) : f ∈ elements bins := by
  induction bins with
  | nil => cases mem
  | cons b bins ih =>
    obtain ⟨inBin, -, nextBin, later⟩ := linked
    rw [elements_cons, mem_append, List.mem_cons] at mem
    rw [elements_cons, mem_append]
    rcases mem with (rfl | behind) | there
    · right
      rw [nextBin] at next
      cases bins with
      | nil => cases next
      | cons =>
        obtain rfl := Option.some.inj next
        simp
    · rw [inBin.stale_of_mem behind] at fresh
      cases fresh
    · exact Or.inr (ih later there)

theorem onQueue_inBin (h : InBin q.events top rest)
    (on : q.OnQueue top) (mem : e ∈ top :: rest) : q.OnQueue e := by
  induction rest generalizing top with
  | nil => exact List.mem_singleton.mp mem ▸ on
  | cons g rest ih =>
    rcases List.mem_cons.mp mem with rfl | behind
    · exact on
    · exact ih h.2.2 (.inBin on h.1) behind

theorem onQueue_linked {bins : List (Bin EventId)} (linked : Linked q.events none bins)
    (first : ∀ t, topOf none bins = some t → q.OnQueue t) (mem : e ∈ elements bins) :
    q.OnQueue e := by
  induction bins with
  | nil => cases mem
  | cons b bins ih =>
    obtain ⟨inBin, fresh, nextBin, later⟩ := linked
    have top := first b.top rfl
    rw [elements_cons, mem_append] at mem
    rcases mem with here | there
    · exact onQueue_inBin inBin top here
    · refine ih later (fun t next => ?_) there
      exact .bin top ((followBin_of_fresh fresh).trans (congrArg _ (nextBin.trans next)))

theorem Holds.onQueue_iff {bins : List (Bin EventId)} (holds : Holds q bins) :
    q.OnQueue e ↔ e ∈ elements bins := by
  constructor
  · intro on
    induction on with
    | head front =>
      rw [holds.head] at front
      cases bins with
      | nil => cases front
      | cons =>
        obtain rfl := Option.some.inj front
        simp
    | inBin _ next ih => exact holds.linked.mem_of_nextInBin ih next
    | bin _ next ih =>
      rw [followBin] at next
      split at next
      · cases next
      next fresh =>
        exact holds.linked.mem_of_nextBin ih (Bool.eq_false_of_not_eq_true fresh)
          (Except.ok.inj next)
  · exact onQueue_linked holds.linked fun t top => .head (holds.head.trans top)

theorem Holds.modify_outside {bins : List (Bin EventId)} (holds : Holds q bins)
    (outside : e ∉ elements bins) (g : Event → Event) : Holds (q.modify e g) bins := by
  have same : ∀ x ∈ elements bins, (q.modify e g).events x = q.events x := by grind [modify_other]
  refine ⟨holds.linked.same same, holds.head, holds.nodup, holds.sorted.congr ?_, holds.bounded⟩
  exact fun x mem => congrArg Event.key (same x mem)

end Membership

end EventQueue

namespace EventState

variable {s fresh : EventState} {cp : Section}

theorem initialized_iff : s.initialized = true ↔ s.flags &&& InitMask = Initialized :=
  beq_iff_eq

theorem toInt_flags (init : s.initialized = true) : s.flags.toInt = s.flags.toNat := by
  refine toInt_eq_toNat_of_msb ?_
  have bit := congrArg (·.getLsbD 15) (initialized_iff.mp init)
  simpa [InitMask, Initialized, msb_eq_getLsbD_last] using bit

theorem or_initialized (init : s.initialized = true) : s.flags ||| Initialized = s.flags := by
  rw [← initialized_iff.mp init]
  ext i _
  simpa using fun set _ => set

theorem unserialize_serialize (init : s.initialized = true) (ready : fresh.initialized = true)
    (idle : fresh.scheduled = false) : fresh.unserialize (s.serialize cp)
      = some { s with flags := maskFlags s.flags } := by
  have when : paramIn (unsigned 64) (s.serialize cp) "_when"
      = some (s.when.toNat : Int) := by
    rw [serialize, paramIn, read_write_of_ne (by decide), read_write_of_ne (by decide),
      read_write_self (unsigned_fits s.when)]
  have priority : paramIn (signed 8) (s.serialize cp) "_priority" = some s.priority.toInt := by
    rw [serialize, paramIn, read_write_of_ne (by decide), read_write_self (signed_fits s.priority)]
  have flags : paramIn (unsigned 16) (s.serialize cp) "_flags" = some s.flags.toInt := by
    rw [serialize, paramIn, toInt_flags init, read_write_self (unsigned_fits s.flags)]
  rw [unserialize, idle, if_neg Bool.false_ne_true, when, priority, flags]
  simp [ready, or_initialized init]

theorem scheduled_maskFlags :
    isSet (maskFlags s.flags) Scheduled = (s.scheduled && s.squashed) := by
  rw [maskFlags, scheduled, squashed]
  cases scheduled : isSet s.flags Scheduled with
  | false => simp [scheduled]
  | true => grind [isSet]

end EventState

namespace EventQueue

/-- An event that was due comes back with its tick and its priority, and no other one does. -/
structure Survives (s : EventState) (q : EventQueue) (e : EventId) : Prop where
  back : s.scheduled = true → s.squashed = false →
    q.OnQueue e ∧ (q.events e).when = s.when.toNat ∧ (q.events e).priority = s.priority.toInt
      ∧ (q.events e).scheduled = true
  out : s.scheduled = false ∨ s.squashed = true → ¬q.OnQueue e

variable {q : EventQueue} {bins : List (Bin EventId)} {e : EventId} {s fresh : EventState}

/-- An event that is written to a checkpoint and read into a fresh event survives just when it
was not scheduled. -/
theorem event_survives_iff (cp : Section) (holds : Holds q bins) (outside : e ∉ elements bins)
    (init : s.initialized = true) (ready : fresh.initialized = true)
    (idle : fresh.scheduled = false) :
    ∃ w q', fresh.unserialize (s.serialize cp) = some w
      ∧ (q.modify e (.load w)).checkpointReschedule e = .ok q'
      ∧ (Survives s q' e ↔ s.scheduled = false) := by
  have loaded := holds.modify_outside outside (.load { s with flags := EventState.maskFlags s.flags })
  generalize unread : q.modify e (.load { s with flags := EventState.maskFlags s.flags }) = r
    at loaded
  have flag : (r.events e).scheduled = (s.scheduled && s.squashed) := by
    rw [← unread, modify_self]
    exact EventState.scheduled_maskFlags
  refine ⟨{ s with flags := EventState.maskFlags s.flags }, ?_⟩
  rw [EventState.unserialize_serialize init ready idle, unread, checkpointReschedule, flag]
  by_cases kept : s.scheduled = true ∧ s.squashed = true
  · obtain ⟨q', inserted, after, -⟩ := insert_spec loaded outside
    refine ⟨q', rfl, ?_, fun survives => ?_, fun off => ?_⟩
    · rw [kept.1, kept.2, Bool.and_self, if_pos rfl, inserted]
    · refine absurd (after.onQueue_iff.mpr ?_) (survives.out (Or.inr kept.2))
      rw [elements_insert loaded.sorted, List.mem_orderedInsert]
      exact Or.inl rfl
    · exact absurd (off.symm.trans kept.1) Bool.false_ne_true
  · have left : ¬r.OnQueue e := fun on => outside (loaded.onQueue_iff.mp on)
    refine ⟨r, rfl, if_neg (by simpa using kept), fun survives => ?_, fun off => ⟨fun on => ?_, ?_⟩⟩
    · refine Bool.eq_false_of_not_eq_true fun on => ?_
      have quiet : s.squashed = false := Bool.eq_false_of_not_eq_true fun out => kept ⟨on, out⟩
      exact left (survives.back on quiet).1
    · exact absurd (off.symm.trans on) Bool.false_ne_true
    · exact fun _ => left

/-- An event that is scheduled for tick 5. -/
def dueEvent : EventState := ⟨5, 0, Initialized ||| Scheduled⟩

def freshEvent : EventState := ⟨0, 0, Initialized⟩

def emptyQueue : EventQueue :=
  ⟨fun _ => ⟨none, none, false, 0, 0, false, false, true, false, false⟩, none, 0, 0⟩

theorem emptyQueue_holds : Holds emptyQueue [] :=
  ⟨trivial, rfl, nodup_nil, .nil, Nat.le_refl 0⟩

/-- An event that was not scheduled is not put into the queue. -/
theorem event_survives_idle :
    ∃ w q', freshEvent.unserialize (freshEvent.serialize []) = some w
      ∧ (emptyQueue.modify 0 (.load w)).checkpointReschedule 0 = .ok q'
      ∧ Survives freshEvent q' 0 := by
  obtain ⟨w, q', read, done, survives⟩ := event_survives_iff [] emptyQueue_holds
    (List.not_mem_nil (a := 0)) (show freshEvent.initialized = true by decide)
    (show freshEvent.initialized = true by decide) (by decide)
  exact ⟨w, q', read, done, survives.mpr (by decide)⟩

/-- The event that was due does not come back. -/
theorem event_lost :
    ∃ w q', freshEvent.unserialize (dueEvent.serialize []) = some w
      ∧ (emptyQueue.modify 0 (.load w)).checkpointReschedule 0 = .ok q'
      ∧ ¬Survives dueEvent q' 0 := by
  refine ⟨_, emptyQueue.modify 0 (.load ⟨5, 0, Initialized⟩),
    EventState.unserialize_serialize (by decide) (by decide) (by decide), rfl, fun survives => ?_⟩
  have on := (survives.back (by decide) (by decide)).1
  exact List.not_mem_nil ((emptyQueue_holds.modify_outside List.not_mem_nil _).onQueue_iff.mp on)

end EventQueue

end Gem5.Sim
