import Gem5.Sim.EventBins

/-!
# Every scheduled event is serviced once and in order

Each time an event is scheduled it gets a ticket with the next stamp. The ledger moves a
ticket from pending to removed when its event is descheduled or rescheduled, and to serviced
when `serviceOne` takes its event off the queue.
-/

namespace Gem5.Sim.EventQueue

open Bins List

variable {q : EventQueue} {bins : List (Bin EventId)}

structure Ticket where
  stamp : Nat
  event : EventId
  tick : Tick
  priority : Int
  deriving DecidableEq, Repr

def Ticket.key (t : Ticket) : Nat ×ₗ Int := toLex (t.tick, t.priority)

/-- Earlier in tick and priority, or of the same and scheduled later. -/
def Ticket.Before (t t' : Ticket) : Prop :=
  t.key < t'.key ∨ (t.key = t'.key ∧ t'.stamp < t.stamp)

structure Ledger where
  issued : Nat
  pending : List Ticket
  /-- With each ticket, those that were pending behind it. -/
  serviced : List (Ticket × List Ticket)
  removed : List Ticket

variable {l : Ledger} {t : Ticket} {s : EventQueue × Ledger}

namespace Ledger

def issue (l : Ledger) (event : EventId) (tick : Tick) (priority : Int) : Ledger :=
  { l with
    issued := l.issued + 1
    pending := ⟨l.issued, event, tick, priority⟩ :: l.pending }

def of (l : Ledger) (event : EventId) : List Ticket :=
  l.pending.filter fun t => t.event = event

def others (l : Ledger) (event : EventId) : List Ticket :=
  l.pending.filter fun t => ¬ t.event = event

def withdraw (l : Ledger) (event : EventId) : Ledger :=
  { l with
    pending := l.others event
    removed := l.of event ++ l.removed }

def serve (l : Ledger) (event : EventId) : Ledger :=
  { l with
    pending := l.others event
    serviced := (l.of event).map (fun t => (t, l.others event)) ++ l.serviced }

def record (priority : EventId → Int) (l : Ledger) : Op → Ledger
  | .schedule event tick => l.issue event tick (priority event)
  | .deschedule event => l.withdraw event
  | .reschedule event tick _ => (l.withdraw event).issue event tick (priority event)
  | .squash _ => l

/-- Every ticket issued is in one place. -/
def Conserved (l : Ledger) : Prop :=
  ((l.serviced.map Prod.fst ++ l.removed ++ l.pending).map Ticket.stamp).Perm
    (List.range l.issued)

theorem of_others_perm (l : Ledger) (event : EventId) :
    (l.of event ++ l.others event).Perm l.pending := by
  have h := filter_append_perm (fun t : Ticket => decide (t.event = event)) l.pending
  simpa [of, others] using h

theorem Conserved.lt (h : l.Conserved) (ht : t ∈ l.pending) : t.stamp < l.issued:= by
  rw [← List.mem_range]
  refine h.mem_iff.mp (List.mem_map_of_mem ?_)
  exact mem_append_right _ ht

theorem Conserved.issue {l : Ledger} (h : l.Conserved) (event : EventId) (tick : Tick)
    (priority : Int) : (l.issue event tick priority).Conserved := by
  grind [Conserved, Ledger.issue, List.range_succ]

theorem Conserved.withdraw (h : l.Conserved) (event : EventId) : (l.withdraw event).Conserved:= by
  refine List.Perm.trans (List.Perm.map _ ?_) h
  simp only [Ledger.withdraw, List.append_assoc]
  refine List.Perm.append_left _ ?_
  rw [← List.append_assoc]
  refine (List.Perm.append_right _ perm_append_comm).trans ?_
  rw [List.append_assoc]
  exact List.Perm.append_left _ (l.of_others_perm event)

theorem Conserved.serve {l : Ledger} (h : l.Conserved) (event : EventId) :
    (l.serve event).Conserved := by
  refine List.Perm.trans (List.Perm.map _ ?_) h
  have hfst : ((l.of event).map fun t => (t, l.others event)).map Prod.fst = l.of event := by
    simp [Function.comp_def]
  simp only [Ledger.serve, map_append, hfst, List.append_assoc]
  refine List.perm_append_comm.trans ?_
  rw [List.append_assoc, List.append_assoc]
  refine List.Perm.append_left _ (List.Perm.append_left _ ?_)
  exact List.perm_append_comm.trans (l.of_others_perm event)

end Ledger

def keyLE (a b : Ticket) : Prop := a.key ≤ b.key

instance : DecidableRel keyLE := fun a b => inferInstanceAs (Decidable (a.key ≤ b.key))

theorem Ticket.Before.le {t' : Ticket} (h : t.Before t') : t.key ≤ t'.key := by
  rcases h with h | h
  · exact le_of_lt h
  · exact le_of_eq h.1

theorem before_orderedInsert {queue : List Ticket} {new : Ticket}
    (sorted : queue.Pairwise Ticket.Before) (newest : ∀ t ∈ queue, t.stamp < new.stamp) :
    (queue.orderedInsert keyLE new).Pairwise Ticket.Before := by
  induction queue with
  | nil => simp
  | cons t queue ih =>
    rw [orderedInsert_cons]
    split
    · rename_i hle
      refine List.Pairwise.cons (fun x hx => ?_) sorted
      have hkey : new.key ≤ x.key := by
        rcases List.mem_cons.mp hx with rfl | hx
        · exact hle
        · exact le_trans hle (rel_of_pairwise_cons sorted hx).le
      rcases lt_or_eq_of_le hkey with hlt | heq
      · exact Or.inl hlt
      · exact Or.inr ⟨heq, newest x hx⟩
    · rename_i hle
      refine List.Pairwise.cons (fun x hx => ?_)
        (ih (List.Pairwise.of_cons sorted) fun x hx => newest x (List.mem_cons_of_mem _ hx))
      rw [mem_orderedInsert] at hx
      rcases hx with rfl | hx
      · exact Or.inl (not_le.mp hle)
      · exact rel_of_pairwise_cons sorted hx

/-- The queue holds these bins, and these tickets in this order. -/
structure Filed (q : EventQueue) (bins : List (Bin EventId)) (queue : List Ticket) : Prop where
  holds : Holds q bins
  events : queue.map Ticket.event = elements bins
  tick : ∀ t ∈ queue, t.tick = (q.events t.event).when
  priority : ∀ t ∈ queue, t.priority = (q.events t.event).priority
  sorted : queue.Pairwise Ticket.Before
  own : ∀ t ∈ queue, (q.events t.event).ownQueue = true
  future : ∀ t ∈ queue, q.curTick ≤ t.tick

theorem Filed.key {queue : List Ticket}
    (h : Filed q bins queue) (ht : t ∈ queue) : t.key = q.keyOf t.event := by
  rw [Ticket.key, h.tick t ht, h.priority t ht]
  rfl

theorem Filed.mem_iff {queue : List Ticket}
    (h : Filed q bins queue) (e : EventId) : e ∈ elements bins ↔ ∃ t ∈ queue, t.event = e := by
  rw [← h.events, List.mem_map]

theorem Filed.relink {q' : EventQueue} {bins' : List (Bin EventId)}
    {queue queue' : List Ticket} (h : Filed q bins queue) (holds : Holds q' bins')
    (relinked : Relinked q q') (events : queue'.map Ticket.event = elements bins')
    (sub : queue'.Sublist queue) : Filed q' bins' queue' := by
  refine ⟨holds, events, ?_, ?_, h.sorted.sublist sub, ?_, ?_⟩
  · intro t ht
    rw [(relinked.data t.event).tick]
    exact h.tick t (sub.subset ht)
  · intro t ht
    rw [(relinked.data t.event).priority]
    exact h.priority t (sub.subset ht)
  · intro t ht
    rw [(relinked.data t.event).ownQueue]
    exact h.own t (sub.subset ht)
  · intro t ht
    rw [relinked.curTick]
    exact h.future t (sub.subset ht)

theorem Filed.erase_events {queue : List Ticket}
    (h : Filed q bins queue) {event : EventId} (mem : event ∈ elements bins) :
    (queue.filter fun t => ¬ t.event = event).map Ticket.event
      = elements (Bins.erase q.keyOf event bins) := by
  rw [elements_erase h.holds.sorted mem, h.holds.nodup.erase_eq_filter, ← h.events,
    List.filter_map]
  congr 1
  refine List.filter_congr fun t _ => ?_
  by_cases ht : t.event = event <;> simp [ht]

theorem Filed.remove {queue : List Ticket}
    (h : Filed q bins queue) {event : EventId} (mem : event ∈ elements bins) :
    ∃ q', q.remove event = .ok q' ∧
      Filed q' (Bins.erase q.keyOf event bins) (queue.filter fun t => ¬ t.event = event) ∧
      Relinked q q' := by
  obtain ⟨t, ht, hte⟩ := (h.mem_iff event).mp mem
  obtain ⟨q', hq', holds, relinked⟩ := remove_spec h.holds mem (hte ▸ h.own t ht)
  exact ⟨q', hq', h.relink holds relinked (h.erase_events mem) filter_sublist, relinked⟩

theorem Filed.modify {queue : List Ticket} (h : Filed q bins queue) {e : EventId}
    (new : e ∉ elements bins) (f : Event → Event) : Filed (q.modify e f) bins queue := by
  have other : ∀ x ∈ elements bins, (q.modify e f).events x = q.events x := by grind [modify_other]
  have otherTicket : ∀ t ∈ queue, (q.modify e f).events t.event = q.events t.event :=
    fun t ht => other _ ((h.mem_iff _).mpr ⟨t, ht, rfl⟩)
  refine ⟨⟨h.holds.linked.same other, h.holds.head, h.holds.nodup, ?_, h.holds.bounded⟩,
    h.events, ?_, ?_, h.sorted, ?_, h.future⟩
  · exact h.holds.sorted.congr fun x hx => by rw [keyOf, other x hx, keyOf]
  · exact fun t ht => by rw [otherTicket t ht, h.tick t ht]
  · exact fun t ht => by rw [otherTicket t ht, h.priority t ht]
  · exact fun t ht => by rw [otherTicket t ht, h.own t ht]

theorem Filed.insert {q : EventQueue} {bins : List (Bin EventId)} {queue : List Ticket}
    (h : Filed q bins queue) {event : EventId} {tick : Tick} {stamp : Nat}
    (new : event ∉ elements bins) (later : q.curTick ≤ tick)
    (newest : ∀ t ∈ queue, t.stamp < stamp) :
    ∃ q', (q.setWhen event tick).insert event = .ok q' ∧
      (∃ bins', Filed q' bins' (queue.orderedInsert keyLE
        ⟨stamp, event, tick, (q.events event).priority⟩)) ∧
      Relinked (q.setWhen event tick) q' := by
  have h' : Filed (q.setWhen event tick) bins queue := h.modify new _
  obtain ⟨q', hq', holds, relinked⟩ := insert_spec h'.holds new
  have hself : (q.setWhen event tick).events event
      = { q.events event with when := tick, ownQueue := true } := modify_self _ _ _
  refine ⟨q', hq', ⟨_, holds, ?_, ?_, ?_, before_orderedInsert h.sorted newest, ?_, ?_⟩,
    relinked⟩
  · rw [elements_insert h'.holds.sorted, ← h'.events]
    have hnew : (⟨stamp, event, tick, (q.events event).priority⟩ : Ticket).key
        = (q.setWhen event tick).keyOf event := by
      rw [keyOf, hself]
      rfl
    refine map_orderedInsert keyLE _ Ticket.event queue _ ?_ ?_
    · intro t ht
      rw [keyLE, hnew, h'.key ht]
    · intro t ht
      rw [keyLE, hnew, h'.key ht]
  · intro t ht
    rw [(relinked.data t.event).tick]
    rcases (mem_orderedInsert keyLE).mp ht with rfl | ht
    · rw [hself]
    · exact h'.tick t ht
  · intro t ht
    rw [(relinked.data t.event).priority]
    rcases (mem_orderedInsert keyLE).mp ht with rfl | ht
    · rw [hself]
    · exact h'.priority t ht
  · intro t ht
    rw [(relinked.data t.event).ownQueue]
    rcases (mem_orderedInsert keyLE).mp ht with rfl | ht
    · rw [hself]
    · exact h'.own t ht
  · intro t ht
    rw [relinked.curTick]
    rcases (mem_orderedInsert keyLE).mp ht with rfl | ht
    · exact later
    · exact h'.future t ht

theorem Filed.flag {queue : List Ticket} (h : Filed q bins queue) (e : EventId) (f : Event → Event)
    (links : ∀ x, (f x).nextBin = x.nextBin ∧ (f x).nextInBin = x.nextInBin ∧ (f x).nextBinStale =
    x.nextBinStale)
    (data : ∀ x, (f x).when = x.when ∧ (f x).priority = x.priority ∧ (f x).ownQueue = x.ownQueue) :
    Filed (q.modify e f) bins queue := by
  have each {β : Type} (get : Event → β) (same : ∀ x, get (f x) = get x) (x : EventId) :=
    modify_each q e f get same x
  refine ⟨h.holds.modify e f (fun x => (links x).1) (fun x => (links x).2.1)
    (fun x => (links x).2.2) ?_, h.events, ?_, ?_, h.sorted, ?_, h.future⟩
  · grind [Event.key]
  · exact fun t ht => (h.tick t ht).trans (each Event.when (fun x => (data x).1) _).symm
  · exact fun t ht => (h.priority t ht).trans (each Event.priority (fun x => (data x).2.1) _).symm
  · exact fun t ht => (each Event.ownQueue (fun x => (data x).2.2) _).trans (h.own t ht)

def priorityOf (q : EventQueue) (e : EventId) : Int := (q.events e).priority

structure Sound (q : EventQueue) (l : Ledger) : Prop where
  filed : ∃ bins queue, Filed q bins queue ∧ queue.Perm l.pending
  scheduled : ∀ e, (q.events e).scheduled = true ↔ ∃ t ∈ l.pending, t.event = e
  conserved : l.Conserved
  inOrder : ∀ t rest, (t, rest) ∈ l.serviced → ∀ t' ∈ rest, t.Before t'

theorem Sound.mem_iff (h : Sound q l) {queue : List Ticket} (filed : Filed q bins queue)
    (perm : queue.Perm l.pending) (e : EventId) :
    e ∈ elements bins ↔ (q.events e).scheduled = true := by
  rw [h.scheduled, filed.mem_iff]
  constructor
  · grind
  · grind

/-- A queue the event has left, and the tickets of the others. -/
structure Vacated (q : EventQueue) (l : Ledger) (event : EventId) (q' : EventQueue) : Prop where
  filed : ∃ bins queue, Filed q' bins queue ∧ queue.Perm (l.others event) ∧
    event ∉ elements bins
  relinked : Relinked q q'

theorem Sound.vacate (h : Sound q l) {event : EventId}
    (scheduled : (q.events event).scheduled = true) :
    ∃ q', q.remove event = .ok q' ∧ Vacated q l event q' := by
  obtain ⟨bins, queue, filed, perm⟩ := h.filed
  have mem := (h.mem_iff filed perm event).mpr scheduled
  obtain ⟨q', hq', filed', relinked⟩ := filed.remove mem
  refine ⟨q', hq', ⟨_, _, filed', perm.filter _, ?_⟩, relinked⟩
  rw [elements_erase filed.holds.sorted mem]
  exact filed.holds.nodup.not_mem_erase

theorem Sound.vacant (h : Sound q l) {event : EventId}
    (unscheduled : ¬ (q.events event).scheduled = true) : Vacated q l event q := by
  obtain ⟨bins, queue, filed, perm⟩ := h.filed
  have new : event ∉ elements bins := fun hm => unscheduled ((h.mem_iff filed perm event).mp hm)
  refine ⟨⟨bins, queue, filed, ?_, new⟩, .refl q⟩
  have hall : queue.filter (fun t => ¬ t.event = event) = queue := by
    rw [List.filter_eq_self]
    intro t ht
    simp only [decide_not, Bool.not_eq_eq_eq_not, Bool.not_true, decide_eq_false_iff_not]
    exact fun he => new ((filed.mem_iff event).mpr ⟨t, ht, he⟩)
  rw [← hall]
  exact perm.filter _

theorem mem_others {event : EventId} : t ∈ l.others event ↔ t ∈ l.pending ∧ t.event ≠ event:= by
  simp [Ledger.others]

theorem Sound.scheduled_others (h : Sound q l) {event e : EventId} (other : e ≠ event) :
    (q.events e).scheduled = true ↔ ∃ t ∈ l.others event, t.event = e := by
  rw [h.scheduled]
  constructor
  · rintro ⟨t, ht, rfl⟩
    exact ⟨t, mem_others.mpr ⟨ht, other⟩, rfl⟩
  · rintro ⟨t, ht, hte⟩
    exact ⟨t, (mem_others.mp ht).1, hte⟩

theorem mem_of {event : EventId} : t ∈ l.of event ↔ t ∈ l.pending ∧ t.event = event:= by
  simp [Ledger.of]

theorem Sound.fill {q₁ : EventQueue} (h : Sound q l) {event : EventId} {tick : Tick}
    (later : q.curTick ≤ tick) (vacated : Vacated q l event q₁) (f : Event → Event)
    (set : ∀ x, (f x).scheduled = true) (links : ∀ x, (f x).nextBin = x.nextBin ∧ (f x).nextInBin =
    x.nextInBin ∧ (f x).nextBinStale = x.nextBinStale)
    (data : ∀ x, (f x).when = x.when ∧ (f x).priority = x.priority ∧ (f x).ownQueue = x.ownQueue) :
    ∃ q', (q₁.setWhen event tick).insert event = .ok q' ∧
      Sound (q'.modify event f) ((l.withdraw event).issue event tick (q.priorityOf event)) ∧
      (q'.modify event f).curTick = q.curTick ∧
      (q'.modify event f).priorityOf = q.priorityOf := by
  obtain ⟨⟨bins, queue, filed, perm, new⟩, relinked₁⟩ := vacated
  have conserved := (h.conserved.withdraw event).issue event tick (q.priorityOf event)
  have newest : ∀ t ∈ queue, t.stamp < l.issued := fun t ht =>
    h.conserved.lt (mem_others.mp (perm.mem_iff.mp ht)).1
  obtain ⟨q', hq', ⟨bins', filed'⟩, relinked⟩ :=
    filed.insert new (relinked₁.curTick.trans_le later) newest
  have hprio : (q₁.events event).priority = q.priorityOf event := (relinked₁.data event).priority
  refine ⟨q', hq', ⟨⟨bins', _, filed'.flag event f links data, ?_⟩, ?_, conserved, h.inOrder⟩,
    relinked.curTick.trans relinked₁.curTick, ?_⟩
  · refine (perm_orderedInsert keyLE _ queue).trans ?_
    rw [hprio]
    exact perm.cons _
  · intro e
    by_cases he : e = event
    · subst he
      rw [modify_self, set]
      simp [Ledger.issue]
    · have other : ((q'.modify event f).events e).scheduled = (q.events e).scheduled := by
        rw [modify_other _ _ he, (relinked.data e).scheduled, setWhen, modify_other _ _ he,
          (relinked₁.data e).scheduled]
      rw [other, h.scheduled_others he]
      constructor
      · rintro ⟨t, ht, rfl⟩
        exact ⟨t, List.mem_cons_of_mem _ ht, rfl⟩
      · rintro ⟨t, ht, hte⟩
        rcases List.mem_cons.mp ht with rfl | ht
        · exact absurd hte.symm he
        · exact ⟨t, ht, hte⟩
  · funext e
    have first := modify_each q₁ event (fun x => { x with when := tick, ownQueue := true })
      Event.priority (fun _ => rfl) e
    have last := modify_each q' event f Event.priority (fun x => (data x).2.1) e
    exact last.trans ((relinked.data e).priority.trans (first.trans (relinked₁.data e).priority))

theorem withdraw_of_unscheduled (h : Sound q l) {event : EventId}
    (unscheduled : ¬ (q.events event).scheduled = true) : l.withdraw event = l := by
  have hne : ∀ t ∈ l.pending, ¬ t.event = event :=
    fun t ht he => unscheduled ((h.scheduled event).mpr ⟨t, ht, he⟩)
  have hothers : l.others event = l.pending := by grind [Ledger.others, List.filter_eq_self]
  have hof : l.of event = [] := by grind [Ledger.of, filter_eq_nil_iff]
  rw [Ledger.withdraw, hothers, hof]
  rfl

/-- What a call leads to: a failing assert of its own, or a sound queue. -/
def Settles (q : EventQueue) (l : Ledger) (result : Except Error EventQueue) : Prop :=
  result = .error .assertion ∨
    ∃ q', result = .ok q' ∧ Sound q' l ∧ q'.curTick = q.curTick ∧ q'.priorityOf = q.priorityOf

theorem schedule_settles (h : Sound q l) (event : EventId) (tick : Tick) :
    Settles q (l.issue event tick (q.priorityOf event)) (q.schedule event tick) := by
  rw [schedule]
  split
  · rename_i ready
    obtain ⟨later, unscheduled, -⟩ := ready
    have unscheduled' : ¬ (q.events event).scheduled = true := by simp [unscheduled]
    obtain ⟨q', hq', sound, curTick, priority⟩ := h.fill later (h.vacant unscheduled')
      (fun x => { x with scheduled := true }) (fun _ => rfl) (fun _ => ⟨rfl, rfl, rfl⟩)
      fun _ => ⟨rfl, rfl, rfl⟩
    rw [withdraw_of_unscheduled h unscheduled'] at sound
    rw [hq']
    exact Or.inr ⟨_, rfl, sound, curTick, priority⟩
  · exact Or.inl rfl

theorem deschedule_settles (h : Sound q l) (event : EventId) :
    Settles q (l.withdraw event) (q.deschedule event) := by
  rw [deschedule]
  split
  · rename_i ready
    obtain ⟨q', hq', ⟨bins, queue, filed, perm, new⟩, relinked⟩ := h.vacate ready.1
    rw [hq']
    refine Or.inr ⟨_, rfl, ⟨⟨bins, queue, filed.modify new _, perm⟩, ?_,
      h.conserved.withdraw event, h.inOrder⟩, relinked.curTick, ?_⟩
    · intro e
      by_cases he : e = event
      · subst he
        simp [Ledger.withdraw, Ledger.others]
      · rw [modify_other _ _ he, (relinked.data e).scheduled]
        exact h.scheduled_others he
    · funext e
      have same := modify_each q' event (fun x => { x with scheduled := false, squashed := false })
        Event.priority (fun _ => rfl) e
      exact same.trans (relinked.data e).priority
  · exact Or.inl rfl

theorem reschedule_settles (h : Sound q l) (event : EventId) (tick : Tick) (always : Bool) :
    Settles q ((l.withdraw event).issue event tick (q.priorityOf event))
      (q.reschedule event tick always) := by
  rw [reschedule]
  split
  · rename_i ready
    have fill := fun q₁ (vacated : Vacated q l event q₁) => h.fill ready.1 vacated
      (fun x => { x with squashed := false, scheduled := true }) (fun _ => rfl)
      (fun _ => ⟨rfl, rfl, rfl⟩) fun _ => ⟨rfl, rfl, rfl⟩
    by_cases scheduled : (q.events event).scheduled = true
    · obtain ⟨q₁, hq₁, vacated⟩ := h.vacate scheduled
      obtain ⟨q', hq', sound, curTick, priority⟩ := fill q₁ vacated
      rw [if_pos scheduled, hq₁, ok_bind]
      beta_reduce
      rw [hq']
      exact Or.inr ⟨_, rfl, sound, curTick, priority⟩
    · obtain ⟨q', hq', sound, curTick, priority⟩ := fill q (h.vacant scheduled)
      rw [if_neg scheduled]
      change Settles q _ (do
        let q' ← (q.setWhen event tick).insert event
        pure (q'.modify event _))
      rw [hq']
      exact Or.inr ⟨_, rfl, sound, curTick, priority⟩
  · exact Or.inl rfl

theorem squash_settles (h : Sound q l) (event : EventId) : Settles q l (.ok (q.squash event)):= by
  obtain ⟨bins, queue, filed, perm⟩ := h.filed
  have same : ∀ e, ((q.squash event).events e).scheduled = (q.events e).scheduled ∧
      ((q.squash event).events e).priority = (q.events e).priority := by
    intro e
    exact ⟨modify_each q event (fun x => { x with squashed := true }) Event.scheduled
      (fun _ => rfl) e, modify_each q event (fun x => { x with squashed := true }) Event.priority
      (fun _ => rfl) e⟩
  refine Or.inr ⟨_, rfl, ⟨⟨bins, queue, filed.flag event _ (fun _ => ⟨rfl, rfl, rfl⟩)
    fun _ => ⟨rfl, rfl, rfl⟩, perm⟩, ?_, h.conserved, h.inOrder⟩, rfl, ?_⟩
  · intro e
    rw [(same e).1]
    exact h.scheduled e
  · funext e
    exact (same e).2

theorem perform_settles (h : Sound q l) (op : Op) :
    Settles q (l.record q.priorityOf op) (q.perform op) := by
  cases op with
  | schedule event tick => exact schedule_settles h event tick
  | deschedule event => exact deschedule_settles h event
  | reschedule event tick always => exact reschedule_settles h event tick always
  | squash event => exact squash_settles h event

theorem process_settles (h : Sound q l) (process : List Op) :
    Settles q (process.foldl (Ledger.record q.priorityOf) l) (process.foldlM perform q) := by
  induction process generalizing q l with
  | nil => exact Or.inr ⟨q, rfl, h, rfl, rfl⟩
  | cons op process ih =>
    rw [foldlM_cons, List.foldl_cons]
    rcases perform_settles h op with herr | ⟨q₁, hq₁, sound, curTick, priority⟩
    · rw [herr]
      exact Or.inl rfl
    · rw [hq₁, ok_bind]
      rcases ih sound with herr | ⟨q', hq', sound', curTick', priority'⟩
      · exact Or.inl herr
      · rw [priority] at sound'
        exact Or.inr ⟨q', hq', sound', curTick'.trans curTick, priority'.trans priority⟩

/-- The ledger through `serviceOne`. -/
def Ledger.service (l : Ledger) (q : EventQueue) (process : List Op) : Ledger :=
  match q.head with
  | none => l
  | some event =>
    if (q.events event).squashed then l.serve event
    else process.foldl (Ledger.record q.priorityOf) (l.serve event)

theorem Filed.advance {q : EventQueue} {bins : List (Bin EventId)} {queue : List Ticket}
    (h : Filed q bins queue) {tick : Tick} (reached : ∀ t ∈ queue, tick ≤ t.tick) :
    Filed { q with curTick := tick } bins queue :=
  ⟨⟨h.holds.linked, h.holds.head, h.holds.nodup, h.holds.sorted, h.holds.bounded⟩, h.events,
    h.tick, h.priority, h.sorted, h.own, reached⟩

theorem Filed.head {b : Bin EventId} {queue : List Ticket} (h : Filed q (b :: bins) queue) :
    ∃ t rest, queue = t :: rest ∧ t.event = b.top ∧ ∀ x ∈ rest, t.Before x ∧ x.event ≠ b.top := by
  have events := h.events
  have nodup := h.holds.nodup
  have sorted := h.sorted
  rw [← events] at nodup
  cases queue with
  | nil => simp at events
  | cons t rest =>
    rw [List.map_cons, elements_cons, List.cons_append, List.cons.injEq] at events
    rw [List.map_cons, List.nodup_cons] at nodup
    refine ⟨t, rest, rfl, events.1, fun x hx => ⟨rel_of_pairwise_cons sorted hx, ?_⟩⟩
    intro hxe
    apply nodup.1
    rw [events.1, ← hxe]
    exact List.mem_map_of_mem hx

theorem Ticket.Before.tick_le {t' : Ticket} (h : t.Before t') : t.tick ≤ t'.tick := by
  have hle := h.le
  rw [Ticket.key, Ticket.key, Prod.Lex.toLex_le_toLex] at hle
  rcases hle with hlt | ⟨heq, -⟩
  · exact le_of_lt hlt
  · exact le_of_eq heq

theorem popHead_sound (h : Sound q l) {event : EventId} (head : q.head = some event) :
    ∃ q', q.popHead = .ok (event, q') ∧
      Relinked (q.modify event fun x => { x with scheduled := false }) q' ∧
      q.curTick ≤ (q'.events event).when ∧
      Sound { q' with curTick := (q'.events event).when } (l.serve event) ∧
      Sound (q'.modify event fun x => { x with squashed := false }) (l.serve event) := by
  obtain ⟨bins, queue, filed, perm⟩ := h.filed
  cases bins with
  | nil =>
    have hnone : q.head = none := filed.holds.head
    rw [hnone] at head
    simp at head
  | cons b bins =>
    have hb : event = b.top := by
      have htop : q.head = some b.top := filed.holds.head
      rw [htop] at head
      exact (Option.some.inj head).symm
    subst hb
    obtain ⟨q', hq', holds', relinked⟩ := popHead_spec filed.holds
    obtain ⟨t, rest, hqueue, hte, behind⟩ := filed.head
    have mem : b.top ∈ elements (b :: bins) := by simp
    have unflagged : Filed (q.modify b.top fun x => { x with scheduled := false }) (b :: bins)
        queue := filed.flag _ _ (fun _ => ⟨rfl, rfl, rfl⟩) fun _ => ⟨rfl, rfl, rfl⟩
    have filed' := unflagged.relink holds' relinked (filed.erase_events mem) filter_sublist
    have perm' : (queue.filter fun t => ¬ t.event = b.top).Perm (l.others b.top) := perm.filter _
    have new : b.top ∉ elements (Bins.erase q.keyOf b.top (b :: bins)) := by
      rw [elements_erase filed.holds.sorted mem]
      exact filed.holds.nodup.not_mem_erase
    have htmem : t ∈ queue := by rw [hqueue]; exact List.mem_cons_self
    have htick : (q'.events b.top).when = t.tick := by
      have hwhen : (q.events b.top).when = t.tick := by rw [filed.tick t htmem, hte]
      rw [(relinked.data b.top).tick, modify_self]
      exact hwhen
    have others : ∀ x ∈ l.others b.top, t.Before x := by grind
    have served : ∀ x ∈ l.of b.top, x = t := by
      intro x hx
      obtain ⟨hpending, hxe⟩ := mem_of.mp hx
      have hxq := perm.mem_iff.mpr hpending
      rw [hqueue] at hxq
      rcases List.mem_cons.mp hxq with rfl | hrest
      · rfl
      · exact absurd hxe (behind x hrest).2
    have inOrder : ∀ x rest, (x, rest) ∈ (l.serve b.top).serviced → ∀ y ∈ rest, x.Before y := by
      intro x rest hx y hy
      rcases List.mem_append.mp hx with hx | hx
      · grind
      · exact h.inOrder x rest hx y hy
    have scheduled : ∀ e, (q'.events e).scheduled = true
        ↔ ∃ x ∈ (l.serve b.top).pending, x.event = e := by
      intro e
      rw [(relinked.data e).scheduled]
      by_cases he : e = b.top
      · subst he
        simp [Ledger.serve, Ledger.others]
      · rw [modify_other _ _ he]
        exact h.scheduled_others he
    have reached : ∀ x ∈ queue.filter fun t => ¬ t.event = b.top,
        (q'.events b.top).when ≤ x.tick := by
      intro x hx
      rw [htick]
      exact (others x (perm'.mem_iff.mp hx)).tick_le
    refine ⟨q', hq', relinked, ?_, ⟨⟨_, _, filed'.advance reached, perm'⟩, scheduled,
      h.conserved.serve b.top, inOrder⟩, ⟨⟨_, _, filed'.modify new _, perm'⟩, ?_,
      h.conserved.serve b.top, inOrder⟩⟩
    · rw [htick]
      exact filed.future t htmem
    · intro e
      by_cases he : e = b.top
      · grind [modify_self]
      · rw [modify_other _ _ he]
        exact scheduled e

theorem serviceOne_settles (h : Sound q l) (process : List Op) :
    (q.serviceOne process = .error .nullHead ∧ q.head = none) ∨
    q.serviceOne process = .error .assertion ∨
    ∃ exit q', q.serviceOne process = .ok (exit, q') ∧ Sound q' (l.service q process) ∧
      q.curTick ≤ q'.curTick := by
  cases hhead : q.head with
  | none =>
    refine Or.inl ⟨?_, rfl⟩
    rw [serviceOne, popHead, hhead]
    rfl
  | some event =>
    right
    obtain ⟨q₁, hq₁, relinked, later, sound, idle⟩ := popHead_sound h hhead
    have hsquashed : (q₁.events event).squashed = (q.events event).squashed := by
      rw [(relinked.data event).squashed, modify_self]
    rw [serviceOne, hq₁, ok_bind, Ledger.service, hhead]
    dsimp only
    rw [hsquashed]
    by_cases squashed : (q.events event).squashed = true
    · rw [if_pos squashed, if_pos squashed]
      exact Or.inr ⟨_, _, rfl, idle, relinked.curTick.ge⟩
    · rw [if_neg squashed, if_neg squashed]
      have hprio : (EventQueue.mk q₁.events q₁.head (q₁.events event).when q₁.inserted).priorityOf
          = q.priorityOf := by
        funext e
        exact (relinked.data e).priority.trans
          (modify_each q event (fun x => { x with scheduled := false }) Event.priority
            (fun _ => rfl) e)
      rcases process_settles sound process with herr | ⟨q', hq', sound', curTick, -⟩
      · left
        rw [herr]
        rfl
      · simp_all

inductive Call where
  | op (op : Op)
  | serviceOne (process : List Op)
  deriving DecidableEq, Repr

/-- One call on the queue, with its entry in the ledger. -/
def step (s : EventQueue × Ledger) : Call → Except Error (EventQueue × Ledger)
  | .op op => do
    let q ← s.1.perform op
    pure (q, s.2.record s.1.priorityOf op)
  | .serviceOne process => do
    let (_, q) ← s.1.serviceOne process
    pure (q, s.2.service s.1 process)

/-- Nothing is scheduled yet. -/
structure Initial (s : EventQueue × Ledger) : Prop where
  head : s.1.head = none
  unscheduled : ∀ e, (s.1.events e).scheduled = false
  ledger : s.2 = ⟨0, [], [], []⟩

inductive Reachable : EventQueue × Ledger → Prop where
  | start {s : EventQueue × Ledger} : Initial s → Reachable s
  | call {s s' : EventQueue × Ledger} (c : Call) : Reachable s → step s c = .ok s' → Reachable s'

theorem Initial.sound (h : Initial s) : Sound s.1 s.2 := by
  have ledger := h.ledger
  refine ⟨⟨[], [], ⟨⟨trivial, h.head, nodup_nil, WellFormed.nil, Nat.zero_le _⟩, rfl, ?_, ?_,
    List.Pairwise.nil, ?_, ?_⟩, ?_⟩, ?_, ?_, ?_⟩
  · simp
  · simp
  · simp
  · simp
  · rw [ledger]
  · intro e
    simp [h.unscheduled e, ledger]
  · rw [ledger]
    exact List.Perm.refl _
  · simp [ledger]

theorem step_settles (h : Sound s.1 s.2) (c : Call) :
    (step s c = .error .nullHead ∧ s.1.head = none) ∨ step s c = .error .assertion ∨
      ∃ s', step s c = .ok s' ∧ Sound s'.1 s'.2 ∧ s.1.curTick ≤ s'.1.curTick := by
  cases c with
  | op op =>
    right
    rcases perform_settles h op with herr | ⟨q', hq', sound, curTick, -⟩
    · left
      rw [step, herr]
      rfl
    · right
      rw [step, hq']
      exact ⟨_, rfl, sound, curTick.ge⟩
  | serviceOne process =>
    rcases serviceOne_settles h process with ⟨herr, hhead⟩ | herr | ⟨exit, q', hq', sound, curTick⟩
    · refine Or.inl ⟨?_, hhead⟩
      rw [step, herr]
      rfl
    · simp [step, herr]
    · refine Or.inr (Or.inr ?_)
      rw [step, hq']
      exact ⟨_, rfl, sound, curTick⟩

theorem Reachable.sound (h : Reachable s) : Sound s.1 s.2 := by
  induction h with
  | start h => exact h.sound
  | call c _ hstep ih => grind [step_settles]

theorem Sound.drained (h : Sound q l) (empty : q.head = none) : l.pending = []:= by
  obtain ⟨bins, queue, filed, perm⟩ := h.filed
  cases bins with
  | nil =>
    have hqueue : queue = [] := by simpa using filed.events
    rw [hqueue] at perm
    exact perm.nil_eq.symm
  | cons b bins =>
    have hhead : q.head = some b.top := filed.holds.head
    rw [empty] at hhead
    simp at hhead

def Event.fresh (priority : Int) : Event :=
  ⟨none, none, false, 0, priority, false, false, true, false, false⟩

def idle : EventQueue × Ledger := (⟨fun _ => Event.fresh 0, none, 0, 0⟩, ⟨0, [], [], []⟩)

end Gem5.Sim.EventQueue
