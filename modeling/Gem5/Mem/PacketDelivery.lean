import Gem5.Mem.PacketQueue
import Mathlib.Data.List.Perm.Basic
import Mathlib.Tactic.Basic
import Mathlib.Order.Nat

/-!
# Every packet is delivered once, in order and not early

While the queue waits for a retry its first packet is ready and no event is scheduled; when it
does not wait, the event is scheduled no earlier than the first packet is ready.
-/

namespace Gem5.Mem

open List Option Bool

namespace PacketQueue

theorem emplaceAfter_none {p : DeferredPacket → Bool} {d : DeferredPacket}
    {list : List DeferredPacket} (h : emplaceAfter p d list = none) : ∀ x ∈ list, p x = false := by
  induction list with
  | nil => simp
  | cons x list ih => grind [emplaceAfter]

theorem emplaceAfter_some {p : DeferredPacket → Bool} {d : DeferredPacket}
    {list list' : List DeferredPacket} (h : emplaceAfter p d list = some list') :
    ∃ pre x post, list = pre ++ x :: post ∧ p x = true ∧ (∀ y ∈ post, p y = false) ∧
      list' = pre ++ x :: d :: post := by
  induction list generalizing list' with
  | nil => simp [emplaceAfter] at h
  | cons x list ih =>
    rw [emplaceAfter] at h
    split at h
    · grind
    · rename_i hnone
      split at h
      · rename_i hx
        cases h
        exact ⟨[], x, list, rfl, hx, emplaceAfter_none hnone, rfl⟩
      · simp at h

/-- The place of a new packet: right after something that stops it, or first, and before
nothing that stops it. -/
structure Placed (stops : DeferredPacket → Bool) (d : DeferredPacket)
    (pre post : List DeferredPacket) : Prop where
  last : ∀ x ∈ pre.getLast?, stops x = true
  behind : ∀ y ∈ post, stops y = false

/-- A new packet keeps a relation between earlier and later packets when it comes after what
it must not overtake. -/
theorem pairwise_insert {d : DeferredPacket} {pre post : List DeferredPacket}
    {R : DeferredPacket → DeferredPacket → Prop} (old : (pre ++ post).Pairwise R)
    (before : ∀ x ∈ pre, R x d) (behind : ∀ y ∈ post, R d y) : (pre ++ d :: post).Pairwise R := by
  rw [pairwise_append] at old ⊢
  obtain ⟨hpre, hpost, hcross⟩ := old
  refine ⟨hpre, List.Pairwise.cons behind hpost, fun x hx y hy => ?_⟩
  rcases List.mem_cons.mp hy with rfl | hy
  · exact before x hx
  · exact hcross x hx y hy

/-- The test at which a new packet stops on its way to the front. -/
def stopsAt (q : PacketQueue) (pkt : Packet) (tick : Nat) (x : DeferredPacket) : Bool :=
  (q.forceOrder && x.pkt.matchAddr pkt) || x.tick ≤ tick

/-- The fields that sending and scheduling leave alone. -/
structure SameSetup (q q' : PacketQueue) : Prop where
  curTick : q'.curTick = q.curTick
  forceOrder : q'.forceOrder = q.forceOrder
  enqueued : q'.enqueued = q.enqueued

theorem SameSetup.refl (q : PacketQueue) : SameSetup q q := ⟨rfl, rfl, rfl⟩

theorem schedSendEvent_idle {q : PacketQueue} (notWaiting : q.waitingOnRetry = false) :
    ∃ q', q.schedSendEvent maxTick = .ok q' ∧ SameSetup q q' ∧
      q'.transmitList = q.transmitList ∧ q'.sendEvent = q.sendEvent ∧
      q'.waitingOnRetry = false := by
  simp only [schedSendEvent, notWaiting, false_eq_true, if_false, ne_eq, not_true_eq_false]
  split
  · exact ⟨_, rfl, ⟨rfl, rfl, rfl⟩, rfl, rfl, rfl⟩
  · exact ⟨q, rfl, .refl q, rfl, rfl, notWaiting⟩

theorem schedSendEvent_arms {q : PacketQueue} {tick : Nat} (notWaiting : q.waitingOnRetry = false)
    (below : tick < maxTick) (now : q.curTick < maxTick) :
    ∃ q' event, q.schedSendEvent tick = .ok q' ∧ SameSetup q q' ∧
      q'.transmitList = q.transmitList ∧ q'.waitingOnRetry = false ∧
      q'.sendEvent = some event ∧
      ((tick ≤ event ∧ q.curTick ≤ event) ∨ q.sendEvent = some event) := by
  have wrap : (q.curTick + 1) % 2 ^ 64 = q.curTick + 1 := by
    have : maxTick = 2 ^ 64 - 1 := rfl
    omega
  simp only [schedSendEvent, notWaiting, false_eq_true, if_false, ne_eq,
    Nat.ne_of_lt below, not_false_eq_true, if_true, wrap]
  have set : q.setEvent (max tick (q.curTick + 1))
      = .ok { q with sendEvent := some (max tick (q.curTick + 1)) } := by
    rw [setEvent, if_pos (by omega)]
  cases hevent : q.sendEvent with
  | none =>
    exact ⟨_, _, set, ⟨rfl, rfl, rfl⟩, rfl, notWaiting, rfl,
      Or.inl ⟨Nat.le_max_left _ _, Nat.le_of_succ_le (Nat.le_max_right _ _)⟩⟩
  | some scheduled =>
    dsimp only
    split
    · exact ⟨_, _, set, ⟨rfl, rfl, rfl⟩, rfl, notWaiting, rfl,
        Or.inl ⟨Nat.le_max_left _ _, Nat.le_of_succ_le (Nat.le_max_right _ _)⟩⟩
    · exact ⟨q, scheduled, rfl, .refl q, rfl, notWaiting, hevent, Or.inr rfl⟩

/-- An event that is scheduled is not in the past, and the first packet is ready by then. -/
def EventInTime (q : PacketQueue) : Prop :=
  ∀ event, q.sendEvent = some event →
    q.curTick ≤ event ∧ ∃ d list, q.transmitList = d :: list ∧ d.tick ≤ event

theorem sendDeferredPacket_spec {q : PacketQueue} {d : DeferredPacket} {list : List DeferredPacket}
    (notWaiting : q.waitingOnRetry = false) (noEvent : q.sendEvent = none)
    (front : q.transmitList = d :: list) (ready : d.tick ≤ q.curTick)
    (below : ∀ x ∈ list, x.tick < maxTick) (now : q.curTick < maxTick) (accept : Bool) :
    ∃ q', q.sendDeferredPacket accept = .ok (d, q') ∧ SameSetup q q' ∧
      q'.waitingOnRetry = (! accept) ∧
      q'.transmitList = (if accept then list else d :: list) ∧
      (accept = false → q'.sendEvent = none) ∧
      (accept = true → EventInTime q' ∧ (list ≠ [] → ∃ event, q'.sendEvent = some event)) := by
  have hready : q.deferredPacketReady = true := by
    simpa [deferredPacketReady, front] using ready
  simp only [sendDeferredPacket, notWaiting, hready, front]
  cases accept with
  | false => exact ⟨_, rfl, ⟨rfl, rfl, rfl⟩, rfl, rfl, fun _ => noEvent, by simp⟩
  | true =>
    cases list with
    | nil =>
      obtain ⟨q', hq', setup, hlist, hevent, hwaiting⟩ :=
        schedSendEvent_idle (q := { q with transmitList := [], waitingOnRetry := false }) rfl
      refine ⟨q', ?_, ⟨setup.curTick, setup.forceOrder, setup.enqueued⟩, hwaiting, hlist,
        by simp, fun _ => ⟨?_, by simp⟩⟩
      · change (do
          let q ← ({ q with transmitList := [], waitingOnRetry := false } :
            PacketQueue).schedSendEvent maxTick
          pure (d, q)) = Except.ok (d, q')
        rw [hq']
        rfl
      · intro event he
        rw [hevent] at he
        rw [noEvent] at he
        simp at he
    | cons next list =>
      obtain ⟨q', event, hq', setup, hlist, hwaiting, hevent, htime⟩ :=
        schedSendEvent_arms
          (q := { q with transmitList := next :: list, waitingOnRetry := false }) rfl
          (below next List.mem_cons_self) now
      refine ⟨q', ?_, ⟨setup.curTick, setup.forceOrder, setup.enqueued⟩, hwaiting, hlist,
        by simp, fun _ => ⟨?_, fun _ => ⟨event, hevent⟩⟩⟩
      · change (do
          let q ← ({ q with transmitList := next :: list, waitingOnRetry := false } :
            PacketQueue).schedSendEvent next.tick
          pure (d, q)) = Except.ok (d, q')
        rw [hq']
        rfl
      · intro event' he
        rw [hevent] at he
        cases he
        rcases htime with ⟨htick, hnow⟩ | hold
        · refine ⟨setup.curTick.trans_le hnow, next, list, hlist, htick⟩
        · grind

theorem schedSendTiming_spec {q : PacketQueue} {pkt : Packet} {tick : Nat}
    (waiting : q.waitingOnRetry = true → q.sendEvent = none ∧ q.deferredPacketReady = true)
    (inTime : EventInTime q)
    (wakeup : q.transmitList ≠ [] → q.waitingOnRetry = true ∨ ∃ event, q.sendEvent = some event)
    (now : q.curTick < maxTick) (later : q.curTick ≤ tick) (below : tick < maxTick)
    (express : pkt.isExpressSnoop = false) :
    q.schedSendTiming pkt tick = .error .grown ∨
    ∃ q' pre post, q.schedSendTiming pkt tick = .ok q' ∧ q.transmitList = pre ++ post ∧
      q'.transmitList = pre ++ ⟨tick, pkt, q.enqueued⟩ :: post ∧
      Placed (q.stopsAt pkt tick) ⟨tick, pkt, q.enqueued⟩ pre post ∧
      q'.curTick = q.curTick ∧ q'.forceOrder = q.forceOrder ∧ q'.enqueued = q.enqueued + 1 ∧
      q'.waitingOnRetry = q.waitingOnRetry ∧
      (q'.waitingOnRetry = true → q'.sendEvent = none ∧ q'.deferredPacketReady = true) ∧
      EventInTime q' ∧ (q'.waitingOnRetry = true ∨ ∃ event, q'.sendEvent = some event) := by
  rw [schedSendTiming, if_neg (not_not.mpr later), if_neg (by simp [express])]
  by_cases grown : ! q.disableSanityCheck ∧ 100 < q.transmitList.length
  · exact Or.inl (if_pos grown)
  rw [if_neg grown]
  right
  dsimp only
  cases hplace : emplaceAfter
      (fun x => (q.forceOrder && x.pkt.matchAddr pkt) || x.tick ≤ tick)
      ⟨tick, pkt, q.enqueued⟩ q.transmitList with
  | some list =>
    obtain ⟨pre, x, post, hlist, hx, hpost, hlist'⟩ := emplaceAfter_some hplace
    -- the packet goes behind another, so the front and the event stay
    have front : ∃ d rest rest', q.transmitList = d :: rest ∧ list = d :: rest' := by
      cases pre with
      | nil => exact ⟨x, post, _, hlist, hlist'⟩
      | cons y pre => exact ⟨y, _, _, hlist, hlist'⟩
    obtain ⟨d, rest, rest', hd, hd'⟩ := front
    refine ⟨_, pre ++ [x], post, rfl, by simp [hlist], by simp [hlist'], ⟨?_, hpost⟩, rfl, rfl,
      rfl, rfl, ?_, ?_, ?_⟩
    · intro y hy
      rw [List.getLast?_concat, mem_def, Option.some.injEq] at hy
      subst hy
      exact hx
    · grind [deferredPacketReady]
    · intro event he
      obtain ⟨hnow, d', list', hfront, hle⟩ := inTime event he
      rw [hd] at hfront
      cases hfront
      exact ⟨hnow, d, rest', hd', hle⟩
    · exact wakeup (by simp [hd])
  | none =>
    have hnone := emplaceAfter_none hplace
    -- no packet stops the new one, so a waiting queue would have a front that is not ready
    have notWaiting : q.waitingOnRetry = false := by
      by_contra hw
      have hready := (waiting (by simpa using hw)).2
      cases hlist : q.transmitList with
      | nil => simp [deferredPacketReady, hlist] at hready
      | cons d rest =>
        have hstop := hnone d (by rw [hlist]; exact List.mem_cons_self)
        simp only [or_eq_false_iff, decide_eq_false_iff_not] at hstop
        simp only [deferredPacketReady, hlist, decide_eq_true_eq] at hready
        omega
    obtain ⟨q', event, hq', setup, hlist, hwaiting, hevent, htime⟩ :=
      schedSendEvent_arms
        (q := { q with
          enqueued := q.enqueued + 1
          transmitList := ⟨tick, pkt, q.enqueued⟩ :: q.transmitList })
        notWaiting below now
    refine ⟨q', [], q.transmitList, hq', rfl, hlist, ⟨by simp, hnone⟩, setup.curTick,
      setup.forceOrder, setup.enqueued, hwaiting.trans notWaiting.symm, ?_, ?_,
      Or.inr ⟨event, hevent⟩⟩
    · intro hw
      rw [hwaiting] at hw
      simp at hw
    · intro event' he
      rw [hevent] at he
      cases he
      rcases htime with ⟨htick, hnow⟩ | hold
      · exact ⟨setup.curTick.trans_le hnow, _, _, hlist, htick⟩
      · obtain ⟨hnow, d, rest, hfront, hle⟩ := inTime event hold
        have hstop := hnone d (by rw [hfront]; exact List.mem_cons_self)
        simp only [or_eq_false_iff, decide_eq_false_iff_not] at hstop
        exact ⟨setup.curTick.trans_le hnow, _, _, hlist, by dsimp only; omega⟩

end PacketQueue

namespace Link

open PacketQueue

/-- What was accepted, and behind it what is still queued. -/
def history (l : Link) : List DeferredPacket :=
  l.accepted.map Prod.fst ++ l.queue.transmitList

/-- Packets in the order the queue promises: by tick, or those of one address as queued. -/
def InOrder (forceOrder : Bool) (x y : DeferredPacket) : Prop :=
  if forceOrder then y.pkt.matchAddr x.pkt = true → x.stamp < y.stamp else x.tick ≤ y.tick

structure Inv (l : Link) : Prop where
  owed : l.retryOwed = l.queue.waitingOnRetry
  waiting : l.queue.waitingOnRetry = true →
    l.queue.sendEvent = none ∧ l.queue.deferredPacketReady = true
  inTime : EventInTime l.queue
  wakeup : l.queue.transmitList ≠ [] →
    l.queue.waitingOnRetry = true ∨ ∃ event, l.queue.sendEvent = some event
  now : l.queue.curTick < maxTick
  below : ∀ d ∈ l.queue.transmitList, d.tick < maxTick
  stamps : (l.history.map DeferredPacket.stamp).Perm (List.range l.queue.enqueued)
  notEarly : ∀ a ∈ l.accepted, a.1.tick ≤ a.2 ∧ a.2 ≤ l.queue.curTick
  inOrder : l.history.Pairwise (InOrder l.queue.forceOrder)

variable {l l' : Link}

theorem placed_tick_le {q : PacketQueue} {pkt : Packet} {tick : Nat} {d x : DeferredPacket}
    {pre post : List DeferredPacket} (placed : Placed (q.stopsAt pkt tick) d pre post)
    (force : ¬ q.forceOrder = true) (sorted : pre.Pairwise (InOrder q.forceOrder))
    (hx : x ∈ pre) : x.tick ≤ tick := by
  rcases eq_nil_or_concat pre with rfl | ⟨init, last, rfl⟩
  · simp at hx
  · have hlast : last.tick ≤ tick := by
      have hstop := placed.last last (by simp)
      simpa [stopsAt, force] using hstop
    rw [concat_eq_append, pairwise_append] at sorted
    rw [concat_eq_append, mem_append, List.mem_singleton] at hx
    rcases hx with hx | rfl
    · have hle := sorted.2.2 x hx last (by simp)
      rw [InOrder, if_neg force] at hle
      exact hle.trans hlast
    · exact hlast

theorem Initial.inv (h : Initial maxTick l) : Inv l := by
  have hist : l.history = [] := by simp [history, h.none, h.empty]
  refine ⟨by rw [h.notOwed, h.notWaiting], ?_, ?_, fun hne => absurd h.empty hne, h.early, ?_, ?_,
    ?_, ?_⟩
  · simp [h.notWaiting]
  · intro event he
    simp [h.noEvent] at he
  · simp [h.empty]
  · rw [hist, h.noPackets]
    exact List.Perm.refl _
  · simp [h.none]
  · rw [hist]
    exact List.Pairwise.nil

theorem Inv.stamp_lt (h : Inv l) {x : DeferredPacket} (hx : x ∈ l.history) :
    x.stamp < l.queue.enqueued :=
  List.mem_range.mp (h.stamps.mem_iff.mp (List.mem_map_of_mem hx))

theorem Inv.send (h : Inv l) {pkt : Packet} {tick : Nat}
    (enabled : l.Enabled maxTick (.send pkt tick)) :
    l.step (.send pkt tick) = .error .grown ∨ ∃ l', l.step (.send pkt tick) = .ok l' ∧ Inv l' := by
  obtain ⟨later, below, express⟩ := enabled
  rcases schedSendTiming_spec h.waiting h.inTime h.wakeup h.now later below express with
    herr | ⟨q', pre, post, hq', hlist, hlist', placed, hcur, hforce, henq, hwait, waiting', inTime',
      wakeup'⟩
  · left
    rw [step, herr]
    rfl
  · right
    have hist : l.history = (l.accepted.map Prod.fst ++ pre) ++ post := by
      rw [history, hlist, List.append_assoc]
    have hist' : ({ l with queue := q' } : Link).history
        = (l.accepted.map Prod.fst ++ pre) ++ ⟨tick, pkt, l.queue.enqueued⟩ :: post := by
      rw [history, hlist', List.append_assoc]
    refine ⟨{ l with queue := q' }, by rw [step, hq']; rfl, ⟨?_, waiting', inTime',
      fun _ => wakeup', ?_, ?_, ?_, ?_, ?_⟩⟩
    · exact h.owed.trans hwait.symm
    · exact hcur.trans_lt h.now
    · intro d hd
      rw [hlist', mem_append, List.mem_cons] at hd
      have old := h.below d
      rw [hlist, mem_append] at old
      rcases hd with hd | rfl | hd
      · exact old (Or.inl hd)
      · exact below
      · exact old (Or.inr hd)
    · have hstamps := h.stamps
      rw [hist] at hstamps
      rw [hist']
      rw [henq, List.range_succ]
      refine (List.Perm.map _ perm_middle).trans ?_
      exact (List.Perm.cons _ hstamps).trans (perm_append_singleton _ _).symm
    · intro a ha
      obtain ⟨h1, h2⟩ := h.notEarly a ha
      exact ⟨h1, hcur.symm ▸ h2⟩
    · have old := h.inOrder
      have newest := fun x (hx : x ∈ l.history) => h.stamp_lt hx
      rw [hist'] at *
      rw [hist] at old newest
      rw [hforce]
      refine pairwise_insert old ?_ ?_
      · intro x hx
        rw [InOrder]
        split
        · exact fun _ => newest x (mem_append_left _ hx)
        · rename_i hforce
          rcases List.mem_append.mp hx with hx | hx
          · obtain ⟨a, ha, rfl⟩ := List.mem_map.mp hx
            obtain ⟨h1, h2⟩ := h.notEarly a ha
            exact h1.trans (h2.trans later)
          · exact placed_tick_le placed hforce (old.sublist (sublist_append_of_sublist_left
              (sublist_append_right _ _))) hx
      · intro y hy
        have hstop := placed.behind y hy
        rw [stopsAt, or_eq_false_iff, and_eq_false_iff,
          decide_eq_false_iff_not] at hstop
        rw [InOrder]
        split
        · grind
        · dsimp only
          omega

/-- A queue that is about to ask the peer about its first packet. -/
structure AboutToSend (l : Link) (q : PacketQueue) : Prop where
  list : q.transmitList = l.queue.transmitList
  notWaiting : q.waitingOnRetry = false
  noEvent : q.sendEvent = none
  ready : ∃ d list, q.transmitList = d :: list ∧ d.tick ≤ q.curTick
  later : l.queue.curTick ≤ q.curTick
  now : q.curTick < maxTick
  forceOrder : q.forceOrder = l.queue.forceOrder
  enqueued : q.enqueued = l.queue.enqueued

theorem Inv.sent (h : Inv l) {q : PacketQueue} (about : AboutToSend l q) (accept : Bool) :
    ∃ sent, q.sendDeferredPacket accept = .ok sent ∧ Inv (l.answer accept sent) := by
  obtain ⟨d, list, hfront, hready⟩ := about.ready
  have below := h.below
  have stamps := h.stamps
  have inOrder := h.inOrder
  rw [history, ← about.list, hfront] at stamps inOrder
  rw [← about.list, hfront] at below
  obtain ⟨q', hq', setup, hwait, hlist, hrefused, haccepted⟩ :=
    sendDeferredPacket_spec about.notWaiting about.noEvent hfront hready
      (fun x hx => below x (List.mem_cons_of_mem _ hx)) about.now accept
  have hcur : l.queue.curTick ≤ q'.curTick := about.later.trans setup.curTick.ge
  have hnow : q'.curTick < maxTick := setup.curTick.trans_lt about.now
  have henq : q'.enqueued = l.queue.enqueued := setup.enqueued.trans about.enqueued
  have hforce : q'.forceOrder = l.queue.forceOrder := setup.forceOrder.trans about.forceOrder
  refine ⟨(d, q'), hq', ?_⟩
  cases accept with
  | false =>
    simp only [false_eq_true, if_false] at hlist
    have hist : (l.answer false (d, q')).history = l.accepted.map Prod.fst ++ d :: list := by
      exact congrArg _ hlist
    refine ⟨hwait.symm, fun _ => ⟨hrefused rfl, ?_⟩, ?_, fun _ => Or.inl hwait, hnow, ?_, ?_, ?_, ?_⟩
    · change q'.deferredPacketReady = true
      simpa [deferredPacketReady, hlist, setup.curTick] using hready
    · intro event he
      change q'.sendEvent = some event at he
      rw [hrefused rfl] at he
      simp at he
    · intro x hx
      exact below x (hlist ▸ hx)
    · rw [hist]
      change List.Perm _ (List.range q'.enqueued)
      rw [henq]
      exact stamps
    · intro a ha
      obtain ⟨h1, h2⟩ := h.notEarly a ha
      exact ⟨h1, h2.trans hcur⟩
    · rw [hist]
      change List.Pairwise (InOrder q'.forceOrder) _
      rw [hforce]
      exact inOrder
  | true =>
    obtain ⟨inTime, wakeup⟩ := haccepted rfl
    have hist : (l.answer true (d, q')).history = l.accepted.map Prod.fst ++ d :: list := by
      simp [history, answer, hlist]
    refine ⟨hwait.symm, fun hw => ?_, inTime, fun hne => Or.inr (wakeup ?_), hnow, ?_, ?_, ?_, ?_⟩
    · change q'.waitingOnRetry = true at hw
      rw [hwait] at hw
      simp at hw
    · aesop
    · aesop
    · rw [hist]
      change List.Perm _ (List.range q'.enqueued)
      rw [henq]
      exact stamps
    · intro a ha
      change a ∈ l.accepted ++ [(d, q'.curTick)] at ha
      rw [mem_append, List.mem_singleton] at ha
      rcases ha with ha | rfl
      · obtain ⟨h1, h2⟩ := h.notEarly a ha
        exact ⟨h1, h2.trans hcur⟩
      · exact ⟨hready.trans setup.curTick.ge, le_rfl⟩
    · rw [hist]
      change List.Pairwise (InOrder q'.forceOrder) _
      rw [hforce]
      exact inOrder

theorem Inv.fire (h : Inv l) {accept : Bool} (enabled : l.Enabled maxTick (.fire accept)) :
    ∃ l', l.step (.fire accept) = .ok l' ∧ Inv l' := by
  obtain ⟨tick, hevent, below⟩ := enabled
  obtain ⟨hlater, d, list, hfront, hready⟩ := h.inTime tick hevent
  have notWaiting : l.queue.waitingOnRetry = false := by
    by_contra hw
    have hnone := (h.waiting (by simpa using hw)).1
    rw [hevent] at hnone
    simp at hnone
  have about : AboutToSend l { l.queue with curTick := tick, sendEvent := none } :=
    ⟨rfl, notWaiting, rfl, ⟨d, list, hfront, hready⟩, hlater, below, rfl, rfl⟩
  obtain ⟨sent, hsent, inv⟩ := h.sent about accept
  refine ⟨l.answer accept sent, ?_, inv⟩
  have hprocess : ({ l.queue with curTick := tick, sendEvent := none } :
      PacketQueue).processSendEvent accept = .ok sent := by
    rw [processSendEvent, if_neg (by simp [notWaiting])]
    exact hsent
  rw [step, hevent, getD_some, hprocess]
  rfl

theorem Inv.retry (h : Inv l) {accept : Bool} (enabled : l.Enabled maxTick (.retry accept)) :
    ∃ l', l.step (.retry accept) = .ok l' ∧ Inv l' := by
  have waiting : l.queue.waitingOnRetry = true := h.owed ▸ enabled
  obtain ⟨hevent, hready⟩ := h.waiting waiting
  have front : ∃ d list, l.queue.transmitList = d :: list ∧ d.tick ≤ l.queue.curTick := by
    cases hlist : l.queue.transmitList with
    | nil => simp [deferredPacketReady, hlist] at hready
    | cons d list => exact ⟨d, list, rfl, by simpa [deferredPacketReady, hlist] using hready⟩
  have about : AboutToSend l { l.queue with waitingOnRetry := false } :=
    ⟨rfl, rfl, hevent, front, le_rfl, h.now, rfl, rfl⟩
  obtain ⟨sent, hsent, inv⟩ := h.sent about accept
  refine ⟨l.answer accept sent, ?_, inv⟩
  rw [step, PacketQueue.retry, if_neg (by simp [waiting]), hsent]
  rfl

theorem Inv.advance (h : Inv l) {tick : Nat} (enabled : l.Enabled maxTick (.advance tick)) :
    Inv { l with queue := { l.queue with curTick := tick } } := by
  obtain ⟨later, below, event⟩ := enabled
  refine ⟨h.owed, fun hw => ?_, ?_, h.wakeup, below, h.below, h.stamps, ?_, h.inOrder⟩
  · obtain ⟨hevent, hready⟩ := h.waiting hw
    cases hlist : l.queue.transmitList with
    | nil => simp [deferredPacketReady, hlist] at hready
    | cons d list => grind [deferredPacketReady]
  · intro e he
    obtain ⟨-, d, list, hfront, hle⟩ := h.inTime e he
    exact ⟨event e he, d, list, hfront, hle⟩
  · intro a ha
    obtain ⟨h1, h2⟩ := h.notEarly a ha
    exact ⟨h1, h2.trans later⟩

theorem Inv.drainState (h : Inv l) (state : DrainState) :
    Inv { l with queue := { l.queue with drainState := state } } :=
  ⟨h.owed, h.waiting, h.inTime, h.wakeup, h.now, h.below, h.stamps, h.notEarly, h.inOrder⟩

theorem Inv.step (h : Inv l) (a : Action) (enabled : l.Enabled maxTick a) :
    l.step a = .error .grown ∨ ∃ l', l.step a = .ok l' ∧ Inv l' := by
  cases a with
  | send => exact h.send enabled
  | fire => exact Or.inr (h.fire enabled)
  | retry => exact Or.inr (h.retry enabled)
  | advance => exact Or.inr ⟨_, rfl, h.advance enabled⟩
  | drain | resume => exact Or.inr ⟨_, rfl, h.drainState _⟩

theorem Reachable.inv (h : Reachable maxTick l) : Inv l := by
  induction h with
  | start h => exact h.inv
  | step a _ enabled hstep ih =>
    rcases ih.step a enabled with herr | ⟨l', hl', inv⟩
    · rw [herr] at hstep
      cases hstep
    · rw [hl'] at hstep
      cases hstep
      exact inv

structure Delivers (l : Link) (a : Action) : Prop where
  /-- Every packet queued is accepted or still queued, once. -/
  once : (l.history.map DeferredPacket.stamp).Perm (List.range l.queue.enqueued)
  notEarly : ∀ d tick, (d, tick) ∈ l.accepted → d.tick ≤ tick
  byTick : l.queue.forceOrder = false →
    (l.accepted.map Prod.fst).Pairwise fun x y => x.tick ≤ y.tick
  byAddress : l.queue.forceOrder = true →
    l.history.Pairwise fun x y => y.pkt.matchAddr x.pkt = true → x.stamp < y.stamp
  wakeup : l.queue.transmitList ≠ [] →
    l.queue.waitingOnRetry = true ∨ ∃ event, l.queue.sendEvent = some event
  asserts : l.Enabled maxTick a → ∀ failure, l.step a = .error failure → failure = .grown

theorem packets_delivered (h : Reachable maxTick l) (a : Action) : Delivers l a := by
  have inv := h.inv
  refine ⟨inv.stamps, fun d tick hd => (inv.notEarly _ hd).1, fun hforce => ?_, fun hforce => ?_,
    inv.wakeup, fun enabled failure hfail => ?_⟩
  · have sub := inv.inOrder.sublist (List.sublist_append_left _ _)
    exact sub.imp fun hxy => by simpa [InOrder, hforce] using hxy
  · exact inv.inOrder.imp fun hxy => by simpa [InOrder, hforce] using hxy
  · rcases inv.step a enabled with herr | ⟨l', hl', -⟩
    · rw [herr] at hfail
      cases hfail
      rfl
    · rw [hl'] at hfail
      cases hfail

def idle (forceOrder : Bool) : Link :=
  ⟨⟨[], none, 0, false, forceOrder, false, .running, 0⟩, false, []⟩

theorem idle_initial {limit : Nat} (pos : 0 < limit) (forceOrder : Bool) :
    Initial limit (idle forceOrder) := ⟨rfl, rfl, rfl, rfl, pos, rfl, rfl⟩

def read (addr : BitVec 64) : Packet := ⟨addr, false, false⟩

theorem packets_delivered_run :
    ∃ l, Reachable maxTick l ∧ l.accepted.length = 1 ∧ l.queue.transmitList.length = 1 ∧
      Delivers l (.retry true) := by
  have start : Reachable maxTick (idle true) := .start (idle_initial (by decide) true)
  have one := Reachable.step (.send (read 0x40) 5) start ⟨by decide, by decide, rfl⟩ rfl
  have two := Reachable.step (.send (read 0x80) 3) one ⟨by decide, by decide, rfl⟩ rfl
  have three := Reachable.step (.fire true) two ⟨3, rfl, by decide⟩ rfl
  have four := Reachable.step (.fire false) three ⟨5, rfl, by decide⟩ rfl
  exact ⟨_, four, rfl, rfl, packets_delivered four (.retry true)⟩

/-- A packet for `MaxTick` waits without an event. -/
theorem maxTick_never_scheduled :
    ¬ ∀ l, Reachable (maxTick + 1) l → l.queue.transmitList ≠ [] →
      l.queue.waitingOnRetry = true ∨ ∃ event, l.queue.sendEvent = some event := by
  intro claim
  have start : Reachable (maxTick + 1) (idle false) := .start (idle_initial (by decide) false)
  have one := Reachable.step (.send (read 0x40) maxTick) start ⟨by decide, by decide, rfl⟩ rfl
  rcases claim _ one (by simp [idle]) with h | ⟨event, h⟩
  · simp [idle] at h
  · simp [idle] at h

end Link

end Gem5.Mem
