import Gem5.Lib.Runs
import Gem5.Mem.DramLoops

/-!
# Conservation of requests

Every burst of a read is served by a queued write, waits, or has left the response queue. The
packet is answered with the last of them, and a write when it is accepted.
-/

namespace Gem5.Mem.DRAMCtrl

open Dram Chunks Runs List Function Option Multiset

variable {prm : Params}

/-- The bursts of a packet. -/
def ofPacket (k : Nat) (bag : Multiset Burst) : Multiset Burst := bag.filter (·.pkt = k)

/-- A read, the bursts of it that wait, those that have been served, the number of its answers
and its helper. -/
structure Tracked (k : Nat) (a : Accepted) (waiting served : Multiset Burst) (answers : Nat)
    (helper : Option BurstHelper) : Prop where
  parts : (a.bursts : Multiset (Nat × Nat)) = a.fromWrQ + (waiting + served).map part
  answered : answers = if waiting = 0 then 1 else 0
  joined : waiting ≠ 0 → (waiting.card = 1 ∧ ∀ b ∈ waiting, b.burstHelper = none) ∨
    ((∀ b ∈ waiting, b.burstHelper = some k) ∧
      ∃ h, helper = some h ∧ h.burstsServiced + waiting.card = h.burstCount)

/-- The packets that were accepted, the bursts of reads that wait or were served, and the
answers. -/
structure Packets (prm : Params) (pending served : Multiset Burst) (accepted : List Accepted)
    (responses : List Nat) (helpers : Nat → Option BurstHelper) : Prop where
  tiles : ∀ a ∈ accepted, Tiles prm.burstSize a.pkt.addr a.bursts (a.pkt.addr + a.pkt.size)
  write : ∀ k a, accepted[k]? = some a → a.pkt.isWrite = true → responses.count k = 1
  read : ∀ k a, accepted[k]? = some a → a.pkt.isWrite = false →
    Tracked k a (ofPacket k pending) (ofPacket k served) (responses.count k) (helpers k)
  known : ∀ b ∈ pending + served, ∃ a, accepted[b.pkt]? = some a ∧ a.pkt.isWrite = false
  answers : ∀ k ∈ responses, k < accepted.length

section Packets

variable {pending served new : Multiset Burst} {accepted : List Accepted} {responses : List Nat}
  {helpers helpers' : Nat → Option BurstHelper} {a : Accepted}

theorem Packets.fresh (h : Packets prm pending served accepted responses helpers) :
    ofPacket accepted.length pending = 0 ∧ ofPacket accepted.length served = 0 ∧
      responses.count accepted.length = 0 := by
  have none : ∀ b ∈ pending + served, b.pkt ≠ accepted.length := by
    intro b mem same
    obtain ⟨a, at_, -⟩ := h.known b mem
    have inside := (List.getElem?_eq_some_iff.mp at_).1
    omega
  refine ⟨Multiset.filter_eq_nil.mpr fun b mem => ?_, Multiset.filter_eq_nil.mpr fun b mem => ?_,
    List.count_eq_zero.mpr fun mem => absurd (h.answers _ mem) (Nat.lt_irrefl _)⟩
  · exact none b (Multiset.mem_add.mpr (.inl mem))
  · exact none b (Multiset.mem_add.mpr (.inr mem))

theorem getElem?_snoc {k : Nat} {a' : Accepted} :
    (accepted ++ [a])[k]? = some a' ↔ accepted[k]? = some a' ∨ (k = accepted.length ∧ a' = a) := by
  grind

theorem count_snoc_of_ne {k n : Nat} (other : k ≠ n) :
    (responses ++ [n]).count k = responses.count k := by
  rw [count_append, List.count_singleton, if_neg (by simpa using Ne.symm other), Nat.add_zero]

theorem Packets.tiles_snoc (h : Packets prm pending served accepted responses helpers)
    (tiles : Tiles prm.burstSize a.pkt.addr a.bursts (a.pkt.addr + a.pkt.size)) :
    ∀ a' ∈ accepted ++ [a],
      Tiles prm.burstSize a'.pkt.addr a'.bursts (a'.pkt.addr + a'.pkt.size) := by
  intro a' mem
  rcases List.mem_append.mp mem with old | last
  · exact h.tiles a' old
  · rw [List.mem_singleton.mp last]
    exact tiles

theorem Packets.answers_snoc (h : Packets prm pending served accepted responses helpers)
    (a : Accepted) : ∀ k ∈ responses ++ [accepted.length], k < (accepted ++ [a]).length := by
  intro k mem
  rw [length_append, length_singleton]
  rcases List.mem_append.mp mem with old | last
  · exact Nat.lt_succ_of_lt (h.answers k old)
  · grind

theorem Packets.acceptWrite (h : Packets prm pending served accepted responses helpers)
    (isWrite : a.pkt.isWrite = true)
    (tiles : Tiles prm.burstSize a.pkt.addr a.bursts (a.pkt.addr + a.pkt.size)) :
    Packets prm pending served (accepted ++ [a]) (responses ++ [accepted.length]) helpers := by
  have fresh := h.fresh
  refine ⟨h.tiles_snoc tiles, fun k a' at_ w => ?_, fun k a' at_ r => ?_, fun b mem => ?_,
    h.answers_snoc a⟩
  · rcases getElem?_snoc.mp at_ with old | ⟨rfl, rfl⟩
    · have inside := (List.getElem?_eq_some_iff.mp old).1
      rw [count_snoc_of_ne (Nat.ne_of_lt inside)]
      exact h.write k a' old w
    · rw [count_append, fresh.2.2, List.count_singleton_self]
  · rcases getElem?_snoc.mp at_ with old | ⟨rfl, rfl⟩
    · have inside := (List.getElem?_eq_some_iff.mp old).1
      rw [count_snoc_of_ne (Nat.ne_of_lt inside)]
      exact h.read k a' old r
    · rw [isWrite] at r
      cases r
  · obtain ⟨a', old, r⟩ := h.known b mem
    exact ⟨a', getElem?_snoc.mpr (.inl old), r⟩

theorem ofPacket_add (k : Nat) (s t : Multiset Burst) :
    ofPacket k (s + t) = ofPacket k s + ofPacket k t := filter_add _ _ _

/-- A read waits for the bursts that went into the read queue, and is answered at once if there
are none. -/
theorem Packets.acceptRead (h : Packets prm pending served accepted responses helpers)
    (helpers' : Nat → Option BurstHelper) (isRead : a.pkt.isWrite = false)
    (tiles : Tiles prm.burstSize a.pkt.addr a.bursts (a.pkt.addr + a.pkt.size))
    (own : ∀ b ∈ new, b.pkt = accepted.length) (tracked : Tracked accepted.length a new 0 (if new =
    0 then 1 else 0) (helpers' accepted.length))
    (others : ∀ k ≠ accepted.length, helpers' k = helpers k) :
    Packets prm (pending + new) served (accepted ++ [a])
      (if new = 0 then responses ++ [accepted.length] else responses) helpers' := by
  obtain ⟨freshP, freshS, freshR⟩ := h.fresh
  have mine : ofPacket accepted.length new = new := Multiset.filter_eq_self.mpr own
  have notMine : ∀ k, k < accepted.length → ofPacket k new = 0 := fun k inside =>
    Multiset.filter_eq_nil.mpr fun b mem same => by
      rw [own b mem] at same
      omega
  have count : ∀ k, k < accepted.length →
      (if new = 0 then responses ++ [accepted.length] else responses).count k
        = responses.count k := by
    intro k inside
    split
    · exact count_snoc_of_ne (Nat.ne_of_lt inside)
    · rfl
  refine ⟨h.tiles_snoc tiles, fun k a' at_ w => ?_, fun k a' at_ r => ?_, fun b mem => ?_,
    fun k mem => ?_⟩
  · rcases getElem?_snoc.mp at_ with old | ⟨rfl, rfl⟩
    · rw [count k (List.getElem?_eq_some_iff.mp old).1]
      exact h.write k a' old w
    · rw [isRead] at w
      cases w
  · rw [ofPacket_add]
    rcases getElem?_snoc.mp at_ with old | ⟨rfl, rfl⟩
    · have inside := (List.getElem?_eq_some_iff.mp old).1
      rw [count k inside, notMine k inside, add_zero, others k (Nat.ne_of_lt inside)]
      exact h.read k a' old r
    · grind
  · rw [add_right_comm, mem_add] at mem
    rcases mem with old | new
    · obtain ⟨a', at_, r⟩ := h.known b old
      exact ⟨a', getElem?_snoc.mpr (.inl at_), r⟩
    · exact ⟨a, getElem?_snoc.mpr (.inr ⟨own b new, rfl⟩), isRead⟩
  · split at mem
    · exact h.answers_snoc a k mem
    · exact h.answers_snoc a k (mem_append_left _ mem)

theorem Packets.serve {p : Burst} {rest : Multiset Burst} {responses' : List Nat}
    (h : Packets prm (p ::ₘ rest) served accepted responses helpers)
    (at_ : accepted[p.pkt]? = some a) (isRead : a.pkt.isWrite = false) (tracked : Tracked p.pkt a
    (ofPacket p.pkt rest) (p ::ₘ ofPacket p.pkt served) (responses'.count p.pkt) (helpers' p.pkt))
    (counts : ∀ k ≠ p.pkt, responses'.count k = responses.count k)
    (others : ∀ k ≠ p.pkt, helpers' k = helpers k)
    (answers : ∀ k ∈ responses', k = p.pkt ∨ k ∈ responses) :
    Packets prm rest (p ::ₘ served) accepted responses' helpers' := by
  have inside := (List.getElem?_eq_some_iff.mp at_).1
  refine ⟨h.tiles, fun k a' old w => ?_, fun k a' old r => ?_, fun b mem => ?_, fun k mem => ?_⟩
  · have other : k ≠ p.pkt := by
      rintro rfl
      rw [at_] at old
      rw [← Option.some.inj old, isRead] at w
      cases w
    rw [counts k other]
    exact h.write k a' old w
  · by_cases own : k = p.pkt
    · subst own
      rw [at_] at old
      rw [← Option.some.inj old]
      have mine : ofPacket p.pkt (p ::ₘ served) = p ::ₘ ofPacket p.pkt served :=
        Multiset.filter_cons_of_pos _ rfl
      rw [mine]
      exact tracked
    · have out : ∀ bag, ofPacket k (p ::ₘ bag) = ofPacket k bag := fun bag =>
        Multiset.filter_cons_of_neg _ fun same => own same.symm
      have before := h.read k a' old r
      rw [out] at before
      rw [out, counts k own, others k own]
      exact before
  · refine h.known b ?_
    rw [cons_add, ← add_cons]
    exact mem
  · rcases answers k mem with rfl | old
    · exact inside
    · exact h.answers k old

theorem Packets.respond {p : Burst} {rest : Multiset Burst}
    (h : Packets prm (p ::ₘ rest) served accepted responses helpers) :
    (p.burstHelper = none ∧
      Packets prm rest (p ::ₘ served) accepted (responses ++ [p.pkt]) helpers) ∨
    ∃ hp, p.burstHelper = some p.pkt ∧ helpers p.pkt = some hp ∧
      if hp.burstsServiced + 1 = hp.burstCount then
        Packets prm rest (p ::ₘ served) accepted (responses ++ [p.pkt])
          (Function.update helpers p.pkt none)
      else
        Packets prm rest (p ::ₘ served) accepted responses
          (Function.update helpers p.pkt
            (some { hp with burstsServiced := hp.burstsServiced + 1 })) := by
  obtain ⟨a, at_, isRead⟩ := h.known p (by simp)
  have before := h.read p.pkt a at_ isRead
  have first : ofPacket p.pkt (p ::ₘ rest) = p ::ₘ ofPacket p.pkt rest :=
    Multiset.filter_cons_of_pos _ rfl
  rw [first] at before
  have waits : p ::ₘ ofPacket p.pkt rest ≠ 0 := cons_ne_zero
  have silent : responses.count p.pkt = 0 := before.answered.trans (if_neg waits)
  have parts : (a.bursts : Multiset (Nat × Nat))
      = a.fromWrQ + (ofPacket p.pkt rest + p ::ₘ ofPacket p.pkt served).map part := by
    rw [add_cons, ← cons_add]
    exact before.parts
  have answer : (responses ++ [p.pkt]).count p.pkt = 1 := by
    rw [count_append, silent, List.count_singleton_self]
  have counts : ∀ k ≠ p.pkt, (responses ++ [p.pkt]).count k = responses.count k := fun k other =>
    count_snoc_of_ne other
  have answers : ∀ k ∈ responses ++ [p.pkt], k = p.pkt ∨ k ∈ responses := fun k mem =>
    (List.mem_append.mp mem).symm.imp_left List.mem_singleton.mp
  rcases before.joined waits with ⟨one, alone⟩ | ⟨shared, hp, there, sum⟩
  · have none : ofPacket p.pkt rest = 0 := by
      rw [card_cons] at one
      exact Multiset.card_eq_zero.mp (Nat.succ.inj one)
    refine .inl ⟨alone p (Multiset.mem_cons_self _ _), h.serve at_ isRead ?_ counts
      (fun _ _ => rfl) answers⟩
    exact ⟨parts, by rw [answer, if_pos none], fun some_ => absurd none some_⟩
  · rw [card_cons] at sum
    have update : ∀ v, ∀ k ≠ p.pkt, Function.update helpers p.pkt v k = helpers k :=
      fun v k other => update_of_ne other _ _
    refine .inr ⟨hp, shared p (Multiset.mem_cons_self _ _), there, ?_⟩
    split
    · next all =>
      have none : ofPacket p.pkt rest = 0 := Multiset.card_eq_zero.mp (by omega)
      refine h.serve at_ isRead ?_ counts (update _) answers
      exact ⟨parts, by rw [answer, if_pos none], fun some_ => absurd none some_⟩
    · next more =>
      have some_ : ofPacket p.pkt rest ≠ 0 := fun none => by
        rw [none, card_zero] at sum
        omega
      refine h.serve at_ isRead ?_ (fun _ _ => rfl) (update _) (fun k mem => .inr mem)
      refine ⟨parts, by rw [silent, if_neg some_], fun _ => .inr ⟨fun b mem => ?_, ?_⟩⟩
      · exact shared b (Multiset.mem_cons_of_mem mem)
      · grind

end Packets

/-- The read queues, their total, the response queue and its event. -/
structure ReadSide (prm : Params) (queues : Nat → List DRAMPacket) (total : Nat)
    (resp : List DRAMPacket) (event : Bool) : Prop where
  counted : total = (bursts prm.numPriorities queues).card
  filed : Filed prm.numPriorities queues
  room : total + resp.length ≤ prm.readBufferSize
  event : event = !resp.isEmpty

/-- The bursts of reads that wait. -/
def pending (prm : Params) (c : DRAMCtrl) : Multiset Burst :=
  bursts prm.numPriorities c.readQueue + (c.respQueue.map DRAMPacket.toBurst : List Burst)

structure Inv (prm : Params) (c : DRAMCtrl) : Prop where
  writes : WriteSide prm c.writeQueue c.isInWriteQueue c.totalWriteQueueSize
  reads : ReadSide prm c.readQueue c.totalReadQueueSize c.respQueue c.respondEvent
  packets : Packets prm (pending prm c) (c.served : Multiset Burst) c.accepted c.responses c.helpers

variable {c : DRAMCtrl} {pkt : Packet} {qos : Nat}

theorem inv_new (prm : Params) : Inv prm new := by
  have none : bursts prm.numPriorities (fun _ => []) = 0 := by simp [bursts]
  have filed : Filed prm.numPriorities fun _ => [] := fun _ _ p mem => by cases mem
  refine ⟨⟨?_, fun a => ?_, fun b mem => ?_, ?_, filed, Nat.zero_le _⟩,
    ⟨?_, filed, Nat.zero_le _, rfl⟩, ⟨fun a mem => ?_, fun k a at_ => ?_, fun k a at_ => ?_,
    fun b mem => ?_, fun k mem => ?_⟩⟩
  all_goals simp_all [new, pending]

theorem escalate_inv (h : Inv prm c) {mId tgtPrio : Nat} (tgt : tgtPrio < prm.numPriorities) :
    Inv prm { c with
      readQueue := escalate prm c.readQueue mId tgtPrio
      writeQueue := escalate prm c.writeQueue mId tgtPrio } := by
  obtain ⟨filedR, sameR⟩ := escalate_keeps h.reads.filed mId tgt
  obtain ⟨filedW, sameW⟩ := escalate_keeps h.writes.filed mId tgt
  refine ⟨⟨?_, ?_, ?_, ?_, filedW, h.writes.room⟩, ⟨?_, filedR, h.reads.room, h.reads.event⟩, ?_⟩
  · rw [sameW]
    exact h.writes.once
  · rw [sameW]
    exact h.writes.members
  · rw [sameW]
    exact h.writes.inside
  · rw [sameW]
    exact h.writes.counted
  · rw [sameR]
    exact h.reads.counted
  · have packets := h.packets
    rw [pending] at packets ⊢
    rw [sameR]
    exact packets

theorem qosSchedule_inv (h : Inv prm c) (sched : Schedule)
    (known : ∀ e ∈ sched.escalations, e.2 < prm.numPriorities) : Inv prm (c.qosSchedule prm sched) := by
  have general : ∀ (l : List (Nat × Nat)) (c : DRAMCtrl), (∀ e ∈ l, e.2 < prm.numPriorities) →
      Inv prm c → Inv prm (l.foldl (fun c e => { c with
        readQueue := escalate prm c.readQueue e.1 e.2
        writeQueue := escalate prm c.writeQueue e.1 e.2 }) c) := by
    intro l
    induction l with
    | nil => exact fun c _ h => h
    | cons e rest ih => grind [escalate_inv]
  exact general _ c known h

theorem addToWriteQueue_inv (h : Inv prm c) (isWrite : pkt.isWrite = true) (fits : Fits prm pkt)
    (some_ : 0 < pkt.size) (known : qos < prm.numPriorities)
    (room : c.writeQueueFull prm (dramPktCount prm pkt) = false) :
    ∃ c', c.addToWriteQueue prm pkt (dramPktCount prm pkt) qos = some c' ∧ Inv prm c' := by
  have space : c.totalWriteQueueSize + dramPktCount prm pkt ≤ prm.writeBufferSize := by
    simpa [writeQueueFull] using room
  obtain ⟨⟨ctrl, addr, parts⟩, looped, tiles, side, queues, isIn, total, only⟩ :=
    writeLoop_keeps ⟨c, pkt.addr, []⟩ c.accepted.length
      (Cut.start fits some_) fits known h.writes space
  subst only
  rw [addToWriteQueue, looped]
  exact ⟨_, rfl, side, h.reads, h.packets.acceptWrite (a := ⟨pkt, parts, []⟩) isWrite tiles⟩

theorem addToReadQueue_inv (h : Inv prm c) (isRead : pkt.isWrite = false) (fits : Fits prm pkt)
    (some_ : 0 < pkt.size) (known : qos < prm.numPriorities)
    (room : c.readQueueFull prm (dramPktCount prm pkt) = false) :
    ∃ c', c.addToReadQueue prm pkt (dramPktCount prm pkt) qos = some c' ∧ Inv prm c' := by
  have space : c.totalReadQueueSize + c.respQueue.length + dramPktCount prm pkt
      ≤ prm.readBufferSize := by
    simpa [readQueueFull] using room
  have start : Reading prm pkt (dramPktCount prm pkt) c.accepted.length c (dramPktCount prm pkt)
      ⟨c, pkt.addr, 0, none, [], []⟩ 0 :=
    { cut := Cut.start fits some_
      counted := Nat.zero_add _
      parts := rfl
      serviced := rfl
      queued := (add_zero _).symm
      filed := h.reads.filed
      total := rfl
      own := fun b mem => absurd mem (notMem_zero b)
      single := fun _ => ⟨rfl, rfl⟩
      split := fun none => absurd rfl none
      only := ⟨_, _, _, rfl⟩ }
  have positive : dramPktCount prm pkt ≠ 0 := by
    intro none
    have cut := Cut.start fits some_
    rw [none] at cut
    have same : pkt.addr = pkt.addr + pkt.size := cut.done
    omega
  obtain ⟨⟨ctrl, addr, serviced, helper, parts, fromWrQ⟩, bag, looped, read⟩ :=
    readLoop_keeps start fits known h.writes space
  have card := read.card
  obtain ⟨queues, total, helpers, only⟩ := read.only
  dsimp only at only card
  subst only
  have tiles := read.cut.done
  have own : ∀ b ∈ bag, b.pkt = c.accepted.length := fun b mem => (read.own b mem).1
  have side : ReadSide prm queues total c.respQueue c.respondEvent := by
    have total := read.total
    refine ⟨?_, read.filed, ?_, h.reads.event⟩
    · rw [read.queued, card_add, ← h.reads.counted]
      exact total
    · dsimp only at total
      omega
  have waits : bursts prm.numPriorities queues + (c.respQueue.map DRAMPacket.toBurst : List Burst)
      = pending prm c + bag := by
    rw [read.queued, pending]
    ac_rfl
  have bursts : (parts : Multiset (Nat × Nat)) = fromWrQ + (bag + 0).map part := by
    rw [add_zero]
    exact read.parts
  rw [addToReadQueue, if_neg positive, looped]
  simp only [bind_eq_bind, bind_some]
  by_cases all : serviced = dramPktCount prm pkt
  · have none : bag = 0 := Multiset.card_eq_zero.mp (by omega)
    have packets := h.packets.acceptRead (a := ⟨pkt, parts, fromWrQ⟩) c.helpers
      isRead tiles own ⟨bursts, rfl, fun more => absurd none more⟩ (fun _ _ => rfl)
    rw [← waits, if_pos none] at packets
    obtain ⟨-, same⟩ := read.single (.inl none)
    subst same
    rw [if_pos all]
    exact ⟨_, rfl, h.writes, side, packets⟩
  · have more : bag ≠ 0 := by
      rintro rfl
      rw [card_zero] at card
      omega
    rw [if_neg all]
    rcases Nat.lt_or_ge 1 (dramPktCount prm pkt) with several | few
    · -- a helper counts the bursts that were served at once
      obtain ⟨helped, changed⟩ := read.split more several
      subst helped changed
      have packets := h.packets.acceptRead (a := ⟨pkt, parts, fromWrQ⟩)
        (Function.update (Function.update c.helpers c.accepted.length
          (some ⟨dramPktCount prm pkt, 0⟩)) c.accepted.length
          (some ⟨dramPktCount prm pkt, serviced⟩))
        isRead tiles own ?_ (fun k other => by
          rw [update_of_ne other, update_of_ne other])
      · rw [← waits, if_neg more] at packets
        simp only [update_self]
        exact ⟨_, rfl, h.writes, side, packets⟩
      · refine ⟨bursts, rfl, fun _ => .inr ⟨fun b mem => (read.own b mem).2, ?_⟩⟩
        refine ⟨_, update_self _ _ _, ?_⟩
        dsimp only
        omega
    · obtain ⟨helped, same⟩ := read.single (.inr few)
      subst helped same
      have one : bag.card = 1 := by omega
      have packets := h.packets.acceptRead (a := ⟨pkt, parts, fromWrQ⟩) c.helpers
        isRead tiles own ⟨bursts, rfl, fun _ => .inl ⟨one, fun b mem => (read.own b mem).2⟩⟩
        (fun _ _ => rfl)
      rw [← waits, if_neg more] at packets
      exact ⟨_, rfl, h.writes, side, packets⟩

theorem recvTimingReq_inv (h : Inv prm c) {sched : Schedule} (fits : Fits prm pkt)
    (some_ : 0 < pkt.size) (known : sched.priority < prm.numPriorities)
    (escalations : ∀ e ∈ sched.escalations, e.2 < prm.numPriorities) :
    ∃ c', c.recvTimingReq prm pkt sched = some c' ∧ Inv prm c' := by
  have scheduled := qosSchedule_inv h sched escalations
  rw [recvTimingReq, if_pos ⟨known, Nat.ne_of_gt some_⟩]
  dsimp only
  cases kind : pkt.isWrite with
  | true =>
    cases full : (c.qosSchedule prm sched).writeQueueFull prm (dramPktCount prm pkt) with
    | true => exact ⟨_, rfl, scheduled.writes, scheduled.reads, scheduled.packets⟩
    | false => exact addToWriteQueue_inv scheduled kind fits some_ known full
  | false =>
    cases full : (c.qosSchedule prm sched).readQueueFull prm (dramPktCount prm pkt) with
    | true => exact ⟨_, rfl, scheduled.writes, scheduled.reads, scheduled.packets⟩
    | false => exact addToReadQueue_inv scheduled kind fits some_ known full

theorem processRespondEvent_inv (h : Inv prm c) (event : c.respondEvent = true) :
    ∃ c', c.processRespondEvent = some c' ∧ Inv prm c' := by
  cases queue : c.respQueue with
  | nil =>
    have none := h.reads.event
    rw [event, queue] at none
    cases none
  | cons p rest =>
    have counted := h.reads.counted
    have room := h.reads.room
    rw [queue, length_cons] at room
    have side : ReadSide prm c.readQueue c.totalReadQueueSize rest (!rest.isEmpty) :=
      ⟨counted, h.reads.filed, by omega, rfl⟩
    have packets := h.packets
    have split : pending prm c = p.toBurst ::ₘ
        (bursts prm.numPriorities c.readQueue + (rest.map DRAMPacket.toBurst : List Burst)) := by
      rw [pending, queue, List.map_cons, ← cons_coe, add_cons]
    have served : ((c.served ++ [p.toBurst] : List Burst) : Multiset Burst)
        = p.toBurst ::ₘ (c.served : Multiset Burst) := by
      rw [← coe_add, add_comm]
      rfl
    rw [split] at packets
    rw [processRespondEvent, queue]
    dsimp only
    rcases packets.respond with ⟨alone, after⟩ | ⟨hp, shared, there, after⟩
    · rw [← served] at after
      rw [respond, alone]
      exact ⟨_, rfl, h.writes, side, after⟩
    · rw [← served] at after
      rw [respond, shared]
      simp only [there, bind_eq_bind, bind_some]
      split at after
      · next all =>
        rw [if_pos all]
        exact ⟨_, rfl, h.writes, side, after⟩
      · next more =>
        rw [if_neg more]
        exact ⟨_, rfl, h.writes, side, after⟩

theorem candidate_some {d : Decision} {queues : Nat → List DRAMPacket} {q i : Nat}
    (found : candidate prm d queues = some (q, i)) :
    q < prm.numPriorities ∧ i < (queues q).length := by
  obtain ⟨t, mem, chosen⟩ := List.exists_of_findSome?_eq_some found
  obtain ⟨j, picked, same⟩ := Option.map_eq_some_iff.mp chosen
  obtain ⟨rfl, rfl⟩ := Prod.mk.inj same
  rw [mem_reverse, List.mem_range] at mem
  exact ⟨mem, by simpa using (Option.filter_eq_some_iff.mp picked).2⟩

theorem issueRead_inv (h : Inv prm c) {q i : Nat} (known : q < prm.numPriorities)
    (inside : i < (c.readQueue q).length) : ∃ c', c.issueRead prm q i = some c' ∧ Inv prm c' := by
  have at_ : (c.readQueue q)[i]? = some (c.readQueue q)[i] := List.getElem?_eq_getElem inside
  have own := h.reads.filed q known _ (getElem_mem inside)
  have shrunk := bursts_erase known at_
  have counted := h.reads.counted
  have room := h.reads.room
  rw [shrunk, card_cons] at counted
  have event : c.respondEvent ≠ c.respQueue.isEmpty := by simp [h.reads.event]
  rw [issueRead, at_]
  simp only [bind_eq_bind, bind_some, eraseFrom, if_pos own, if_neg event]
  refine ⟨_, rfl, h.writes, ⟨?_, ?_, ?_, ?_⟩, ?_⟩
  · dsimp only
    omega
  · exact h.reads.filed.shrink fun p mem => mem_of_mem_eraseIdx mem
  · grind
  · simp
  · have packets := h.packets
    have same : pending prm c = bursts prm.numPriorities
          (Function.update c.readQueue q ((c.readQueue q).eraseIdx i))
        + ((c.respQueue ++ [(c.readQueue q)[i]]).map DRAMPacket.toBurst : List Burst) := by
      rw [pending, shrunk, map_append, ← coe_add, ← singleton_add,
        add_comm _ (bursts _ _), add_assoc, add_comm (Multiset.ofList (c.respQueue.map _))]
      rfl
    rw [same] at packets
    exact packets

theorem issueWrite_inv (h : Inv prm c) (draining : Bool) {q i : Nat} (known : q < prm.numPriorities)
    (inside : i < (c.writeQueue q).length) :
    ∃ c', c.issueWrite prm draining q i = some c' ∧ Inv prm c' := by
  have at_ : (c.writeQueue q)[i]? = some (c.writeQueue q)[i] := List.getElem?_eq_getElem inside
  have own := h.writes.filed q known _ (getElem_mem inside)
  have side := h.writes.erase known at_
  rw [issueWrite, at_]
  simp only [bind_eq_bind, bind_some, eraseFrom, if_pos own]
  split
  · exact ⟨_, rfl, side, h.reads, h.packets⟩
  · exact ⟨_, rfl, side, h.reads, h.packets⟩

theorem retryWrites_inv (h : Inv prm c) : Inv prm (retryWrites prm c) := by
  rw [retryWrites]
  split
  · exact ⟨h.writes, h.reads, h.packets⟩
  · exact h

theorem processNextReqEvent_inv (h : Inv prm c) (d : Decision) :
    ∃ c', c.processNextReqEvent prm d = some c' ∧ Inv prm c' := by
  have turned : Inv prm (c.turnaround d.turnPolicy) := ⟨h.writes, h.reads, h.packets⟩
  rw [processNextReqEvent]
  generalize c.turnaround d.turnPolicy = t at turned
  by_cases busy : d.allBusy = true
  · rw [if_pos busy]
    exact ⟨t, rfl, turned⟩
  · rw [if_neg busy]
    cases t.busState with
    | read =>
      dsimp only
      split
      · split
        · exact ⟨_, rfl, retryWrites_inv ⟨turned.writes, turned.reads, turned.packets⟩⟩
        · exact ⟨t, rfl, turned⟩
      · cases found : candidate prm d t.readQueue with
        | none => exact ⟨t, rfl, turned⟩
        | some =>
          obtain ⟨known, inside⟩ := candidate_some found
          obtain ⟨c', issued, inv⟩ := issueRead_inv turned known inside
          exact ⟨_, congrArg (Option.map _) issued, retryWrites_inv inv⟩
    | write =>
      cases found : candidate prm d t.writeQueue with
      | none => exact ⟨t, rfl, turned⟩
      | some =>
        obtain ⟨known, inside⟩ := candidate_some found
        obtain ⟨c', issued, inv⟩ := issueWrite_inv turned d.draining known inside
        exact ⟨_, congrArg (Option.map _) issued, retryWrites_inv inv⟩

/-- The bursts of a packet in the read queues and in the response queue. -/
def waiting (prm : Params) (c : DRAMCtrl) (k : Nat) : List Burst :=
  (((List.range prm.numPriorities).flatMap c.readQueue ++ c.respQueue).map
    DRAMPacket.toBurst).filter (·.pkt = k)

/-- The bursts of a packet that have left the response queue. -/
def servedOf (c : DRAMCtrl) (k : Nat) : List Burst := c.served.filter (·.pkt = k)

/-- The places of the queued writes. -/
def queuedPlaces (prm : Params) (c : DRAMCtrl) : List Nat :=
  ((List.range prm.numPriorities).flatMap c.writeQueue).map fun p => burstAlign prm p.addr

/-- No request is lost and none is answered twice; the set and the totals are those of the
queues. -/
structure Conserves (prm : Params) (c : DRAMCtrl) : Prop where
  partition : ∀ a ∈ c.accepted, Tiles prm.burstSize a.pkt.addr a.bursts (a.pkt.addr + a.pkt.size)
  writes : ∀ k a, c.accepted[k]? = some a → a.pkt.isWrite = true → c.responses.count k = 1
  reads : ∀ k a, c.accepted[k]? = some a → a.pkt.isWrite = false →
    a.bursts.Perm (a.fromWrQ ++ (waiting prm c k ++ servedOf c k).map part) ∧
      c.responses.count k = if waiting prm c k = [] then 1 else 0
  answers : ∀ k ∈ c.responses, k < c.accepted.length
  places : (queuedPlaces prm c).Nodup ∧ ∀ a, a ∈ c.isInWriteQueue ↔ a ∈ queuedPlaces prm c
  readTotal : c.totalReadQueueSize = ((List.range prm.numPriorities).flatMap c.readQueue).length
  readRoom : c.totalReadQueueSize + c.respQueue.length ≤ prm.readBufferSize
  writeTotal : c.totalWriteQueueSize = ((List.range prm.numPriorities).flatMap c.writeQueue).length
  writeRoom : c.totalWriteQueueSize ≤ prm.writeBufferSize

theorem coe_flatMap (n : Nat) (queues : Nat → List DRAMPacket) :
    ((((List.range n).flatMap queues).map DRAMPacket.toBurst : List Burst) : Multiset Burst)
      = bursts n queues := by
  induction n with
  | zero => simp [bursts]
  | succ n ih =>
    rw [List.range_succ, flatMap_append, map_append, ← coe_add, ih, bursts,
      bursts, Finset.sum_range_succ]
    simp

theorem coe_waiting (prm : Params) (c : DRAMCtrl) (k : Nat) :
    (waiting prm c k : Multiset Burst) = ofPacket k (pending prm c) := by
  rw [waiting, ← filter_coe, map_append, ← coe_add, coe_flatMap]
  rfl

theorem Inv.conserves (h : Inv prm c) : Conserves prm c := by
  have queued : ((queuedPlaces prm c : List Nat) : Multiset Nat)
      = (bursts prm.numPriorities c.writeQueue).map fun b => burstAlign prm b.addr := by
    rw [queuedPlaces, ← coe_flatMap, Multiset.map_coe, List.map_map]
    rfl
  have total : ∀ queues : Nat → List DRAMPacket,
      (bursts prm.numPriorities queues).card
        = ((List.range prm.numPriorities).flatMap queues).length := fun queues => by
    rw [← coe_flatMap, coe_card, length_map]
  refine ⟨h.packets.tiles, h.packets.write, fun k a at_ isRead => ?_, h.packets.answers, ⟨?_, ?_⟩,
    h.reads.counted.trans (total _), h.reads.room, h.writes.counted.trans (total _), h.writes.room⟩
  · have tracked := h.packets.read k a at_ isRead
    rw [← coe_waiting] at tracked
    refine ⟨Multiset.coe_eq_coe.mp ?_, ?_⟩
    · rw [← coe_add, ← Multiset.map_coe, ← coe_add]
      exact tracked.parts
    · rw [tracked.answered]
      simp
  · rw [← coe_nodup, queued]
    exact h.writes.once
  · intro a
    rw [← mem_coe, queued]
    exact h.writes.members a

/-- The packets of the run stay below the last burst of the address space, and their bursts can
be counted. -/
def Within (prm : Params) : Event → Prop
  | .recvTimingReq pkt _ => Fits prm pkt
  | _ => True

theorem step_inv (h : Inv prm c) (e : Event) (offered : Offered prm c e) (within : Within prm e) :
    ∃ c', step prm c e = some c' ∧ Inv prm c' := by
  cases e with
  | recvTimingReq =>
    obtain ⟨⟨some_, -, -⟩, known, escalations⟩ := offered
    exact recvTimingReq_inv h within some_ known escalations
  | processNextReq d => exact processNextReqEvent_inv h d
  | processRespond => exact processRespondEvent_inv h offered

/-- In every run of such packets requests are conserved and no assert fails. -/
theorem run_conserves (prm : Params) {c : DRAMCtrl}
    (run : Leads (step prm) (fun c e => Offered prm c e ∧ Within prm e) new c) :
    Conserves prm c ∧
      ∀ e, Offered prm c e → Within prm e → (step prm c e).isSome = true := by
  have inv : Inv prm c := run.invariant (inv_new prm) fun c e c' inv guard taken => by
    obtain ⟨c'', stepped, next⟩ := step_inv inv e guard.1 guard.2
    rw [stepped] at taken
    exact Option.some.inj taken ▸ next
  refine ⟨inv.conserves, fun e offered within => ?_⟩
  obtain ⟨c', stepped, -⟩ := step_inv inv e offered within
  rw [stepped]
  rfl

/-- Bursts of 64 bytes and two priorities. -/
def small : Params where
  burstSize := 64
  readBufferSize := 8
  writeBufferSize := 8
  writeHighThreshold := 6
  writeLowThreshold := 4
  minWritesPerSwitch := 2
  numPriorities := 2
  burstPow := ⟨6, rfl⟩
  ranged := by decide

theorem offered_small (c : DRAMCtrl) (pkt : Packet) (q : Nat)
    (sized : 0 < pkt.size ∧ pkt.size < 2 ^ 32 ∧ pkt.addr < 2 ^ 64) (known : q < 2) :
    Offered small c (.recvTimingReq pkt ⟨q, []⟩) :=
  ⟨sized, known, fun e none => by cases none⟩

/-- A read over three bursts, after a write that serves the second. -/
theorem run_conserves_small : ∃ c, Leads (step small) (fun c e => Offered small c e ∧ Within small e)
      new c ∧ (waiting small c 1).length = 2 ∧ Conserves small c := by
  have go : ((step small new (.recvTimingReq ⟨64, 64, true, 0⟩ ⟨0, []⟩)).bind fun c =>
      step small c (.recvTimingReq ⟨60, 100, false, 0⟩ ⟨1, []⟩)).map
        (fun c => (waiting small c 1).length) = some 2 := by decide +kernel
  obtain ⟨c, stepped, waits⟩ := Option.map_eq_some_iff.mp go
  obtain ⟨b, first, second⟩ := Option.bind_eq_some_iff.mp stepped
  have write : Fits small ⟨64, 64, true, 0⟩ := by decide
  have read : Fits small ⟨60, 100, false, 0⟩ := by decide
  have run : Leads (step small) (fun c e => Offered small c e ∧ Within small e) new c :=
    .tail _ (.tail _ .refl ⟨offered_small _ _ 0 (by decide) (by decide), write⟩ first)
      ⟨offered_small _ _ 1 (by decide) (by decide), read⟩ second
  exact ⟨c, run, waits, (run_conserves small run).1⟩

/-- A read of the last burst of the address space that finds writes in two queues is never
answered: its end is the address 0, so that every queued write below it seems to cover it. -/
theorem last_burst_is_lost : ∃ c, Leads (step small) (Offered small) new c ∧ ¬ Conserves small c := by
  have go : ((step small new (.recvTimingReq ⟨0, 64, true, 0⟩ ⟨0, []⟩)).bind fun c =>
      (step small c (.recvTimingReq ⟨2 ^ 64 - 64, 64, true, 0⟩ ⟨1, []⟩)).bind fun c =>
        step small c (.recvTimingReq ⟨2 ^ 64 - 64, 64, false, 0⟩ ⟨0, []⟩)).map
          (fun c => (c.accepted[2]?.map (·.pkt.isWrite), waiting small c 2, c.responses.count 2))
      = some (some false, [], 0) := by decide +kernel
  obtain ⟨c, stepped, shown⟩ := Option.map_eq_some_iff.mp go
  obtain ⟨kind, rest⟩ := Prod.mk.inj shown
  obtain ⟨waits, silent⟩ := Prod.mk.inj rest
  obtain ⟨c₁, first, stepped⟩ := Option.bind_eq_some_iff.mp stepped
  obtain ⟨c₂, second, third⟩ := Option.bind_eq_some_iff.mp stepped
  obtain ⟨a, at_, isRead⟩ := Option.map_eq_some_iff.mp kind
  refine ⟨c, .tail _ (.tail _ (.tail _ .refl (offered_small _ _ 0 (by decide) (by decide)) first)
    (offered_small _ _ 1 (by decide) (by decide)) second) (offered_small _ _ 0 (by decide) (by decide)) third,
    fun conserves => ?_⟩
  have answered := (conserves.reads 2 a at_ isRead).2
  rw [waits, silent, if_pos rfl] at answered
  cases answered

end Gem5.Mem.DRAMCtrl
