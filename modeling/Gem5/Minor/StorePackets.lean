import Gem5.Minor.StoreBuffer

/-!
# The packets of the load/store queue

Every packet in the memory system was accepted by the port and belongs to a request that has
counted it, the counter of the packets is exact, and a store that reaches the store buffer has
not sent a packet. All this is proved for the acts of the queue.
-/

namespace Gem5.Minor

open List Function Bool

namespace LsqRequest

/-- No packet of the request has been sent yet. -/
def Idle (x : LsqRequest) : Prop :=
  x.state = .inTranslation
    ∨ (x.state = .translated ∨ x.state = .storeToStoreBuffer) ∧ ¬x.Direct

/-- Requests without packets never leave these states. -/
def Still (x : LsqRequest) : Prop :=
  x.state = .notIssued ∨ x.state = .failed ∨ x.state = .complete

/-- What the progress of a request says about its fragments. -/
structure Sound (x : LsqRequest) : Prop where
  single : x.kind = .single → x.fragments.length = 1
  split : x.kind = .split → x.state = .inTranslation ∨ x.fault = true
    ∨ x.flags.mmappedIpr = true ∨ x.numTranslated = x.fragments.length ∧ 0 < x.numTranslated
  still : x.kind = .failed ∨ x.kind = .barrier → x.Still
  idle : x.Idle → x.numIssued = 0 ∧ x.numRetired = 0
  noFault : x.state = .storeToStoreBuffer → x.fault = false

variable {x y : LsqRequest}

theorem Direct.congr (direct : x.Direct) (flags : y.flags = x.flags) (isLoad : y.isLoad = x.isLoad)
    (issued : y.issuedToMemory = x.issuedToMemory) : y.Direct := by
  rw [Direct, bufferable_congr flags, flags, isLoad, issued]
  exact direct

theorem Sound.progress (sound : x.Sound) (kind : y.kind = x.kind)
    (fragments : y.fragments = x.fragments) (translated : y.numTranslated = x.numTranslated)
    (fault : y.fault = x.fault) (flags : y.flags = x.flags) (known : x.state ≠ .inTranslation)
    (still : y.state = .complete ∨ ¬x.Still) (busy : ¬y.Idle)
    (leaves : y.state ≠ .storeToStoreBuffer) : y.Sound := by
  constructor
  · rw [kind, fragments]
    exact sound.single
  · intro split
    rw [fault, flags, translated, fragments]
    exact .inr ((sound.split (kind ▸ split)).resolve_left known)
  · intro special
    rw [kind] at special
    rcases still with complete | moving
    · exact .inr (.inr complete)
    · exact absurd (sound.still special) moving
  · exact fun idle => absurd idle busy
  · exact fun stays => absurd stays leaves

theorem Sound.translate (sound : x.Sound) (a : Translation) (state : x.state = .inTranslation) :
    (x.translate a).Sound := by
  have zero := sound.idle (.inl state)
  have moving : ¬x.Still := by
    rw [Still, state]
    simp
  cases kind : x.kind with
  | single =>
    constructor
    · intro _
      simpa [LsqRequest.translate, kind] using sound.single kind
    · simp [LsqRequest.translate, kind]
    · simp [LsqRequest.translate, kind]
    · intro _
      simpa [LsqRequest.translate, kind] using zero
    · simp [LsqRequest.translate, kind]
  | split =>
    have after := x.translate_state a state
    refine ⟨?_, ?_, ?_, ?_, ?_⟩
    · simp [(x.translate_same a).2.2.2.1, kind]
    · intro _
      simp only [LsqRequest.translate, kind]
      split
      next fault => exact .inr (.inl fault)
      next => grind
    · simp [(x.translate_same a).2.2.2.1, kind]
    · intro _
      have same : (x.translate a).numIssued = x.numIssued
          ∧ (x.translate a).numRetired = x.numRetired := by
        simp only [LsqRequest.translate, kind]
        split
        · exact ⟨rfl, rfl⟩
        · split <;> exact ⟨rfl, rfl⟩
      rw [same.1, same.2]
      exact zero
    · grind
  | failed => exact absurd (sound.still (.inl kind)) moving
  | barrier => exact absurd (sound.still (.inr kind)) moving

end LsqRequest

namespace Lsq

/-- What holds of the requests and of the packets at every time. -/
structure Base (prm : LsqParams) (q : Lsq) : Prop where
  placed : q.Placed
  sound : ∀ r, (q.reqs r).Sound
  indices : ∀ e ∈ q.accepted, e.1 < q.nextReq ∧ e.2 < (q.reqs e.1).numIssued
  flying : ∀ p ∈ q.inMemory, (p.req, p.frag) ∈ q.accepted
  inMemory : q.numAccessesInMemorySystem = q.inMemory.length
  limit : q.numAccessesInMemorySystem ≤ prm.inMemorySystemLimit

variable {prm : LsqParams} {view : View} {allow : InstId → Prop} {q q' : Lsq} {r : ReqId}
  {x : LsqRequest}

theorem accepted_send (q : Lsq) (r : ReqId) (s : ReqState) :
    (q.sendPacket r s).accepted = q.accepted ++ [(r, (q.reqs r).numIssued)] := by
  simp [accepted, sendPacket]

theorem Base.answer (base : q.Base prm) (placed : q'.Placed)
    (reqs : q'.reqs = Function.update q.reqs r x) (nextReq : q.nextReq ≤ q'.nextReq)
    (sound : x.Sound) (issued : r < q.nextReq → (q.reqs r).numIssued ≤ x.numIssued)
    (flying : ∀ p ∈ q'.inMemory, ∃ p₀ ∈ q.inMemory, p₀.req = p.req ∧ p₀.frag = p.frag)
    (inMemory : q'.numAccessesInMemorySystem = q'.inMemory.length)
    (fewer : q'.numAccessesInMemorySystem ≤ q.numAccessesInMemorySystem)
    (accepted : q'.accepted = q.accepted) : q'.Base prm := by
  refine ⟨placed, fun t => ?_, fun e mem => ?_, fun p mem => ?_, inMemory,
    Nat.le_trans fewer base.limit⟩
  · rw [reqs]
    by_cases same : t = r
    · rw [same, update_self]
      exact sound
    · rw [update_of_ne same]
      exact base.sound t
  · rw [accepted] at mem
    rw [reqs]
    obtain ⟨known, below⟩ := base.indices e mem
    refine ⟨Nat.lt_of_lt_of_le known nextReq, ?_⟩
    by_cases same : e.1 = r
    · grind
    · rw [update_of_ne same]
      exact below
  · obtain ⟨p₀, old, req, frag⟩ := flying p mem
    rw [accepted, ← req, ← frag]
    exact base.flying p₀ old

theorem Base.change (base : q.Base prm) (placed : q'.Placed)
    (reqs : q'.reqs = Function.update q.reqs r x) (nextReq : q.nextReq ≤ q'.nextReq)
    (sound : x.Sound) (issued : r < q.nextReq → (q.reqs r).numIssued ≤ x.numIssued)
    (inMemory : q'.inMemory = q.inMemory)
    (number : q'.numAccessesInMemorySystem = q.numAccessesInMemorySystem)
    (accepted : q'.accepted = q.accepted) : q'.Base prm := by
  refine base.answer placed reqs nextReq sound issued ?_ ?_ (Nat.le_of_eq number) accepted
  · grind
  · rw [number, inMemory]
    exact base.inMemory

theorem Base.send {s : ReqState} (base : q.Base prm) (placed : (q.sendPacket r s).Placed)
    (known : r < q.nextReq) (free : q.canSendToMemorySystem prm = true)
    (sound : { (q.reqs r).stepToNextPacket with state := s }.Sound) :
    (q.sendPacket r s).Base prm := by
  simp only [canSendToMemorySystem, and_eq_true, decide_eq_true_eq] at free
  refine ⟨placed, fun t => ?_, fun e mem => ?_, fun p mem => ?_, ?_, free.2⟩
  · by_cases same : t = r
    · rw [same, sendPacket_reqs_self]
      exact sound
    · simp only [sendPacket, update, update_of_ne same]
      exact base.sound t
  · rw [accepted_send, mem_append, List.mem_singleton] at mem
    rcases mem with old | rfl
    · obtain ⟨known, below⟩ := base.indices e old
      refine ⟨known, ?_⟩
      by_cases same : e.1 = r
      · rw [same] at below ⊢
        rw [sendPacket_reqs_self]
        exact Nat.lt_succ_of_lt below
      · simp only [sendPacket, update, update_of_ne same]
        exact below
    · refine ⟨known, ?_⟩
      rw [sendPacket_reqs_self]
      exact Nat.lt_succ_self _
  · rw [accepted_send]
    simp only [sendPacket, mem_append, List.mem_singleton] at mem
    rcases mem with old | rfl
    · exact mem_append_left _ (base.flying p old)
    · exact mem_append_right _ (List.mem_singleton_self _)
  · simp [sendPacket, base.inMemory]

theorem Base.frame (base : q.Base prm) (placed : q'.Placed) (reqs : q'.reqs = q.reqs)
    (nextReq : q'.nextReq = q.nextReq) (inMemory : q'.inMemory = q.inMemory)
    (number : q'.numAccessesInMemorySystem = q.numAccessesInMemorySystem)
    (accepted : q'.accepted = q.accepted) : q'.Base prm := by
  refine base.change (r := 0) (x := q.reqs 0) placed ?_ (Nat.le_of_eq nextReq.symm) (base.sound 0)
    (fun _ => Nat.le_refl _) inMemory number accepted
  rw [reqs, update_eq_self]

theorem issuingState_moves {s t : ReqState} (state : issuingState s = some t) :
    s ≠ .inTranslation ∧ (s ≠ .notIssued ∧ s ≠ .failed ∧ s ≠ .complete)
      ∧ (t = .requestIssuing ∨ t = .storeBufferIssuing) := by
  cases s <;> simp [issuingState] at state <;> simp [← state]

theorem retryState_moves {s t : ReqState} (state : retryState s = some t) :
    s ≠ .inTranslation ∧ (s ≠ .notIssued ∧ s ≠ .failed ∧ s ≠ .complete)
      ∧ (t = .requestNeedsRetry ∨ t = .storeBufferNeedsRetry) := by
  cases s <;> simp [retryState] at state <;> simp [← state]

theorem AtFront.moves (front : AtFront prm view q r) :
    (q.reqs r).state ≠ .inTranslation ∧ ¬(q.reqs r).Still := by
  rcases front.state with h | h <;> simp [LsqRequest.Still, h]

theorem Base.resume {s : ReqState} (base : q.Base prm) (placed : (q.resume r s).Placed)
    (retried : Retried q r s) : (q.resume r s).Base prm := by
  refine base.change placed rfl (Nat.le_refl _) ?_ (fun _ => Nat.le_refl _) rfl rfl rfl
  obtain ⟨toFront, -⟩ := base.placed.retry retried.needs r retried.request
  rcases retried.state with ⟨before, rfl⟩ | ⟨before, rfl⟩
  · have direct := (base.placed.requests r (mem_requests (toFront before))).direct (.inr before)
    refine (base.sound r).progress rfl rfl rfl rfl rfl ?_ (.inr ?_) ?_ nofun
    · simp [before]
    · simp [LsqRequest.Still, before]
    · rintro (waits | ⟨-, roundabout⟩)
      · cases waits
      · exact roundabout direct
  · refine (base.sound r).progress rfl rfl rfl rfl rfl ?_ (.inr ?_) ?_ nofun
    · simp [before]
    · simp [LsqRequest.Still, before]
    · simp [LsqRequest.Idle]

theorem Base.sendPacket {s : ReqState} (base : q.Base prm) (placed : (q.sendPacket r s).Placed)
    (known : r < q.nextReq) (free : q.canSendToMemorySystem prm = true)
    (state : issuingState (q.reqs r).state = some s) : (q.sendPacket r s).Base prm := by
  obtain ⟨translated, moving, after⟩ := issuingState_moves state
  refine base.send placed known free ?_
  refine (base.sound r).progress rfl rfl rfl rfl rfl translated (.inr ?_) ?_ ?_
  · simp [LsqRequest.Still, moving]
  · rcases after with rfl | rfl <;> simp [LsqRequest.Idle]
  · rcases after with rfl | rfl <;> simp

theorem Act.base (act : Act prm view allow q q') (base : q.Base prm) : q'.Base prm := by
  have placed := act.placed base.placed
  cases act with
  | @translate r a state =>
    refine base.change placed rfl (Nat.le_refl _) ((base.sound r).translate a state) ?_ rfl rfl rfl
    rw [((base.sound r).idle (.inl state)).1]
    exact fun _ => Nat.zero_le _
  | @skip r front calm state why =>
    refine base.change placed rfl (Nat.le_refl _) ?_ (fun _ => Nat.le_refl _) rfl rfl rfl
    refine (base.sound r).progress rfl rfl rfl rfl rfl ?_ (.inl rfl) ?_ (by simp)
    · intro waits
      simp [waits] at state
    · simp [LsqRequest.Idle]
  | @toBuffer r front store bufferable ipr =>
    have roundabout : ¬(q.reqs r).Direct := by grind [LsqRequest.Direct]
    have translated : (q.reqs r).state = .translated := by
      refine front.state.resolve_right fun issuing => ?_
      exact roundabout ((base.placed.requests r (mem_requests front.front)).direct (.inl issuing))
    have zero := (base.sound r).idle (.inr ⟨.inl translated, roundabout⟩)
    refine base.change placed rfl (Nat.le_refl _) ⟨?_, ?_, ?_, fun _ => zero, fun _ => front.noFault⟩
      (fun _ => Nat.le_refl _) rfl rfl rfl
    · exact (base.sound r).single
    · intro split
      exact .inr (((base.sound r).split split).resolve_left front.moves.1)
    · intro special
      exact absurd ((base.sound r).still special) front.moves.2
  | @forward r s front isLoad bufferable found full =>
    refine base.change (x := { q.reqs r with
        loaded := fun i => (q.reqs s).data (i + ((q.reqs r).paddr - (q.reqs s).paddr))
        state := .complete }) placed ?_ (Nat.le_refl _) ?_ (fun _ => Nat.le_refl _) rfl rfl rfl
    · simp [moveFromRequestsToTransfers, Lsq.skipAccess, setState, forwardStoreData, update]
    · exact (base.sound r).progress rfl rfl rfl rfl rfl front.moves.1 (.inl rfl)
        (by simp [LsqRequest.Idle]) (by simp)
  | @skipAccess r front store llsc =>
    refine base.change placed rfl (Nat.le_refl _) ?_ (fun _ => Nat.le_refl _) rfl rfl rfl
    exact (base.sound r).progress rfl rfl rfl rfl rfl front.moves.1 (.inl rfl)
      (by simp [LsqRequest.Idle]) (by simp)
  | @claim r front bufferable head unissued allowed =>
    refine base.change placed rfl (Nat.le_refl _) ?_ (fun _ => Nat.le_refl _) rfl rfl rfl
    have direct : ({ q.reqs r with issuedToMemory := true } : LsqRequest).Direct :=
      .inr (.inr ⟨bufferable, rfl⟩)
    refine (base.sound r).progress rfl rfl rfl rfl rfl front.moves.1 (.inr front.moves.2) ?_ ?_
    · rintro (waits | ⟨-, roundabout⟩)
      · exact front.moves.1 waits
      · exact roundabout direct
    · rcases front.state with h | h <;> simp [h]
  | @send r s turn free ipr state =>
    refine base.sendPacket placed (base.placed.known r ?_) free state
    rcases turn.place with front | slot
    · simp [Lsq.queue, mem_requests front]
    · exact mem_append_right _ slot
  | @ipr r place flag =>
    have after := (q.reqs r).stepIpr_state
    refine base.change placed rfl (Nat.le_refl _) ⟨(base.sound r).single, ?_, ?_, ?_, ?_⟩ (fun _ => Nat.le_succ _)
      rfl rfl rfl
    · exact fun _ => .inr (.inr (.inl flag))
    · intro special
      have all : (q.reqs r).stepToNextPacket.sentAllPackets = true := by
        rcases special with h | h <;>
          simp [LsqRequest.sentAllPackets, LsqRequest.stepToNextPacket,
            show (q.reqs r).kind = _ from h]
      exact .inr (.inr (if_pos all))
    · grind [LsqRequest.Idle]
    · grind
  | @refuse r s turn state =>
    obtain ⟨known, moving, after⟩ := retryState_moves state
    refine base.change placed rfl (Nat.le_refl _) ?_ (fun _ => Nat.le_refl _) rfl rfl rfl
    refine (base.sound r).progress rfl rfl rfl rfl rfl known (.inr ?_) ?_ ?_
    · simp [LsqRequest.Still, moving]
    · rcases after with rfl | rfl <;> simp [LsqRequest.Idle]
    · rcases after with rfl | rfl <;> simp
  | advance | tally | fail => exact base.frame placed rfl rfl rfl rfl rfl
  | resume retried => exact base.resume placed retried
  | @resend r s t retried free ipr state =>
    have resumed : (q.resume r s).Placed :=
      (Act.resume retried : Act prm view allow q _).placed base.placed
    refine (base.resume resumed retried).sendPacket placed ?_ free ?_
    · obtain ⟨toFront, toSlot⟩ := base.placed.retry retried.needs r retried.request
      refine base.placed.known r ?_
      rcases retried.state with ⟨before, -⟩ | ⟨before, -⟩
      · simp [Lsq.queue, mem_requests (toFront before)]
      · exact mem_append_right _ (toSlot before)
    · simpa [Lsq.resume, setState] using state
  | clearBarrier =>
    refine base.frame placed ?_ ?_ ?_ ?_ ?_ <;> rw [clearMemBarrier] <;> split <;> rfl

theorem Acts.base (acts : Acts prm view allow q q') (base : q.Base prm) : q'.Base prm := by
  induction acts with
  | refl => exact base
  | tail _ act ih => exact act.base ih

end Lsq

/-- What a response leaves alone. -/
structure LsqRequest.Answered (x y : LsqRequest) : Prop where
  instIsBarrier : y.instIsBarrier = x.instIsBarrier
  kind : y.kind = x.kind
  isLoad : y.isLoad = x.isLoad
  flags : y.flags = x.flags
  fragments : y.fragments = x.fragments
  translated : y.numTranslated = x.numTranslated
  issued : y.numIssued = x.numIssued
  fault : y.fault = x.fault
  claimed : y.issuedToMemory = x.issuedToMemory
  state : y.state = .complete ∨ y.state = x.state

theorem LsqRequest.answered (isError : Bool) (x : LsqRequest) (k : Nat) (bytes : Nat → Byte) :
    x.Answered (x.retireResponseOf isError k bytes) := by
  unfold retireResponseOf
  split
  · exact ⟨rfl, rfl, rfl, rfl, rfl, rfl, rfl, rfl, rfl, .inl rfl⟩
  · dsimp only
    generalize (if (x.isLoad && !x.skipped && !isError) = true then x.paste k bytes
      else x.loaded) = loaded
    split
    · exact ⟨rfl, rfl, rfl, rfl, rfl, rfl, rfl, rfl, rfl, .inl rfl⟩
    · exact ⟨rfl, rfl, rfl, rfl, rfl, rfl, rfl, rfl, rfl, .inr rfl⟩
  · exact ⟨rfl, rfl, rfl, rfl, rfl, rfl, rfl, rfl, rfl, .inr rfl⟩

/-- A response counts, and completes a split request after the last packet, or after an error
when no packet is in flight. -/
theorem LsqRequest.retireResponseOf_progress (isError : Bool) (x : LsqRequest) (k : Nat)
    (bytes : Nat → Byte) (packets : x.kind = .single ∨ x.kind = .split) :
    (x.retireResponseOf isError k bytes).numRetired = x.numRetired + 1
      ∧ ((x.retireResponseOf isError k bytes).state = .complete → x.state = .complete
        ∨ x.kind = .single ∨ x.numRetired + 1 = x.numTranslated
        ∨ (x.skipped = true ∨ isError = true) ∧ x.numIssued = x.numRetired + 1) := by
  rcases packets with kind | kind
  · simp [retireResponseOf, kind]
  · simp only [retireResponseOf, kind]
    generalize (if (x.isLoad && !x.skipped && !isError) = true then x.paste k bytes
      else x.loaded) = loaded
    split
    next ends =>
      refine ⟨rfl, fun _ => .inr (.inr ?_)⟩
      simp only [or_eq_true, and_eq_true, beq_iff_eq, hasPacketsInMemSystem,
        not_eq_true', bne_eq_false_iff_eq] at ends
      exact ends.symm
    next => exact ⟨rfl, fun complete => .inl complete⟩

theorem LsqRequest.Answered.sentAllPackets {x y : LsqRequest} (answered : x.Answered y) :
    y.sentAllPackets = x.sentAllPackets := by
  simp [LsqRequest.sentAllPackets, answered.kind, answered.issued, answered.translated]

namespace Lsq

/-- The slots after the answer `y` to a request in the store buffer. -/
def slotsAfter (q : Lsq) (r : ReqId) (y : LsqRequest) : List ReqId :=
  if y.isComplete && !y.isBarrier then q.slots.erase r else q.slots

/-- A request after an answer, with the slots and the packets that are left. -/
def received (q : Lsq) (p : Packet) (y : LsqRequest) (slots : List ReqId) (left : List Packet) :
    Lsq :=
  { q with
    reqs := Function.update q.reqs p.req y
    slots := slots
    inMemory := left
    numAccessesInMemorySystem := dec q.numAccessesInMemorySystem
    trace := q.trace ++ [.received p.req p.frag] }

/-- How a response changes the queue. -/
inductive Responded (isError : Bool) (q : Lsq) (p : Packet) (left : List Packet) : Lsq → Prop where
  | front (state : (q.reqs p.req).state = .requestIssuing
      ∨ (q.reqs p.req).state = .requestNeedsRetry) :
      Responded isError q p left (q.received p
        ((q.reqs p.req).retireResponseOf isError p.frag p.bytes) q.slots left)
  | slot (state : (q.reqs p.req).state = .storeBufferIssuing
      ∨ (q.reqs p.req).state = .storeBufferNeedsRetry) :
      Responded isError q p left (q.received p
        ((q.reqs p.req).retireResponseOf isError p.frag p.bytes)
        (q.slotsAfter p.req ((q.reqs p.req).retireResponseOf isError p.frag p.bytes)) left)
  | failed : Responded isError q p left
      { q.received p (q.reqs p.req) q.slots left with panicked := true }

theorem recvTimingRespOf_responded {isError : Bool} {q : Lsq} {k : Nat} {p : Packet}
    (found : q.inMemory[k]? = some p) :
    Responded isError q p (q.inMemory.eraseIdx k) (q.recvTimingRespOf isError k) := by
  simp only [recvTimingRespOf, found]
  have slots : ∀ y : LsqRequest, y = (q.reqs p.req).retireResponseOf isError p.frag p.bytes →
      (if (y.isComplete && !y.isBarrier) = true then
        deleteRequest (q.received p y q.slots (q.inMemory.eraseIdx k)) p.req
      else q.received p y q.slots (q.inMemory.eraseIdx k))
        = q.received p y (q.slotsAfter p.req y) (q.inMemory.eraseIdx k) := by
    intro y _
    rw [slotsAfter]
    split <;> rfl
  cases state : (q.reqs p.req).state with
  | requestIssuing => exact .front (.inl state)
  | requestNeedsRetry => exact .front (.inr state)
  | storeBufferIssuing =>
    have responded : Responded isError q p (q.inMemory.eraseIdx k) _ := .slot (.inl state)
    rw [← slots _ rfl] at responded
    simpa [received, update] using responded
  | storeBufferNeedsRetry =>
    have responded : Responded isError q p (q.inMemory.eraseIdx k) _ := .slot (.inr state)
    rw [← slots _ rfl] at responded
    simpa [received, update] using responded
  | _ =>
    have responded : Responded isError q p (q.inMemory.eraseIdx k) _ := .failed
    simpa [received, fail] using responded

section Calls

variable {prm : LsqParams} {q q' : Lsq} {p : Packet} {left : List Packet} {isError : Bool} {k : Nat}

theorem dec_eq {n : Nat} (pos : 0 < n) : dec n = n - 1 :=
  if_neg (Nat.ne_of_gt pos)

theorem accepted_received (q : Lsq) (p : Packet) (y : LsqRequest) (slots : List ReqId)
    (left : List Packet) : (q.received p y slots left).accepted = q.accepted := by
  simp [accepted, received]

theorem Base.dec_number (base : q.Base prm) (found : q.inMemory[k]? = some p) :
    dec q.numAccessesInMemorySystem = (q.inMemory.eraseIdx k).length
      ∧ dec q.numAccessesInMemorySystem ≤ q.numAccessesInMemorySystem := by
  have inside := (List.getElem?_eq_some_iff.mp found).1
  rw [base.inMemory, dec_eq (by omega), length_eraseIdx_of_lt inside]
  exact ⟨rfl, Nat.sub_le _ _⟩

theorem Base.received {y : LsqRequest} {slots : List ReqId} (base : q.Base prm)
    (found : q.inMemory[k]? = some p) (answered : (q.reqs p.req).Answered y)
    (busy : ¬(q.reqs p.req).Idle) (known : (q.reqs p.req).state ≠ .inTranslation)
    (leaves : (q.reqs p.req).state ≠ .storeToStoreBuffer)
    (slots_ : slots = q.slots ∨ slots = q.slots.erase p.req ∧ y.state = .complete) :
    (q.received p y slots (q.inMemory.eraseIdx k)).Base prm := by
  obtain ⟨number, fewer⟩ := base.dec_number found
  have placed : (q.received p y slots (q.inMemory.eraseIdx k)).Placed :=
    base.placed.answered answered.isLoad answered.flags answered.claimed answered.state slots_ _ _ _
  refine base.answer placed rfl (Nat.le_refl _) ?_ (fun _ => Nat.le_of_eq answered.issued.symm)
    (fun e mem => ⟨e, mem_of_mem_eraseIdx mem, rfl, rfl⟩) number fewer
    (accepted_received ..)
  constructor
  · rw [answered.kind, answered.fragments]
    exact (base.sound _).single
  · intro split
    rw [answered.fault, answered.flags, answered.translated, answered.fragments]
    exact .inr (((base.sound _).split (answered.kind ▸ split)).resolve_left known)
  · intro special
    rw [answered.kind] at special
    rcases answered.state with complete | same
    · exact .inr (.inr complete)
    · rw [LsqRequest.Still, same]
      exact (base.sound _).still special
  · intro idle
    rcases answered.state with complete | same
    · simp [LsqRequest.Idle, complete] at idle
    · refine absurd ?_ busy
      rw [LsqRequest.Idle, ← same]
      refine idle.imp_right fun ⟨state, roundabout⟩ => ⟨state, fun direct => roundabout ?_⟩
      exact direct.congr answered.flags answered.isLoad answered.claimed
  · intro stays
    rcases answered.state with complete | same
    · simp [complete] at stays
    · exact absurd (same ▸ stays) leaves

theorem Responded.base (responded : Responded isError q p (q.inMemory.eraseIdx k) q')
    (found : q.inMemory[k]? = some p) (base : q.Base prm) : q'.Base prm := by
  cases responded with
  | front state =>
    refine base.received found (LsqRequest.answered ..) ?_ ?_ ?_ (.inl rfl)
    · rcases state with h | h <;> simp [LsqRequest.Idle, h]
    · rcases state with h | h <;> simp [h]
    · rcases state with h | h <;> simp [h]
  | slot state =>
    refine base.received found (LsqRequest.answered ..) ?_ ?_ ?_ ?_
    · rcases state with h | h <;> simp [LsqRequest.Idle, h]
    · rcases state with h | h <;> simp [h]
    · rcases state with h | h <;> simp [h]
    · rw [slotsAfter]
      split
      next gone =>
        simp only [and_eq_true, LsqRequest.isComplete, beq_iff_eq] at gone
        exact .inr ⟨rfl, gone.1⟩
      next => exact .inl rfl
  | failed =>
    obtain ⟨number, fewer⟩ := base.dec_number found
    refine base.answer (r := p.req) (x := q.reqs p.req) ?_ rfl (Nat.le_refl _) (base.sound _)
      (fun _ => Nat.le_refl _) (fun e mem => ⟨e, mem_of_mem_eraseIdx mem, rfl, rfl⟩) number
      fewer (accepted_received q p (q.reqs p.req) q.slots (q.inMemory.eraseIdx k))
    refine base.placed.drop (update_eq_self _ _) rfl rfl (List.Sublist.refl _)
      (List.Sublist.refl _) fun waiting t own => ?_
    have placed := base.placed.retry waiting t own
    simpa [Lsq.received] using placed

theorem base_init (prm : LsqParams) : Base prm {} where
  placed := placed_init
  sound := fun _ => by constructor <;> simp [LsqRequest.Still]
  indices := nofun
  flying := nofun
  inMemory := rfl
  limit := Nat.zero_le _

theorem newRequest_sound (prm : LsqParams) (inst : InstId) (isBarrier : Bool) (a : Access) :
    (newRequest prm inst isBarrier a).Sound := by
  constructor
  · grind [newRequest]
  · exact fun _ => .inl rfl
  · grind [newRequest]
  · exact fun _ => ⟨rfl, rfl⟩
  · simp [newRequest]

theorem Base.push (base : q.Base prm) {x : LsqRequest} (sound : x.Sound) (waits : x.Waits)
    (coherent : x.Coherent)
    (calm : x.state ≠ .requestNeedsRetry ∧ x.state ≠ .storeBufferNeedsRetry) :
    { q.create x with requests := q.requests ++ [q.nextReq] }.Base prm :=
  base.change (base.placed.push waits coherent calm) rfl (Nat.le_succ _) sound
    (fun known => absurd known (Nat.lt_irrefl _)) rfl rfl rfl

theorem accepted_insert (q : Lsq) (r : ReqId) : (q.insert r).accepted = q.accepted := by
  simp [accepted, insert]

theorem Base.buffer {r : ReqId} (base : q.Base prm) (front : q.transfers.head? = some r)
    (state : (q.reqs r).state = .storeToStoreBuffer) : ((q.insert r).popResponse r).Base prm := by
  have reqs : ((q.insert r).popResponse r).reqs =
      Function.update q.reqs r { q.reqs r with state := .storeInStoreBuffer } := by
    simp [popResponse, insert, update, LsqRequest.isComplete, state]
  refine base.change (base.placed.buffer front state) reqs (Nat.le_refl _) ?_
    (fun _ => Nat.le_refl _) rfl rfl (accepted_insert q r)
  refine (base.sound r).progress rfl rfl rfl rfl rfl (by simp [state]) (.inr ?_) ?_ (by simp)
  · simp [LsqRequest.Still, state]
  · simp [LsqRequest.Idle]

theorem Base.insertBarrier (base : q.Base prm) (inst : InstId) :
    ((q.create (barrierRequest inst)).insert q.nextReq).Base prm := by
  have reqs : ((q.create (barrierRequest inst)).insert q.nextReq).reqs
      = Function.update q.reqs q.nextReq (barrierRequest inst) := by
    simp [insert, create, update, LsqRequest.isComplete, barrierRequest]
  refine base.change (base.placed.insertBarrier inst) reqs (Nat.le_succ _) ?_
    (fun known => absurd known (Nat.lt_irrefl _)) rfl rfl (accepted_insert _ _)
  constructor <;> simp [barrierRequest, LsqRequest.Still]

theorem Base.pop {r : ReqId} (base : q.Base prm) : (q.popResponse r).Base prm :=
  base.frame (base.placed.drop rfl rfl rfl (tail_sublist _) (List.Sublist.refl _)
    base.placed.retry) rfl rfl rfl rfl rfl

theorem Base.lastMemBarrier (base : q.Base prm) (last : Nat → Nat) :
    ({ q with lastMemBarrier := last } : Lsq).Base prm :=
  base.frame (base.placed.drop rfl rfl rfl (List.Sublist.refl _) (List.Sublist.refl _)
    base.placed.retry) rfl rfl rfl rfl rfl

theorem Base.perform (base : q.Base prm) (k : Nat) (bytes : Nat → Byte) :
    (q.perform k bytes).Base prm := by
  rw [Lsq.perform]
  split
  · exact base
  next p found =>
    split
    · exact base
    · refine base.answer (r := 0) (x := q.reqs 0) ?_ (update_eq_self _ _).symm
        (Nat.le_refl _) (base.sound 0) (fun _ => Nat.le_refl _) ?_ ?_ (Nat.le_refl _) ?_
      · exact base.placed.drop rfl rfl rfl (List.Sublist.refl _) (List.Sublist.refl _)
          base.placed.retry
      · grind
      · simpa using base.inMemory
      · simp only [accepted]
        split <;> simp

theorem Base.call {c : LsqCall} (base : q.Base prm) (called : q.call prm c = some q') :
    q'.Base prm := by
  unfold Lsq.call at called
  split at called
  · cases called
  cases c with
  | pushRequest =>
    obtain rfl := Option.some.inj called
    exact base.push (newRequest_sound ..) ⟨by simp [newRequest], by simp [newRequest]⟩
      ⟨by simp [newRequest], by simp [newRequest]⟩ (by simp [newRequest])
  | pushFailedRequest =>
    obtain rfl := Option.some.inj called
    refine base.push ?_ ⟨by simp, by simp⟩ ⟨by simp, by simp⟩ (by simp)
    constructor <;> simp [LsqRequest.Still]
  | finish view port r a =>
    dsimp only at called
    split at called
    next state =>
      obtain rfl := Option.some.inj called
      have acts : Acts prm view (fun _ => True) q _ := finish_acts port a state fun _ => trivial
      exact acts.base base
    next => cases called
  | step view port ports =>
    obtain rfl := Option.some.inj called
    have acts : Acts prm view (fun _ => True) q _ := step_acts port ports fun _ _ _ => trivial
    exact acts.base base
  | perform k bytes =>
    obtain rfl := Option.some.inj called
    exact base.perform k bytes
  | recvTimingResp k isError =>
    dsimp only at called
    split at called
    next inside =>
      obtain rfl := Option.some.inj called
      have found : q.inMemory[k]? = some q.inMemory[k] := List.getElem?_eq_getElem inside
      exact (recvTimingRespOf_responded found).base found base
    next => cases called
  | recvReqRetry port =>
    dsimp only at called
    split at called
    next needs =>
      obtain rfl := Option.some.inj called
      have acts : Acts prm ⟨fun _ => true, fun _ => true⟩ (fun _ => True) q _ :=
        recvReqRetry_acts port needs base.placed.retry
      exact acts.base base
    next => cases called
  | popResponse =>
    obtain ⟨r, found, rfl⟩ := Option.map_eq_some_iff.mp called
    exact base.pop
  | sendStoreToStoreBuffer =>
    obtain ⟨r, found, rfl⟩ := Option.map_eq_some_iff.mp called
    obtain ⟨found, needs⟩ := Option.filter_eq_some_iff.mp found
    obtain ⟨front, -, -⟩ := findResponse_cases found
    exact base.buffer front (beq_iff_eq.mp needs)
  | issuedMemBarrierInst =>
    obtain rfl := Option.some.inj called
    exact base.lastMemBarrier _
  | completeMemBarrierInst inst inStoreBuffer committed =>
    obtain rfl := Option.some.inj called
    rw [completeMemBarrierInst]
    split
    · split
      · exact base
      · exact base.insertBarrier inst
    · rw [clearMemBarrier]
      split
      · exact base.lastMemBarrier _
      · exact base

end Calls

end Lsq

end Gem5.Minor
