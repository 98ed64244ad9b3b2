import Gem5.Minor.Lsq
import Mathlib.Logic.Relation

/-!
# What a step of the load/store queue can do

The operations of the queue are sequences of acts on one request each. An act states its
change and what the code has tested before it; the invariants of the queue are proved for
the acts. `allow` is what a caller knows of the instructions whose accesses start.
-/

namespace Gem5.Minor

/-- The effect of an access to a memory-mapped register, which needs no packet. -/
def LsqRequest.stepIpr (x : LsqRequest) : LsqRequest :=
  { x.stepToNextPacket with
    state := if x.stepToNextPacket.sentAllPackets then .complete else .requestIssuing }

theorem LsqRequest.stepIpr_state (x : LsqRequest) :
    x.stepIpr.state = .complete ∨ x.stepIpr.state = .requestIssuing := by
  simp only [stepIpr]
  split
  · exact .inl rfl
  · exact .inr rfl

namespace Lsq

/-- The effect of a packet that the port accepts. -/
def sendPacket (q : Lsq) (r : ReqId) (s : ReqState) : Lsq :=
  { q.update r fun x => { x.stepToNextPacket with state := s } with
    numAccessesInMemorySystem := q.numAccessesInMemorySystem + 1
    inMemory := q.inMemory ++ [{ req := r, frag := (q.reqs r).numIssued }]
    trace := q.trace ++ [.sent r (q.reqs r).numIssued] }

/-- The request and the port are set back for another try. -/
def resume (q : Lsq) (r : ReqId) (s : ReqState) : Lsq := { q.setState r s with needsRetry := false }

/-- A request at the front that `tryToSendToTransfers` does not pass on at once. -/
structure AtFront (prm : LsqParams) (view : View) (q : Lsq) (r : ReqId) : Prop where
  calm : q.needsRetry = false
  front : q.requests.head? = some r
  room : q.transfers.length < prm.transfersQueueSize
  state : (q.reqs r).state = .translated ∨ (q.reqs r).state = .requestIssuing
  stream : view.instIsRightStream (q.reqs r).inst = true
  noFault : (q.reqs r).fault = false
  stores : (q.reqs r).isLoad = true → q.numStoresInTransfers = 0

/-- An access that is not bufferable starts now. -/
def starts (prm : LsqParams) (view : View) (q : Lsq) (r : ReqId) : Bool :=
  let x := q.reqs r
  !q.needsRetry && (x.state == .translated || x.state == .requestIssuing)
    && q.requests.head? == some r && decide (q.transfers.length < prm.transfersQueueSize)
    && view.instIsRightStream x.inst && !x.fault && (!x.isLoad || q.numStoresInTransfers == 0)
    && !x.bufferable && view.instIsHeadInst x.inst && (q.canForwardDataToLoad r).isNone
    && q.canSendToMemorySystem prm && !x.issuedToMemory

/-- The slot is the first one that still has packets to send. -/
def SlotTurn (q : Lsq) (r : ReqId) : Prop :=
  ∃ before after, q.slots = before ++ r :: after ∧ ∀ t ∈ before, (q.reqs t).sentAllPackets = true

/-- Why a request may use the port: it is at the front, or it is in the store buffer. -/
inductive Turn (prm : LsqParams) (view : View) (q : Lsq) (r : ReqId) : Prop where
  | load (front : AtFront prm view q r) (isLoad : (q.reqs r).isLoad = true)
      (bufferable : (q.reqs r).bufferable = true) (alone : q.canForwardDataToLoad r = none)
  | claimed (front : AtFront prm view q r) (bufferable : (q.reqs r).bufferable = false)
      (head : view.instIsHeadInst (q.reqs r).inst = true)
      (issued : (q.reqs r).issuedToMemory = true)
  | ipr (front : AtFront prm view q r) (flag : (q.reqs r).flags.mmappedIpr = true)
  | slot (slot : SlotTurn q r)

/-- The request that a retry is about. -/
structure Retried (q : Lsq) (r : ReqId) (s : ReqState) : Prop where
  needs : q.needsRetry = true
  request : q.retryRequest = some r
  state : (q.reqs r).state = .requestNeedsRetry ∧ s = .translated
    ∨ (q.reqs r).state = .storeBufferNeedsRetry ∧ s = .storeInStoreBuffer

inductive Act (prm : LsqParams) (view : View) (allow : InstId → Prop) : Lsq → Lsq → Prop where
  | translate {q : Lsq} {r : ReqId} (a : Translation) (state : (q.reqs r).state = .inTranslation) :
      Act prm view allow q (q.update r (·.translate a))
  | skip {q : Lsq} {r : ReqId} (front : q.requests.head? = some r) (calm : q.needsRetry = false)
      (state : (q.reqs r).state ∈ [.translated, .requestIssuing, .failed, .complete])
      (why : (q.reqs r).state = .failed ∨ (q.reqs r).state = .complete ∨ (q.reqs r).fault = true
        ∨ view.instIsRightStream (q.reqs r).inst = false
          ∧ (q.reqs r).hasPacketsInMemSystem = false) :
      Act prm view allow q (q.skipToTransfers r)
  | toBuffer {q : Lsq} {r : ReqId} (front : AtFront prm view q r)
      (store : (q.reqs r).isLoad = false) (bufferable : (q.reqs r).bufferable = true)
      (ipr : (q.reqs r).flags.mmappedIpr = false) :
      Act prm view allow q ((q.setState r .storeToStoreBuffer).moveFromRequestsToTransfers r)
  | forward {q : Lsq} {r s : ReqId} (front : AtFront prm view q r)
      (isLoad : (q.reqs r).isLoad = true) (bufferable : (q.reqs r).bufferable = true)
      (found : q.canForwardDataToLoad r = some s) (full : q.coverage r s = .full) :
      Act prm view allow q ((q.forwardStoreData r s).skipAccess r)
  | skipAccess {q : Lsq} {r : ReqId} (front : AtFront prm view q r)
      (store : (q.reqs r).isLoad = false) (llsc : (q.reqs r).flags.llsc = true) :
      Act prm view allow q (q.skipAccess r)
  | claim {q : Lsq} {r : ReqId} (front : AtFront prm view q r)
      (bufferable : (q.reqs r).bufferable = false)
      (head : view.instIsHeadInst (q.reqs r).inst = true)
      (unissued : (q.reqs r).issuedToMemory = false) (allowed : allow (q.reqs r).inst) :
      Act prm view allow q
        { q.update r fun x => { x with issuedToMemory := true } with
          numAccessesIssuedToMemory := q.numAccessesIssuedToMemory + 1 }
  | send {q : Lsq} {r : ReqId} {s : ReqState} (turn : Turn prm view q r)
      (free : q.canSendToMemorySystem prm = true) (ipr : (q.reqs r).flags.mmappedIpr = false)
      (state : issuingState (q.reqs r).state = some s) :
      Act prm view allow q (q.sendPacket r s)
  | ipr {q : Lsq} {r : ReqId} (place : q.requests.head? = some r ∨ r ∈ q.slots)
      (flag : (q.reqs r).flags.mmappedIpr = true) :
      Act prm view allow q (q.update r (·.stepIpr))
  | refuse {q : Lsq} {r : ReqId} {s : ReqState} (turn : Turn prm view q r)
      (state : retryState (q.reqs r).state = some s) :
      Act prm view allow q { q.setState r s with needsRetry := true, retryRequest := some r }
  | advance {q : Lsq} {r : ReqId} (front : q.requests.head? = some r)
      (calm : q.needsRetry = false)
      (state : (q.reqs r).state = .requestIssuing ∨ (q.reqs r).state = .complete)
      (sent : (q.reqs r).sentAllPackets = true) :
      Act prm view allow q (q.moveFromRequestsToTransfers r)
  | resume {q : Lsq} {r : ReqId} {s : ReqState} (retried : Retried q r s) :
      Act prm view allow q (q.resume r s)
  | resend {q : Lsq} {r : ReqId} {s t : ReqState} (retried : Retried q r s)
      (free : (q.resume r s).canSendToMemorySystem prm = true)
      (ipr : (q.reqs r).flags.mmappedIpr = false) (state : issuingState s = some t) :
      Act prm view allow q ((q.resume r s).sendPacket r t)
  | clearBarrier {q : Lsq} {r : ReqId} {rest : List ReqId} (slots : q.slots = r :: rest)
      (complete : (q.reqs r).isComplete = true) (barrier : (q.reqs r).isBarrier = true) :
      Act prm view allow q ({ q with slots := rest }.clearMemBarrier (q.reqs r).inst)
  | tally {q : Lsq} (n : Nat) (retryRequest : Option ReqId)
      (some : q.needsRetry = true → retryRequest = q.retryRequest) :
      Act prm view allow q { q with numUnissuedAccesses := n, retryRequest := retryRequest }
  | fail {q : Lsq} : Act prm view allow q q.fail

abbrev Acts (prm : LsqParams) (view : View) (allow : InstId → Prop) : Lsq → Lsq → Prop :=
  Relation.ReflTransGen (Act prm view allow)

variable {prm : LsqParams} {view : View} {allow : InstId → Prop} {q : Lsq} {r : ReqId}

/-- How `tryToSend` can end. -/
inductive SendEnd (prm : LsqParams) (q : Lsq) (r : ReqId) : Lsq × Bool → Prop where
  | busy : SendEnd prm q r (q, false)
  | ipr (flag : (q.reqs r).flags.mmappedIpr = true) :
      SendEnd prm q r (q.update r (·.stepIpr), (q.reqs r).stepToNextPacket.sentAllPackets)
  | sent {s : ReqState} (free : q.canSendToMemorySystem prm = true)
      (ipr : (q.reqs r).flags.mmappedIpr = false) (state : issuingState (q.reqs r).state = some s) :
      SendEnd prm q r (q.sendPacket r s, (q.reqs r).stepToNextPacket.sentAllPackets)
  | failed : SendEnd prm q r (q.fail, false)
  | refused {s : ReqState} (ipr : (q.reqs r).flags.mmappedIpr = false)
      (state : retryState (q.reqs r).state = some s) :
      SendEnd prm q r ({ q.setState r s with needsRetry := true, retryRequest := some r }, false)

theorem tryToSend_ends (prm : LsqParams) (port : Port) (q : Lsq) (r : ReqId) :
    SendEnd prm q r (q.tryToSend prm port r) := by
  simp only [tryToSend]
  split
  · exact .busy
  next free =>
  split
  next flag =>
    have ends : SendEnd prm q r _ := .ipr flag
    convert ends using 2
    simp [update, LsqRequest.stepIpr]
  next flag =>
  have flag : (q.reqs r).flags.mmappedIpr = false := by simpa using flag
  split
  · split
    · exact .failed
    next s state => exact .sent (by simpa using free) flag state
  · split
    · exact .failed
    next s state => exact .refused flag state

theorem Turn.place (turn : Turn prm view q r) : q.requests.head? = some r ∨ r ∈ q.slots := by
  cases turn with
  | load front => exact .inl front.front
  | claimed front => exact .inl front.front
  | ipr front => exact .inl front.front
  | slot slot =>
    obtain ⟨before, after, slots, -⟩ := slot
    exact .inr (slots ▸ List.mem_append_right _ List.mem_cons_self)

theorem tryToSend_acts (port : Port) (turn : Turn prm view q r) :
    Acts prm view allow q (q.tryToSend prm port r).1 := by
  have ends := tryToSend_ends prm port q r
  generalize q.tryToSend prm port r = d at ends
  cases ends with
  | busy => exact .refl
  | ipr flag => exact .single (.ipr turn.place flag)
  | sent free ipr state => exact .single (.send turn free ipr state)
  | failed => exact .single .fail
  | refused ipr state => exact .single (.refuse turn state)

@[simp] theorem update_reqs_self (q : Lsq) (r : ReqId) (f : LsqRequest → LsqRequest) :
    (q.update r f).reqs r = f (q.reqs r) := by
  simp [update]

@[simp] theorem sendPacket_reqs_self (q : Lsq) (r : ReqId) (s : ReqState) :
    (q.sendPacket r s).reqs r = { (q.reqs r).stepToNextPacket with state := s } := by
  simp [sendPacket]

theorem sentAllPackets_state (x : LsqRequest) (s : ReqState) :
    { x with state := s }.sentAllPackets = x.sentAllPackets := by
  simp [LsqRequest.sentAllPackets]

theorem tryToSend_last {port : Port} (last : (q.tryToSend prm port r).2 = true) :
    (q.tryToSend prm port r).1.requests = q.requests
      ∧ (q.tryToSend prm port r).1.slots = q.slots
      ∧ (q.tryToSend prm port r).1.needsRetry = q.needsRetry
      ∧ ((q.tryToSend prm port r).1.reqs r).sentAllPackets = true
      ∧ (((q.tryToSend prm port r).1.reqs r).state = .complete
          ∧ (q.reqs r).flags.mmappedIpr = true
        ∨ issuingState (q.reqs r).state = some ((q.tryToSend prm port r).1.reqs r).state) := by
  have ends := tryToSend_ends prm port q r
  generalize q.tryToSend prm port r = d at ends last
  cases ends with
  | busy => contradiction
  | ipr flag =>
    refine ⟨rfl, rfl, rfl, ?_, .inl ⟨?_, flag⟩⟩
    · aesop
    · rw [update_reqs_self, LsqRequest.stepIpr, if_pos last]
  | sent free ipr state => aesop
  | failed => contradiction
  | refused ipr state => contradiction

theorem sendFront_acts (port : Port) (front : AtFront prm view q r) (turn : Turn prm view q r) :
    Acts prm view allow q
      (if (q.tryToSend prm port r).2 then
        (q.tryToSend prm port r).1.moveFromRequestsToTransfers r
      else (q.tryToSend prm port r).1) := by
  split
  next last =>
    refine (tryToSend_acts port turn).tail ?_
    obtain ⟨requests, -, calm, sent, state⟩ := tryToSend_last last
    refine .advance (requests ▸ front.front) (calm.trans front.calm) ?_ sent
    rcases state with ⟨complete, -⟩ | issuing
    · exact .inr complete
    · left
      rcases front.state with h | h
      · rw [h] at issuing
        exact (Option.some.inj issuing).symm
      · rw [h] at issuing
        exact (Option.some.inj issuing).symm
  next => exact tryToSend_acts port turn

/-- The state of the queue once the access of the front request has started. -/
def claimed (q : Lsq) (r : ReqId) : Lsq :=
  { q.update r fun x => { x with issuedToMemory := true } with
    numAccessesIssuedToMemory := q.numAccessesIssuedToMemory + 1 }

theorem AtFront.claimed (front : AtFront prm view q r) : AtFront prm view (q.claimed r) r := by
  constructor
  · exact front.calm
  · exact front.front
  · exact front.room
  · simpa [Lsq.claimed] using front.state
  · simpa [Lsq.claimed] using front.stream
  · simpa [Lsq.claimed] using front.noFault
  · simpa [Lsq.claimed, update] using front.stores

theorem access_acts_claimed (allow : InstId → Prop) (port : Port) (front : AtFront prm view q r)
    (bufferable : (q.reqs r).bufferable = false) (head : view.instIsHeadInst (q.reqs r).inst = true)
    (alone : q.canForwardDataToLoad r = none)
    (allowed : q.starts prm view r = true → allow (q.reqs r).inst) :
    Acts prm view allow q (q.access prm port r) := by
  rw [access]
  split
  next free =>
    by_cases issued : (q.reqs r).issuedToMemory = true
    · simp only [issued, Bool.not_true, Bool.and_false]
      exact sendFront_acts port front (.claimed front bufferable head issued)
    · have unissued : (q.reqs r).issuedToMemory = false := by simpa using issued
      simp only [bufferable, unissued]
      have begins : q.starts prm view r = true := by
        have loads : (!(q.reqs r).isLoad || q.numStoresInTransfers == 0) = true := by
          cases isLoad : (q.reqs r).isLoad
          · rfl
          · simp [front.stores isLoad]
        have state : ((q.reqs r).state == .translated || (q.reqs r).state == .requestIssuing)
            = true := by
          rcases front.state with h | h <;> simp [h]
        simp [starts, front.calm, state, front.front, front.room, front.stream, front.noFault,
          loads, bufferable, head, alone, free, unissued]
      refine .head (.claim front bufferable head unissued (allowed begins)) ?_
      exact sendFront_acts port front.claimed (.claimed front.claimed
        (by simpa [LsqRequest.bufferable] using bufferable)
        (by simpa using head) (by simp))
  next => exact .refl

theorem access_acts_bufferable (port : Port) (front : AtFront prm view q r)
    (bufferable : (q.reqs r).bufferable = true) (turn : Turn prm view q r) :
    Acts prm view allow q (q.access prm port r) := by
  rw [access]
  split
  · simp only [bufferable]
    exact sendFront_acts port front turn
  · exact .refl

theorem issueRequest_acts (port : Port) (front : AtFront prm view q r) (ipr : (q.reqs r).isLoad =
    false → (q.reqs r).bufferable = true → (q.reqs r).flags.mmappedIpr = true)
    (allowed : q.starts prm view r = true → allow (q.reqs r).inst) :
    Acts prm view allow q (q.issueRequest prm view port r) := by
  simp only [issueRequest]
  by_cases bufferable : (q.reqs r).bufferable = true
  · have plain : (q.reqs r).flags.llsc = false := by
      cases h : (q.reqs r).flags.llsc
      · rfl
      · simp [LsqRequest.bufferable, h] at bufferable
    simp only [bufferable, plain, Bool.not_true, Bool.false_and, Bool.false_eq_true, ↓reduceIte]
    split
    next isLoad =>
      split
      next s found =>
        split
        next full => exact .single (.forward front isLoad bufferable found full)
        next => exact .refl
      next alone =>
        exact access_acts_bufferable port front bufferable (.load front isLoad bufferable alone)
    next store =>
      have store : (q.reqs r).isLoad = false := by simpa using store
      exact access_acts_bufferable port front bufferable (.ipr front (ipr store bufferable))
  · have bufferable : (q.reqs r).bufferable = false := by simpa using bufferable
    simp only [bufferable]
    split
    · exact .refl
    next head =>
    have head : view.instIsHeadInst (q.reqs r).inst = true := by simpa using head
    split
    · exact .refl
    next alone =>
    have alone : q.canForwardDataToLoad r = none := by simpa using alone
    have acts := access_acts_claimed allow port front bufferable head alone allowed
    split
    next llsc =>
      split
      · split
        · exact acts
        next fails =>
          have store : (q.reqs r).isLoad = false := by grind
          exact .single (.skipAccess front store llsc)
      · exact .refl
    next => grind

theorem tryToSendToTransfers_acts (port : Port)
    (allowed : q.starts prm view r = true → allow (q.reqs r).inst) :
    Acts prm view allow q (q.tryToSendToTransfers prm view port r) := by
  rw [tryToSendToTransfers]
  by_cases busy : q.needsRetry = true
  · rw [if_pos busy]
  rw [if_neg busy]
  have calm : q.needsRetry = false := by simpa using busy
  by_cases waits : (q.reqs r).state = .inTranslation
  · rw [if_pos waits]
  rw [if_neg waits]
  by_cases unknown : (q.reqs r).state ∉ [ReqState.translated, .requestIssuing, .failed, .complete]
  · rw [if_pos unknown]
    exact .single .fail
  rw [if_neg unknown]
  have known := not_not.mp unknown
  by_cases behind : q.requests.head? ≠ some r
  · rw [if_pos behind]
  rw [if_neg behind]
  have front := not_not.mp behind
  by_cases full : prm.transfersQueueSize ≤ q.transfers.length
  · rw [if_pos full]
  rw [if_neg full]
  by_cases finished : ((q.reqs r).isComplete || (q.reqs r).state = .failed) = true
  · rw [if_pos finished]
    refine .single (.skip front calm known ?_)
    simp only [LsqRequest.isComplete, Bool.or_eq_true, beq_iff_eq, decide_eq_true_eq] at finished
    rcases finished with complete | failed
    · exact .inr (.inl complete)
    · exact .inl failed
  rw [if_neg finished]
  by_cases wrong : (!view.instIsRightStream (q.reqs r).inst) = true
  · rw [if_pos wrong]
    have wrong : view.instIsRightStream (q.reqs r).inst = false := by simpa using wrong
    split
    · exact .refl
    next packets =>
      have packets : (q.reqs r).hasPacketsInMemSystem = false := by simpa using packets
      exact .single (.skip front calm known (.inr (.inr (.inr ⟨wrong, packets⟩))))
  rw [if_neg wrong]
  by_cases fault : (q.reqs r).fault = true
  · rw [if_pos fault]
    exact .single (.skip front calm known (.inr (.inr (.inl fault))))
  rw [if_neg fault]
  have state : (q.reqs r).state = .translated ∨ (q.reqs r).state = .requestIssuing := by
    simp only [LsqRequest.isComplete, Bool.or_eq_true, beq_iff_eq, decide_eq_true_eq,
      not_or] at finished
    simp only [List.mem_cons, finished.1, finished.2] at known
    simpa using known
  have atFront : ((q.reqs r).isLoad = true → q.numStoresInTransfers = 0) →
      AtFront prm view q r := by
    intro stores
    exact ⟨calm, front, by omega, state, by simpa using wrong, by simpa using fault, stores⟩
  split
  next isLoad => grind [issueRequest_acts]
  next store =>
    have store : (q.reqs r).isLoad = false := by simpa using store
    have here := atFront fun load => by simp [store] at load
    split
    next buffers =>
      simp only [Bool.and_eq_true, Bool.not_eq_eq_eq_not] at buffers
      exact .single (.toBuffer here store buffers.1 buffers.2)
    next direct => grind [issueRequest_acts]

theorem finish_acts (port : Port) (a : Translation) (state : (q.reqs r).state = .inTranslation)
    (allowed : (q.update r (·.translate a)).starts prm view r = true → allow ((q.update r
    (·.translate a)).reqs r).inst) : Acts prm view allow q (q.finish prm view port r a) := by
  refine .head (.translate a state) ?_
  simp only [finish]
  split
  · exact tryToSendToTransfers_acts port allowed
  · exact .refl

theorem clearBarriers_slots (q : Lsq) (l slots : List ReqId) :
    { q with slots := slots }.clearBarriers l = q.clearBarriers l := by
  induction l generalizing q with
  | nil => rfl
  | cons s rest ih => grind [clearBarriers, clearMemBarrier]

theorem clearBarriers_acts (slots : List ReqId) (same : q.slots = slots) :
    Acts prm view allow q (q.clearBarriers slots) := by
  induction slots generalizing q with
  | nil =>
    have stays : { q with slots := [] } = q := by rw [← same]
    rw [clearBarriers, stays]
  | cons s rest ih =>
    rw [clearBarriers]
    split
    next clears =>
      simp only [Bool.and_eq_true] at clears
      refine .head (.clearBarrier same clears.1 clears.2) ?_
      have cleared : ∀ p : Lsq, p = { q with slots := rest }.clearMemBarrier (q.reqs s).inst →
          { p with numUnissuedAccesses := dec q.numUnissuedAccesses } =
            { { q with numUnissuedAccesses := dec q.numUnissuedAccesses }.clearMemBarrier
              (q.reqs s).inst with slots := rest } := by
        rintro p rfl
        simp only [clearMemBarrier]
        split <;> rfl
      rw [← clearBarriers_slots _ rest rest, ← cleared _ rfl]
      refine .head (.tally (dec q.numUnissuedAccesses) _ fun _ => rfl) (ih ?_)
      simp only [clearMemBarrier]
      split <;> rfl
    next =>
      have stays : { q with slots := s :: rest } = q := by rw [← same]
      rw [stays]

theorem countIssuedStore_acts : Acts prm view allow q (q.countIssuedStore r) := by
  rw [countIssuedStore]
  split
  · exact .refl
  · exact .single (.tally _ _ fun _ => rfl)

theorem countIssuedStore_same (q : Lsq) (r : ReqId) :
    (q.countIssuedStore r).slots = q.slots ∧ (q.countIssuedStore r).reqs = q.reqs
      ∧ (q.countIssuedStore r).requests = q.requests := by
  rw [countIssuedStore]
  split <;> exact ⟨rfl, rfl, rfl⟩

theorem tryToSend_reqs_of_ne {port : Port} {t : ReqId} (other : t ≠ r) :
    (q.tryToSend prm port r).1.reqs t = q.reqs t := by
  have ends := tryToSend_ends prm port q r
  generalize q.tryToSend prm port r = d at ends
  cases ends <;> simp [update, sendPacket, setState, fail, other]

theorem issueSlots_acts (before : List ReqId) {slots : List ReqId} {count : Nat} {ports : List Port}
    (split : q.slots = before ++ slots) (sent : ∀ t ∈ before, (q.reqs t).sentAllPackets = true) :
    Acts prm view allow q (q.issueSlots prm slots count ports) := by
  induction slots generalizing q before count ports with
  | nil =>
    rw [issueSlots]
  | cons s rest ih =>
    rw [issueSlots]
    split
    · dsimp only
      split
      · exact .refl
      split
      next done =>
        simp only [Bool.and_eq_true] at done
        refine ih (before ++ [s]) (by simpa using split) ?_
        intro t earlier
        rw [List.mem_append, List.mem_singleton] at earlier
        rcases earlier with old | rfl
        · exact sent t old
        · exact done.2
      next =>
        have acts : Acts prm view allow q _ :=
          tryToSend_acts (ports.headD {}) (.slot ⟨before, rest, split, sent⟩)
        split
        next last =>
          obtain ⟨-, slots, -, all, -⟩ := tryToSend_last last
          obtain ⟨counted, same, -⟩ :=
            countIssuedStore_same (q.tryToSend prm (ports.headD {}) s).1 s
          refine (acts.trans countIssuedStore_acts).trans (ih (before ++ [s]) ?_ ?_)
          · grind
          · intro t earlier
            rw [same]
            by_cases own : t = s
            · rw [own]
              exact all
            · grind [tryToSend_reqs_of_ne]
        next => exact acts
    · exact .refl

theorem stepStoreBuffer_acts (ports : List Port) :
    Acts prm view allow q (q.stepStoreBuffer prm ports) := by
  rw [stepStoreBuffer]
  split
  · exact (clearBarriers_acts q.slots rfl).trans (issueSlots_acts [] rfl nofun)
  · exact .refl

theorem step_acts (port : Port) (ports : List Port) (allowed : ∀ r, q.requests.head? = some r →
    q.starts prm view r = true → allow (q.reqs r).inst) :
    Acts prm view allow q (q.step prm view port ports) := by
  refine .trans ?_ (stepStoreBuffer_acts ports)
  split
  next => exact .refl
  next r rest requests =>
    refine tryToSendToTransfers_acts port (allowed r ?_)
    rw [requests]
    rfl

/-- Where the request stands that waits for a retry. -/
def RetryPlaced (q : Lsq) : Prop :=
  q.needsRetry = true → ∀ r, q.retryRequest = some r →
    ((q.reqs r).state = .requestNeedsRetry → q.requests.head? = some r)
      ∧ ((q.reqs r).state = .storeBufferNeedsRetry → r ∈ q.slots)

theorem resend_acts {s : ReqState} (port : Port) (retried : Retried q r s)
    (place : q.requests.head? = some r ∨ r ∈ q.slots) :
    Acts prm view allow q ((q.resume r s).tryToSend prm port r).1 := by
  have ends := tryToSend_ends prm port (q.resume r s) r
  generalize (q.resume r s).tryToSend prm port r = d at ends
  have resumed : Acts prm view allow q (q.resume r s) := .single (.resume retried)
  have kept : ((q.resume r s).reqs r) = { q.reqs r with state := s } := by
    simp [resume, setState]
  cases ends with
  | busy => exact resumed
  | ipr flag => exact resumed.tail (.ipr place flag)
  | sent free ipr state =>
    rw [kept] at ipr state
    exact .single (.resend retried free ipr state)
  | failed => exact resumed.tail .fail
  | @refused t ipr state =>
    have back : ({ (q.resume r s).setState r t with
        needsRetry := true, retryRequest := some r } : Lsq) = q := by
      rw [kept] at state
      have again : (q.reqs r).state = t := by
        rcases retried.state with ⟨before, rfl⟩ | ⟨before, rfl⟩
        · exact before.trans (Option.some.inj state)
        · exact before.trans (Option.some.inj state)
      have reqs : ((q.resume r s).setState r t).reqs = q.reqs := by
        subst again
        simp [resume, setState, update]
      rw [← retried.needs, ← retried.request]
      simp only [resume, setState, update] at reqs ⊢
      rw [reqs]
    rw [back]

theorem recvReqRetry_acts (port : Port) (needs : q.needsRetry = true) (placed : q.RetryPlaced) :
    Acts prm view allow q (q.recvReqRetry prm port) := by
  rw [recvReqRetry]
  split
  next => exact .refl
  next r request =>
    obtain ⟨front, slot⟩ := placed needs r request
    dsimp only
    split
    next state =>
      have retried : Retried q r .translated := ⟨needs, request, .inl ⟨state, rfl⟩⟩
      have acts : Acts prm view allow q _ := resend_acts port retried (.inl (front state))
      split
      next last =>
        obtain ⟨requests, -, calm, sent, after⟩ := tryToSend_last last
        refine (acts.tail (.advance ?_ calm ?_ sent)).tail (.tally _ none ?_)
        · exact requests ▸ front state
        · rcases after with ⟨complete, -⟩ | issuing
          · exact .inr complete
          · simp only [setState, update_reqs_self] at issuing
            exact .inl (Option.some.inj issuing).symm
        · intro stillNeeds
          exact absurd (calm.symm.trans stillNeeds) (by simp)
      next => exact acts
    next state =>
      have retried : Retried q r .storeInStoreBuffer := ⟨needs, request, .inr ⟨state, rfl⟩⟩
      have acts : Acts prm view allow q _ := resend_acts port retried (.inr (slot state))
      split
      next last =>
        obtain ⟨-, -, calm, -, -⟩ := tryToSend_last last
        refine (acts.trans countIssuedStore_acts).tail (.tally _ none ?_)
        intro stillNeeds
        rw [countIssuedStore] at stillNeeds
        split at stillNeeds
        · exact absurd (calm.symm.trans stillNeeds) (by simp)
        · exact absurd (calm.symm.trans stillNeeds) (by simp)
      next => exact acts
    next => exact .single .fail

end Lsq

end Gem5.Minor
