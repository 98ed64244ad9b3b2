import Gem5.Minor.Order
import Gem5.Minor.LsqActs

/-!
# The queues of the load/store queue

A request passes from the requests to the transfers, and a store from there to the store
buffer. The invariant says where a request can stand, in which state, and what its
packets tell about it.
-/

namespace Gem5.Minor

open List Function Option Bool

namespace Lsq

/-- The requests and the transfers, oldest first. -/
def queue (q : Lsq) : List ReqId := q.transfers ++ q.requests

/-- What a move of the core can do to the queue. -/
inductive Step (cfg : Config) (view : View) (allow : InstId → Prop) : Lsq → Lsq → Prop where
  | act {q q' : Lsq} (act : Act cfg.lsq view allow q q') : Step cfg view allow q q'
  | perform {q : Lsq} (k : Nat) (bytes : Nat → Byte) : Step cfg view allow q (q.perform k bytes)
  | receive {q : Lsq} {k : Nat} {p : Packet} (found : q.inMemory[k]? = some p)
      (performed : p.performed = true) : Step cfg view allow q (q.recvTimingResp k)
  | push {q q' : Lsq} {inst : InstId} {barrier : Bool} (pushed : Pushed cfg q inst barrier q') :
      Step cfg view allow q q'
  | pop {q : Lsq} {r : ReqId} (front : q.transfers.head? = some r) :
      Step cfg view allow q (q.popResponse r)
  | buffer {q : Lsq} {r : ReqId} (front : q.transfers.head? = some r)
      (packet : (q.reqs r).packet = true) (state : (q.reqs r).state = .storeToStoreBuffer) :
      Step cfg view allow q ((q.insert r).popResponse r)
  | barrier {q : Lsq} (last : Nat → Nat) : Step cfg view allow q { q with lastMemBarrier := last }
  | insertBarrier {q : Lsq} (inst : InstId) :
      Step cfg view allow q ((q.create (barrierRequest inst)).insert q.nextReq)

theorem findResponse_cases {prm : LsqParams} {q : Lsq} {inst : InstId} {r : ReqId}
    (found : q.findResponse prm inst = some r) :
    q.transfers.head? = some r ∧ (q.reqs r).inst = inst
      ∧ ((q.reqs r).state = .complete ∨ (q.reqs r).state = .storeToStoreBuffer) := by
  simp only [findResponse, filter_eq_some_iff, and_eq_true, or_eq_true,
    beq_iff_eq, LsqRequest.isComplete, LsqRequest.needsToBeSentToStoreBuffer] at found
  obtain ⟨front, own, ⟨state, -⟩ | ⟨state, -⟩⟩ := found
  · exact ⟨front, own, .inl state⟩
  · exact ⟨front, own, .inr state⟩

section Steps

variable {cfg : Config} {view : View} {allow : InstId → Prop} {q : Lsq}

abbrev Steps (cfg : Config) (view : View) (allow : InstId → Prop) : Lsq → Lsq → Prop :=
  Relation.ReflTransGen (Step cfg view allow)

theorem Acts.steps {q' : Lsq} (acts : Acts cfg.lsq view allow q q') : Steps cfg view allow q q' :=
  Relation.ReflTransGen.mono (fun _ _ act => Step.act act) _ _ acts

theorem completeMemBarrierInst_steps (inst : InstId) (inStoreBuffer committed : Bool) :
    Steps cfg view allow q (q.completeMemBarrierInst inst inStoreBuffer committed) := by
  rw [completeMemBarrierInst]
  split
  · split
    · exact .refl
    · exact .single (.insertBarrier inst)
  · rw [clearMemBarrier]
    split
    · exact .single (.barrier _)
    · exact .refl

theorem handled_steps {prm : LsqParams} {r : ReqId} {head : InstId} {stored : Bool} {q' : Lsq}
    (response : q.findResponse prm head = some r) (handled : Handled q r stored q') :
    Steps cfg view allow q q' := by
  obtain ⟨front, -, -⟩ := findResponse_cases response
  cases handled with
  | stored packet state => exact .single (.buffer front packet state)
  | plain => exact .single (.pop front)

end Steps

end Lsq

/-- The accesses that an event may start are allowed. -/
structure Core.Permits (cfg : Config) (c : Core) (e : Execute.Event) (allow : InstId → Prop) :
    Prop where
  finish : ∀ r a port, e = .finish r a port →
    (c.lsq.update r (·.translate a)).starts cfg.lsq c.view r = true →
      allow ((c.lsq.update r (·.translate a)).reqs r).inst
  evaluate : ∀ port ports r, e = .evaluate port ports → c.lsq.requests.head? = some r →
    c.lsq.starts cfg.lsq c.view r = true → allow (c.lsq.reqs r).inst

theorem Core.retire_steps {cfg : Config} {view : View} {allow : InstId → Prop} {c : Core} {q : Lsq}
    {tid : Nat} {i : InstId} {committed : Bool} (same : c.lsq = q) :
    Lsq.Steps cfg view allow q (c.retire tid i committed).lsq := by
  subst same
  simp only [Core.retire]
  split
  · exact Lsq.completeMemBarrierInst_steps ..
  · exact .refl

@[simp] theorem Core.turnIf_lsq (c : Core) (tid : Nat) (change : Bool) :
    (c.turnIf tid change).lsq = c.lsq := by
  cases change <;> rfl

theorem Move.lsq {cfg : Config} {o : Execute} {e : Execute.Event} {c c' : Core}
    {allow : InstId → Prop} (move : Move cfg o e c c') (placed : c.lsq.RetryPlaced)
    (permits : c.Permits cfg e allow) : Lsq.Steps cfg c.view allow c.lsq c'.lsq := by
  cases move with
  | arrive | drain | drainResume | drained | haltFetch | turn | clearInput | discardInput =>
    exact .refl
  | @finish r a port event origin state =>
    exact (Lsq.finish_acts port a state (permits.finish r a port event)).steps
  | perform => exact .single (.perform _ _)
  | respond event found performed => exact .single (.receive found performed)
  | retry event origin needs => exact (Lsq.recvReqRetry_acts _ needs placed).steps
  | @evaluate port ports event origin =>
    exact (Lsq.step_acts port ports fun r => permits.evaluate port ports r event).steps
  | issue =>
    split
    · exact .single (.barrier _)
    · exact .refl
  | push round chosen memRef outside stream keep barrier pushed => exact .single (.push pushed)
  | respondCommit change round response stream keep handled =>
    refine (Lsq.handled_steps response handled).trans (Core.retire_steps ?_)
    simp [Core.logCommit, Core.setInst]
  | respondDiscard round response stream =>
    obtain ⟨front, -, -⟩ := Lsq.findResponse_cases response
    exact .head (.pop front) (Core.retire_steps rfl)
  | discard => exact Core.retire_steps rfl
  | execute =>
    refine Core.retire_steps ?_
    simp [Core.logCommit]
  | fault =>
    refine Core.retire_steps ?_
    simp [Core.setInst]

namespace LsqRequest

/-- The packets of the request go to memory from the front of the requests. -/
def Direct (x : LsqRequest) : Prop :=
  x.flags.mmappedIpr = true ∨ x.bufferable = true ∧ x.isLoad = true
    ∨ x.bufferable = false ∧ x.issuedToMemory = true

/-- A request that waits in the requests. -/
structure Waits (x : LsqRequest) : Prop where
  state : x.state = .inTranslation ∨ x.state = .translated ∨ x.state = .failed
    ∨ x.state = .complete ∨ x.state = .requestIssuing ∨ x.state = .requestNeedsRetry
  direct : x.state = .requestIssuing ∨ x.state = .requestNeedsRetry → x.Direct

/-- A request that has passed to the transfers. -/
def Passed (x : LsqRequest) : Prop :=
  x.state = .complete ∨ x.state = .storeToStoreBuffer ∨ x.state = .requestIssuing

/-- A store in the store buffer. -/
structure Buffered (x : LsqRequest) : Prop where
  state : x.state = .storeInStoreBuffer ∨ x.state = .storeBufferIssuing
    ∨ x.state = .storeBufferNeedsRetry ∨ x.state = .complete
  bufferable : x.bufferable = true
  ipr : x.flags.mmappedIpr = false

/-- What holds of every request. -/
structure Coherent (x : LsqRequest) : Prop where
  toBuffer : x.state = .storeToStoreBuffer →
    x.bufferable = true ∧ x.flags.mmappedIpr = false ∧ x.isLoad = false
  issued : x.issuedToMemory = true → x.bufferable = false ∧ x.state ≠ .inTranslation

end LsqRequest

namespace Lsq

/-- Where the requests stand. -/
structure Placed (q : Lsq) : Prop where
  nodup : (q.queue ++ q.slots).Nodup
  known : ∀ r ∈ q.queue ++ q.slots, r < q.nextReq
  retry : q.RetryPlaced
  requests : ∀ r ∈ q.requests, (q.reqs r).Waits
  transfers : ∀ r ∈ q.transfers, (q.reqs r).Passed
  slots : ∀ r ∈ q.slots, (q.reqs r).Buffered
  coherent : ∀ r, (q.reqs r).Coherent

/-- The lists change at most by the front request that passes to the transfers. -/
inductive Passes (q q' : Lsq) (r : ReqId) : Prop where
  | stay (requests : q'.requests = q.requests) (transfers : q'.transfers = q.transfers)
      (slots : q'.slots = q.slots)
  | pass (requests : q.requests = r :: q'.requests) (transfers : q'.transfers = q.transfers ++ [r])
      (slots : q'.slots = q.slots)

namespace Passes

variable {q q' : Lsq} {r : ReqId}

theorem queue (passes : Passes q q' r) : q'.queue = q.queue := by
  cases passes with
  | stay requests transfers slots => rw [Lsq.queue, Lsq.queue, requests, transfers]
  | pass requests transfers slots =>
    rw [Lsq.queue, Lsq.queue, requests, transfers, List.append_assoc, singleton_append]

theorem slots_eq (passes : Passes q q' r) : q'.slots = q.slots := by
  cases passes with
  | stay requests transfers slots => exact slots
  | pass requests transfers slots => exact slots

theorem requests_of_ne {t : ReqId} (passes : Passes q q' r) (inside : t ∈ q'.requests) :
    t ∈ q.requests := by
  cases passes with
  | stay requests transfers slots => exact requests ▸ inside
  | pass requests transfers slots => exact requests ▸ List.mem_cons_of_mem _ inside

theorem transfers_of_ne {t : ReqId} (passes : Passes q q' r) (other : t ≠ r)
    (inside : t ∈ q'.transfers) : t ∈ q.transfers := by
  cases passes with
  | stay requests transfers slots => exact transfers ▸ inside
  | pass requests transfers slots => grind

end Passes

theorem Placed.change {q q' : Lsq} {r : ReqId} {x : LsqRequest} (placed : q.Placed)
    (reqs : q'.reqs = Function.update q.reqs r x) (nextReq : q'.nextReq = q.nextReq)
    (passes : Passes q q' r) (retry : q'.RetryPlaced) (waits : r ∈ q'.requests → x.Waits)
    (passed : r ∈ q'.transfers → x.Passed) (buffered : r ∈ q'.slots → x.Buffered)
    (coherent : x.Coherent) : q'.Placed := by
  have other : ∀ t, t ≠ r → q'.reqs t = q.reqs t := by simp_all
  have self : q'.reqs r = x := by rw [reqs, update_self]
  refine ⟨?_, ?_, retry, ?_, ?_, ?_, ?_⟩
  · rw [passes.queue, passes.slots_eq]
    exact placed.nodup
  · rw [passes.queue, passes.slots_eq, nextReq]
    exact placed.known
  · intro t inside
    by_cases ne : t = r
    · subst ne
      rw [self]
      exact waits inside
    · rw [other t ne]
      exact placed.requests t (passes.requests_of_ne inside)
  · intro t inside
    by_cases ne : t = r
    · subst ne
      rw [self]
      exact passed inside
    · rw [other t ne]
      exact placed.transfers t (passes.transfers_of_ne ne inside)
  · intro t inside
    by_cases ne : t = r
    · subst ne
      rw [self]
      exact buffered inside
    · rw [other t ne]
      exact placed.slots t (passes.slots_eq ▸ inside)
  · intro t
    by_cases ne : t = r
    · subst ne
      rw [self]
      exact coherent
    · rw [other t ne]
      exact placed.coherent t

section Places

variable {q : Lsq} {r : ReqId}

theorem mem_requests (front : q.requests.head? = some r) : r ∈ q.requests :=
  List.mem_of_head? front

theorem Placed.requests_disjoint (placed : q.Placed) (inside : r ∈ q.requests) :
    r ∉ q.transfers ∧ r ∉ q.slots := by
  have nodup := placed.nodup
  rw [queue, List.append_assoc] at nodup
  obtain ⟨-, later, apart⟩ := List.nodup_append'.mp nodup
  exact ⟨fun other => apart other (mem_append_left _ inside),
    fun other => (List.nodup_append'.mp later).2.2 inside other⟩

theorem Placed.slots_disjoint (placed : q.Placed) (inside : r ∈ q.slots) :
    r ∉ q.transfers ∧ r ∉ q.requests := by
  have apart := (List.nodup_append'.mp placed.nodup).2.2
  exact ⟨fun other => apart (mem_append_left _ other) inside,
    fun other => apart (mem_append_right _ other) inside⟩

theorem Placed.transfers_disjoint (placed : q.Placed) (inside : r ∈ q.transfers) :
    r ∉ q.requests ∧ r ∉ q.slots :=
  ⟨fun other => (placed.requests_disjoint other).1 inside,
    fun other => (placed.slots_disjoint other).1 inside⟩

theorem Placed.changeFront {q' : Lsq} {x : LsqRequest} (placed : q.Placed)
    (front : q.requests.head? = some r) (reqs : q'.reqs = Function.update q.reqs r x)
    (nextReq : q'.nextReq = q.nextReq) (requests : q'.requests = q.requests)
    (transfers : q'.transfers = q.transfers) (slots : q'.slots = q.slots)
    (retry : q'.RetryPlaced) (waits : x.Waits) (coherent : x.Coherent) : q'.Placed := by
  obtain ⟨notTransfers, notSlots⟩ := placed.requests_disjoint (mem_requests front)
  refine placed.change reqs nextReq (.stay requests transfers slots) retry (fun _ => waits) ?_ ?_
    coherent
  · grind
  · grind

theorem Placed.passFront {q' : Lsq} {x : LsqRequest} (placed : q.Placed)
    (front : q.requests.head? = some r) (reqs : q'.reqs = Function.update q.reqs r x)
    (nextReq : q'.nextReq = q.nextReq) (requests : q'.requests = q.requests.tail)
    (transfers : q'.transfers = q.transfers ++ [r]) (slots : q'.slots = q.slots)
    (retry : q'.RetryPlaced) (passed : x.Passed) (coherent : x.Coherent) : q'.Placed := by
  obtain ⟨notTransfers, notSlots⟩ := placed.requests_disjoint (mem_requests front)
  have split : q.requests = r :: q'.requests := by
    rw [requests]
    exact (List.head?_eq_some_iff.mp front).elim fun rest h => by rw [h]; rfl
  refine placed.change reqs nextReq (.pass split transfers slots) retry ?_ (fun _ => passed) ?_
    coherent
  · intro inside
    have nodup := placed.nodup
    rw [queue, List.append_assoc] at nodup
    have requestsNodup := (List.nodup_append'.mp (List.nodup_append'.mp nodup).2.1).1
    rw [split, List.nodup_cons] at requestsNodup
    exact absurd inside requestsNodup.1
  · grind

theorem Placed.changeSlot {q' : Lsq} {x : LsqRequest} (placed : q.Placed) (inside : r ∈ q.slots)
    (reqs : q'.reqs = Function.update q.reqs r x) (nextReq : q'.nextReq = q.nextReq)
    (requests : q'.requests = q.requests) (transfers : q'.transfers = q.transfers)
    (slots : q'.slots = q.slots) (retry : q'.RetryPlaced) (buffered : x.Buffered)
    (coherent : x.Coherent) : q'.Placed := by
  obtain ⟨notTransfers, notRequests⟩ := placed.slots_disjoint inside
  refine placed.change reqs nextReq (.stay requests transfers slots) retry ?_ ?_
    (fun _ => buffered) coherent
  · grind
  · grind

theorem Placed.drop {q' : Lsq} (placed : q.Placed) (reqs : q'.reqs = q.reqs)
    (nextReq : q'.nextReq = q.nextReq) (requests : q'.requests = q.requests)
    (transfers : q'.transfers.Sublist q.transfers) (slots : q'.slots.Sublist q.slots)
    (retry : q'.RetryPlaced) : q'.Placed := by
  have sub : (q'.queue ++ q'.slots).Sublist (q.queue ++ q.slots) := by
    rw [queue, queue, requests]
    exact (transfers.append_right _).append slots
  refine ⟨placed.nodup.sublist sub, ?_, retry, ?_, ?_, ?_, ?_⟩
  · intro r inside
    rw [nextReq]
    exact placed.known r (sub.subset inside)
  · rw [reqs, requests]
    exact placed.requests
  · intro r inside
    rw [reqs]
    exact placed.transfers r (transfers.subset inside)
  · intro r inside
    rw [reqs]
    exact placed.slots r (slots.subset inside)
  · rw [reqs]
    exact placed.coherent

theorem retryPlaced_of_calm (calm : q.needsRetry = false) : q.RetryPlaced := by
  intro needs
  simp [calm] at needs

theorem RetryPlaced.change {q' : Lsq} {x : LsqRequest} (placed : q.RetryPlaced)
    (reqs : q'.reqs = Function.update q.reqs r x) (requests : q'.requests = q.requests)
    (slots : q'.slots = q.slots) (needs : q'.needsRetry = q.needsRetry)
    (retryRequest : q'.retryRequest = q.retryRequest) (state : x.state = (q.reqs r).state ∨ x.state
    ≠ .requestNeedsRetry ∧ x.state ≠ .storeBufferNeedsRetry) : q'.RetryPlaced := by
  intro waiting t request
  rw [needs] at waiting
  rw [retryRequest] at request
  by_cases same : t = r
  · subst same
    rw [reqs, update_self, requests, slots]
    rcases state with kept | state
    · rw [kept]
      exact placed waiting t request
    · exact ⟨fun h => absurd h state.1, fun h => absurd h state.2⟩
  · rw [reqs, update_of_ne same, requests, slots]
    exact placed waiting t request

theorem calm_of_free {prm : LsqParams} (free : q.canSendToMemorySystem prm = true) :
    q.needsRetry = false := by
  simp only [canSendToMemorySystem, and_eq_true, not_eq_eq_eq_not] at free
  exact free.1

end Places

end Lsq

theorem LsqRequest.translate_state (x : LsqRequest) (a : Translation)
    (state : x.state = .inTranslation) :
    (x.translate a).state = .translated ∨ (x.translate a).state = .inTranslation := by
  grind [translate]

theorem LsqRequest.translate_same (x : LsqRequest) (a : Translation) :
    (x.translate a).inst = x.inst ∧ (x.translate a).isLoad = x.isLoad
      ∧ (x.translate a).issuedToMemory = x.issuedToMemory ∧ (x.translate a).kind = x.kind
      ∧ (x.translate a).instIsBarrier = x.instIsBarrier := by grind [translate]

namespace Lsq

variable {cfg : Config} {prm : LsqParams} {view : View} {allow : InstId → Prop} {q q' : Lsq}

theorem Turn.direct {r : ReqId} (turn : Turn prm view q r) :
    AtFront prm view q r ∧ (q.reqs r).Direct ∨ r ∈ q.slots := by
  cases turn with
  | load front isLoad bufferable => exact .inl ⟨front, .inr (.inl ⟨bufferable, isLoad⟩)⟩
  | claimed front bufferable head issued => exact .inl ⟨front, .inr (.inr ⟨bufferable, issued⟩)⟩
  | ipr front flag => exact .inl ⟨front, .inl flag⟩
  | slot slot =>
    obtain ⟨before, after, slots, -⟩ := slot
    exact .inr (slots ▸ mem_append_right _ List.mem_cons_self)

theorem Act.placed (act : Act prm view allow q q') (placed : q.Placed) : q'.Placed := by
  cases act with
  | @translate r a state =>
    have after := (q.reqs r).translate_state a state
    have same := (q.reqs r).translate_same a
    have unissued : (q.reqs r).issuedToMemory = false := by
      cases h : (q.reqs r).issuedToMemory
      · rfl
      · exact absurd state ((placed.coherent r).issued h).2
    refine placed.change rfl rfl (.stay rfl rfl rfl)
      (placed.retry.change rfl rfl rfl rfl rfl ?_) ?_ ?_ ?_ ⟨?_, ?_⟩
    · right
      rcases after with h | h <;> simp [h]
    · intro _
      refine ⟨?_, ?_⟩
      · rcases after with h | h <;> simp [h]
      · rcases after with h | h <;> simp [h]
    · intro inside
      have := placed.transfers r inside
      simp [LsqRequest.Passed, state] at this
    · intro inside
      have := (placed.slots r inside).state
      simp [state] at this
    · rcases after with h | h <;> simp [h]
    · simp [same.2.2.1, unissued]
  | skip front calm state why =>
    exact placed.passFront front rfl rfl rfl rfl rfl (retryPlaced_of_calm calm) (.inl rfl)
      ⟨by simp, fun issued => ⟨((placed.coherent _).issued issued).1, by simp⟩⟩
  | toBuffer front store bufferable ipr =>
    refine placed.passFront front.front rfl rfl rfl rfl rfl (retryPlaced_of_calm front.calm)
      (.inr (.inl rfl)) ⟨fun _ => ⟨bufferable, ipr, store⟩, ?_⟩
    intro issued
    exact ⟨((placed.coherent _).issued issued).1, by simp⟩
  | @forward r s front isLoad bufferable found full =>
    refine placed.passFront (x := { q.reqs r with
        loaded := fun i => (q.reqs s).data (i + ((q.reqs r).paddr - (q.reqs s).paddr))
        state := .complete })
      front.front ?_ rfl rfl rfl rfl (retryPlaced_of_calm front.calm) (.inl rfl) ⟨by simp, ?_⟩
    · simp [moveFromRequestsToTransfers, Lsq.skipAccess, setState, forwardStoreData, update]
    · intro issued
      exact ⟨((placed.coherent _).issued issued).1, by simp⟩
  | skipAccess front store llsc =>
    exact placed.passFront front.front rfl rfl rfl rfl rfl (retryPlaced_of_calm front.calm)
      (.inl rfl) ⟨by simp, fun issued => ⟨((placed.coherent _).issued issued).1, by simp⟩⟩
  | claim front bufferable head unissued allowed =>
    refine placed.changeFront front.front rfl rfl rfl rfl rfl (retryPlaced_of_calm front.calm)
      ⟨?_, ?_⟩ ⟨?_, ?_⟩
    · exact (placed.requests _ (mem_requests front.front)).state
    · exact fun _ => .inr (.inr ⟨bufferable, rfl⟩)
    · exact (placed.coherent _).toBuffer
    · intro _
      refine ⟨bufferable, ?_⟩
      rcases front.state with h | h <;> simp [h]
  | @send r s turn free ipr state =>
    have calm := calm_of_free free
    have kept : { (q.reqs r).stepToNextPacket with state := s }.Coherent := by
      refine ⟨?_, ?_⟩
      · rintro rfl
        cases h : (q.reqs r).state <;> simp [issuingState, h] at state
      · intro issued
        refine ⟨((placed.coherent r).issued issued).1, ?_⟩
        rintro rfl
        cases h : (q.reqs r).state <;> simp [issuingState, h] at state
    rcases turn.direct with ⟨front, direct⟩ | inside
    · have after : s = .requestIssuing := by
        rcases front.state with h | h <;> simpa [issuingState, h] using state.symm
      subst after
      exact placed.changeFront front.front rfl rfl rfl rfl rfl (retryPlaced_of_calm calm)
        ⟨by simp, fun _ => direct⟩ kept
    · have buffered := placed.slots r inside
      have after : s = .storeBufferIssuing := by
        rcases buffered.state with h | h | h | h <;> simp [issuingState, h] at state <;>
          exact state.symm
      subst after
      exact placed.changeSlot inside rfl rfl rfl rfl rfl (retryPlaced_of_calm calm)
        ⟨by simp, buffered.bufferable, buffered.ipr⟩ kept
  | @ipr r place flag =>
    have after := (q.reqs r).stepIpr_state
    rcases place with front | inside
    · refine placed.changeFront front rfl rfl rfl rfl rfl ?_ ⟨?_, ?_⟩ ⟨?_, ?_⟩
      · refine placed.retry.change rfl rfl rfl rfl rfl (.inr ?_)
        rcases after with h | h <;> simp [h]
      · rcases after with h | h <;> simp [h]
      · exact fun _ => .inl flag
      · rcases after with h | h <;> simp [h]
      · intro issued
        refine ⟨((placed.coherent r).issued issued).1, ?_⟩
        rcases after with h | h <;> simp [h]
    · have := (placed.slots r inside).ipr
      simp [flag] at this
  | @refuse r s turn state =>
    have kept : { q.reqs r with state := s }.Coherent := by
      refine ⟨?_, ?_⟩
      · rintro rfl
        cases h : (q.reqs r).state <;> simp [retryState, h] at state
      · intro issued
        refine ⟨((placed.coherent r).issued issued).1, ?_⟩
        rintro rfl
        cases h : (q.reqs r).state <;> simp [retryState, h] at state
    rcases turn.direct with ⟨front, direct⟩ | inside
    · have after : s = .requestNeedsRetry := by
        rcases front.state with h | h <;> simpa [retryState, h] using state.symm
      subst after
      refine placed.changeFront front.front rfl rfl rfl rfl rfl ?_ ⟨by simp, fun _ => direct⟩ kept
      intro _ t request
      obtain rfl : r = t := Option.some.inj request
      exact ⟨fun _ => front.front, by simp [setState]⟩
    · have buffered := placed.slots r inside
      have after : s = .storeBufferNeedsRetry := by
        rcases buffered.state with h | h | h | h <;> simp [retryState, h] at state <;>
          exact state.symm
      subst after
      refine placed.changeSlot inside rfl rfl rfl rfl rfl ?_
        ⟨by simp, buffered.bufferable, buffered.ipr⟩ kept
      intro _ t request
      obtain rfl : r = t := Option.some.inj request
      exact ⟨by simp [setState], fun _ => inside⟩
  | @advance r front calm state sent =>
    refine placed.passFront (x := q.reqs r) front ?_ rfl rfl rfl rfl (retryPlaced_of_calm calm) ?_
      (placed.coherent r)
    · simp [moveFromRequestsToTransfers]
    · rcases state with h | h
      · exact .inr (.inr h)
      · exact .inl h
  | @resume r s retried =>
    obtain ⟨toFront, toSlot⟩ := placed.retry retried.needs r retried.request
    rcases retried.state with ⟨before, rfl⟩ | ⟨before, rfl⟩
    · exact placed.changeFront (toFront before) rfl rfl rfl rfl rfl (retryPlaced_of_calm rfl)
        ⟨by simp, by simp⟩
        ⟨by simp, fun issued => ⟨((placed.coherent r).issued issued).1, by simp⟩⟩
    · have buffered := placed.slots r (toSlot before)
      exact placed.changeSlot (toSlot before) rfl rfl rfl rfl rfl (retryPlaced_of_calm rfl)
        ⟨by simp, buffered.bufferable, buffered.ipr⟩
        ⟨by simp, fun issued => ⟨((placed.coherent r).issued issued).1, by simp⟩⟩
  | @resend r s t retried free ipr state =>
    obtain ⟨toFront, toSlot⟩ := placed.retry retried.needs r retried.request
    have reqs : ((q.resume r s).sendPacket r t).reqs =
        Function.update q.reqs r { (q.reqs r).stepToNextPacket with state := t } := by
      simp [sendPacket, Lsq.resume, setState, update, LsqRequest.stepToNextPacket]
    rcases retried.state with ⟨before, rfl⟩ | ⟨before, rfl⟩
    · obtain rfl : ReqState.requestIssuing = t := Option.some.inj state
      have waits := placed.requests r (mem_requests (toFront before))
      exact placed.changeFront (toFront before) reqs rfl rfl rfl rfl (retryPlaced_of_calm rfl)
        ⟨by simp, fun _ => waits.direct (.inr before)⟩
        ⟨by simp, fun issued => ⟨((placed.coherent r).issued issued).1, by simp⟩⟩
    · obtain rfl : ReqState.storeBufferIssuing = t := Option.some.inj state
      have buffered := placed.slots r (toSlot before)
      exact placed.changeSlot (toSlot before) reqs rfl rfl rfl rfl (retryPlaced_of_calm rfl)
        ⟨by simp, buffered.bufferable, buffered.ipr⟩
        ⟨by simp, fun issued => ⟨((placed.coherent r).issued issued).1, by simp⟩⟩
  | @clearBarrier r rest slots complete barrier =>
    have shape : ∀ inst : InstId, ({ q with slots := rest }.clearMemBarrier inst).reqs = q.reqs
        ∧ ({ q with slots := rest }.clearMemBarrier inst).nextReq = q.nextReq
        ∧ ({ q with slots := rest }.clearMemBarrier inst).requests = q.requests
        ∧ ({ q with slots := rest }.clearMemBarrier inst).transfers = q.transfers
        ∧ ({ q with slots := rest }.clearMemBarrier inst).slots = rest
        ∧ ({ q with slots := rest }.clearMemBarrier inst).needsRetry = q.needsRetry
        ∧ ({ q with slots := rest }.clearMemBarrier inst).retryRequest = q.retryRequest := by
      intro inst
      simp only [clearMemBarrier]
      split <;> exact ⟨rfl, rfl, rfl, rfl, rfl, rfl, rfl⟩
    obtain ⟨reqs, nextReq, requests, transfers, slots', needs, request⟩ := shape (q.reqs r).inst
    refine placed.drop reqs nextReq requests (by rw [transfers]) ?_ ?_
    · simp [slots', slots]
    · intro waiting t own
      rw [reqs, requests, slots']
      obtain ⟨toFront, toSlot⟩ := placed.retry (needs ▸ waiting) t (request ▸ own)
      refine ⟨toFront, fun state => ?_⟩
      have inside := toSlot state
      rw [slots, List.mem_cons] at inside
      refine inside.resolve_left ?_
      rintro rfl
      simp [LsqRequest.isComplete, state] at complete
  | tally n retryRequest same =>
    refine placed.drop rfl rfl rfl (List.Sublist.refl _) (List.Sublist.refl _) ?_
    intro waiting t own
    exact placed.retry waiting t (by rw [← same waiting]; exact own)
  | fail =>
    exact placed.drop rfl rfl rfl (List.Sublist.refl _) (List.Sublist.refl _) placed.retry

theorem Placed.fresh (placed : q.Placed) : q.nextReq ∉ q.queue ++ q.slots :=
  fun inside => absurd (placed.known _ inside) (Nat.lt_irrefl _)

theorem Placed.known_ne {t : ReqId} (placed : q.Placed) (inside : t ∈ q.queue ++ q.slots) :
    t ≠ q.nextReq :=
  fun same => placed.fresh (same ▸ inside)

theorem Placed.retry_fresh (placed : q.Placed) {x : LsqRequest}
    (reqs : q'.reqs = Function.update q.reqs q.nextReq x)
    (calm : x.state ≠ .requestNeedsRetry ∧ x.state ≠ .storeBufferNeedsRetry)
    (requests : ∀ t, q.requests.head? = some t → q'.requests.head? = some t)
    (slots : q.slots ⊆ q'.slots) (needs : q'.needsRetry = q.needsRetry)
    (request : q'.retryRequest = q.retryRequest) : q'.RetryPlaced := by
  intro waiting t own
  obtain ⟨toFront, toSlot⟩ := placed.retry (needs ▸ waiting) t (request ▸ own)
  rw [reqs]
  by_cases same : t = q.nextReq
  · grind
  · grind

theorem Placed.push {x : LsqRequest} (placed : q.Placed) (waits : x.Waits) (coherent : x.Coherent)
    (calm : x.state ≠ .requestNeedsRetry ∧ x.state ≠ .storeBufferNeedsRetry) :
    { q.create x with requests := q.requests ++ [q.nextReq] }.Placed := by
  have old : ∀ t ∈ q.queue ++ q.slots, Function.update q.reqs q.nextReq x t = q.reqs t :=
    fun t inside => update_of_ne (placed.known_ne inside) ..
  refine ⟨?_, ?_, ?_, ?_, ?_, ?_, ?_⟩
  · have perm : (q.transfers ++ (q.requests ++ [q.nextReq]) ++ q.slots).Perm
        (q.nextReq :: (q.queue ++ q.slots)) := by
      simp only [queue, List.append_assoc]
      exact (List.perm_middle.append_left _).trans perm_middle
    exact perm.nodup_iff.mpr (List.nodup_cons.mpr ⟨placed.fresh, placed.nodup⟩)
  · intro t inside
    have cases : t ∈ q.queue ++ q.slots ∨ t = q.nextReq := by
      simp only [queue, mem_append, List.mem_singleton] at inside ⊢
      tauto
    rcases cases with old | rfl
    · exact Nat.lt_succ_of_lt (placed.known t old)
    · exact Nat.lt_succ_self _
  · refine placed.retry_fresh rfl calm ?_ (List.Subset.refl _) rfl rfl
    intro t front
    simp [front]
  · intro t inside
    rw [mem_append, List.mem_singleton] at inside
    rcases inside with inside | rfl
    · simp only [create, old t (by simp [queue, inside])]
      exact placed.requests t inside
    · simp only [create, update_self]
      exact waits
  · intro t inside
    simp only [create, old t (by simp [queue, show t ∈ q.transfers from inside])]
    exact placed.transfers t inside
  · intro t inside
    simp only [create, old t (mem_append_right _ inside)]
    exact placed.slots t inside
  · intro t
    by_cases same : t = q.nextReq
    · subst same
      simp only [create, update_self]
      exact coherent
    · simp only [create, update_of_ne same]
      exact placed.coherent t

theorem Placed.buffer {r : ReqId} (placed : q.Placed) (front : q.transfers.head? = some r)
    (state : (q.reqs r).state = .storeToStoreBuffer) : ((q.insert r).popResponse r).Placed := by
  obtain ⟨rest, transfers⟩ := List.head?_eq_some_iff.mp front
  have inside : r ∈ q.transfers := transfers ▸ List.mem_cons_self
  obtain ⟨notRequests, notSlots⟩ := placed.transfers_disjoint inside
  have bufferable := (placed.coherent r).toBuffer state
  have nodup : (r :: (rest ++ q.requests ++ q.slots)).Nodup := by
    have nodup := placed.nodup
    rwa [queue, transfers] at nodup
  have reqs : ((q.insert r).popResponse r).reqs =
      Function.update q.reqs r { q.reqs r with state := .storeInStoreBuffer } := by
    simp [popResponse, insert, update, LsqRequest.isComplete, state]
  have lists : ((q.insert r).popResponse r).transfers = rest
      ∧ ((q.insert r).popResponse r).requests = q.requests
      ∧ ((q.insert r).popResponse r).slots = q.slots ++ [r] := by
    simp [popResponse, insert, update, transfers]
  have old : ∀ t, t ≠ r → ((q.insert r).popResponse r).reqs t = q.reqs t := by simp_all
  have perm : (((q.insert r).popResponse r).queue ++ ((q.insert r).popResponse r).slots).Perm
      (q.queue ++ q.slots) := by
    rw [queue, lists.1, lists.2.1, lists.2.2, queue, transfers, ← List.append_assoc]
    exact perm_append_singleton ..
  refine ⟨perm.nodup_iff.mpr placed.nodup, fun t inside => placed.known t (perm.mem_iff.mp inside),
    ?_, ?_, ?_, ?_, ?_⟩
  · intro waiting t own
    obtain ⟨toFront, toSlot⟩ := placed.retry waiting t own
    rw [reqs, lists.2.1, lists.2.2]
    by_cases same : t = r
    · subst same
      simp
    · grind
  · intro t here
    rw [old t fun same => notRequests (same ▸ here)]
    exact placed.requests t here
  · intro t here
    rw [lists.1] at here
    have other : t ≠ r := by grind
    rw [old t other]
    exact placed.transfers t (transfers ▸ List.mem_cons_of_mem _ here)
  · intro t here
    rw [lists.2.2, mem_append, List.mem_singleton] at here
    rcases here with here | rfl
    · rw [old t fun same => notSlots (same ▸ here)]
      exact placed.slots t here
    · rw [reqs, update_self]
      exact ⟨.inl rfl, bufferable.1, bufferable.2.1⟩
  · intro t
    by_cases same : t = r
    · subst same
      rw [reqs, update_self]
      exact ⟨by simp, fun issued => ⟨((placed.coherent t).issued issued).1, by simp⟩⟩
    · rw [old t same]
      exact placed.coherent t

theorem Placed.insertBarrier (placed : q.Placed) (inst : InstId) :
    ((q.create (barrierRequest inst)).insert q.nextReq).Placed := by
  generalize after : (q.create (barrierRequest inst)).insert q.nextReq = q'
  have reqs : q'.reqs = Function.update q.reqs q.nextReq (barrierRequest inst) := by
    rw [← after]
    simp [insert, create, update, LsqRequest.isComplete, barrierRequest]
  have queues : q'.queue = q.queue := by
    rw [← after]
    rfl
  have slots : q'.slots = q.slots ++ [q.nextReq] := by
    rw [← after]
    rfl
  have lists : q'.requests = q.requests ∧ q'.transfers = q.transfers := by aesop
  have old : ∀ t ∈ q.queue ++ q.slots, q'.reqs t = q.reqs t := by
    intro t inside
    rw [reqs, update_of_ne (placed.known_ne inside)]
  have perm : (q'.queue ++ q'.slots).Perm (q.nextReq :: (q.queue ++ q.slots)) := by grind
  refine ⟨?_, ?_, ?_, ?_, ?_, ?_, ?_⟩
  · exact perm.nodup_iff.mpr (List.nodup_cons.mpr ⟨placed.fresh, placed.nodup⟩)
  · intro t inside
    have next : q'.nextReq = q.nextReq + 1 := by
      rw [← after]
      rfl
    rw [next]
    rcases List.mem_cons.mp (perm.mem_iff.mp inside) with rfl | inside
    · exact Nat.lt_succ_self _
    · exact Nat.lt_succ_of_lt (placed.known t inside)
  · refine placed.retry_fresh reqs (by simp [barrierRequest]) ?_ ?_ ?_ ?_
    · rw [lists.1]
      exact fun _ front => front
    · rw [slots]
      exact subset_append_left _ _
    · rw [← after]
      rfl
    · rw [← after]
      rfl
  · intro t inside
    rw [lists.1] at inside
    rw [old t (by simp [queue, inside])]
    exact placed.requests t inside
  · intro t inside
    rw [lists.2] at inside
    rw [old t (by simp [queue, inside])]
    exact placed.transfers t inside
  · intro t inside
    rw [slots, mem_append, List.mem_singleton] at inside
    rcases inside with inside | rfl
    · rw [old t (mem_append_right _ inside)]
      exact placed.slots t inside
    · rw [reqs, update_self]
      exact ⟨by simp [barrierRequest], rfl, rfl⟩
  · intro t
    rw [reqs]
    by_cases same : t = q.nextReq
    · subst same
      rw [update_self]
      exact ⟨by simp [barrierRequest], by simp [barrierRequest]⟩
    · rw [update_of_ne same]
      exact placed.coherent t

end Lsq

theorem LsqRequest.retireResponse_same (x : LsqRequest) (k : Nat) (bytes : Nat → Byte) :
    (x.retireResponse k bytes).inst = x.inst ∧ (x.retireResponse k bytes).isLoad = x.isLoad
      ∧ (x.retireResponse k bytes).flags = x.flags
      ∧ (x.retireResponse k bytes).issuedToMemory = x.issuedToMemory
      ∧ ((x.retireResponse k bytes).state = .complete
        ∨ (x.retireResponse k bytes).state = x.state) := by grind [retireResponse]

theorem LsqRequest.bufferable_congr {x y : LsqRequest} (flags : x.flags = y.flags) :
    x.bufferable = y.bufferable := by
  rw [bufferable, bufferable, flags]

namespace Lsq

variable {cfg : Config} {view : View} {allow : InstId → Prop} {q q' : Lsq}

/-- How a response changes the queue. -/
inductive Received (q : Lsq) (p : Packet) (left : List Packet) : Lsq → Prop where
  | retired (state : (q.reqs p.req).state = .requestIssuing
        ∨ (q.reqs p.req).state = .requestNeedsRetry
        ∨ (q.reqs p.req).state = .storeBufferIssuing
        ∨ (q.reqs p.req).state = .storeBufferNeedsRetry)
      (slots : List ReqId)
      (erased : slots = q.slots ∨ slots = q.slots.erase p.req
        ∧ ((q.reqs p.req).retireResponse p.frag p.bytes).state = .complete) :
      Received q p left { q.update p.req (·.retireResponse p.frag p.bytes) with
        inMemory := left
        slots := slots
        numAccessesInMemorySystem := dec q.numAccessesInMemorySystem
        trace := q.trace ++ [.received p.req p.frag] }
  | failed : Received q p left { q with
      inMemory := left
      numAccessesInMemorySystem := dec q.numAccessesInMemorySystem
      trace := q.trace ++ [.received p.req p.frag]
      panicked := true }

theorem recvTimingResp_received {k : Nat} {p : Packet} (found : q.inMemory[k]? = some p) :
    Received q p (q.inMemory.eraseIdx k) (q.recvTimingResp k) := by
  simp only [recvTimingResp, found]
  split
  next state => exact .retired (.inl state) q.slots (.inl rfl)
  next state => exact .retired (.inr (.inl state)) q.slots (.inl rfl)
  next state =>
    split
    next erases =>
      simp only [and_eq_true, LsqRequest.isComplete, beq_iff_eq, update_reqs_self] at erases
      exact .retired (.inr (.inr (.inl state))) _ (.inr ⟨rfl, erases.1⟩)
    next => exact .retired (.inr (.inr (.inl state))) q.slots (.inl rfl)
  next state =>
    split
    next erases =>
      simp only [and_eq_true, LsqRequest.isComplete, beq_iff_eq, update_reqs_self] at erases
      exact .retired (.inr (.inr (.inr state))) _ (.inr ⟨rfl, erases.1⟩)
    next => exact .retired (.inr (.inr (.inr state))) q.slots (.inl rfl)
  next => exact .failed

theorem Placed.answered {r : ReqId} {x : LsqRequest} (placed : q.Placed)
    (isLoad : x.isLoad = (q.reqs r).isLoad) (flags : x.flags = (q.reqs r).flags)
    (issued : x.issuedToMemory = (q.reqs r).issuedToMemory)
    (after : x.state = .complete ∨ x.state = (q.reqs r).state) {slots : List ReqId}
    (erased : slots = q.slots ∨ slots = q.slots.erase r ∧ x.state = .complete)
    (left : List Packet) (n : Nat) (trace : List MemEvent) :
    { q with
      reqs := Function.update q.reqs r x
      inMemory := left
      slots := slots
      numAccessesInMemorySystem := n
      trace := trace }.Placed := by
  have bufferable := LsqRequest.bufferable_congr flags
  have answered : { q with
      reqs := Function.update q.reqs r x
      inMemory := left
      numAccessesInMemorySystem := n
      trace := trace }.Placed := by
    refine placed.change rfl rfl (.stay rfl rfl rfl) ?_ ?_ ?_ ?_ ⟨?_, ?_⟩
    · refine placed.retry.change rfl rfl rfl rfl rfl ?_
      rcases after with h | h
      · right
        simp [h]
      · exact .inl h
    · intro inside
      have waits := placed.requests _ inside
      refine ⟨?_, ?_⟩
      · rcases after with h | h
        · simp [h]
        · rw [h]
          exact waits.state
      · intro busy
        rw [LsqRequest.Direct, flags, bufferable, isLoad, issued]
        rcases after with h | h
        · simp [h] at busy
        · rw [h] at busy
          exact waits.direct busy
    · intro inside
      have passed := placed.transfers _ inside
      rcases after with h | h
      · exact .inl h
      · rw [LsqRequest.Passed, h]
        exact passed
    · intro inside
      have buffered := placed.slots _ inside
      refine ⟨?_, ?_, ?_⟩
      · rcases after with h | h
        · simp [h]
        · rw [h]
          exact buffered.state
      · rw [bufferable]
        exact buffered.bufferable
      · rw [flags]
        exact buffered.ipr
    · rcases after with h | h
      · simp [h]
      · rw [h, bufferable, flags, isLoad]
        exact (placed.coherent _).toBuffer
    · rw [issued, bufferable]
      intro claimed
      refine ⟨((placed.coherent _).issued claimed).1, ?_⟩
      rcases after with h | h
      · simp [h]
      · rw [h]
        exact ((placed.coherent _).issued claimed).2
  rcases erased with same | ⟨same, complete⟩
  · subst same
    exact answered
  · subst same
    refine answered.drop rfl rfl rfl (List.Sublist.refl _) erase_sublist ?_
    intro waiting t own
    obtain ⟨toFront, toSlot⟩ := answered.retry waiting t own
    refine ⟨toFront, fun busy => ?_⟩
    have other : t ≠ r := by grind
    exact (List.mem_erase_of_ne other).mpr (toSlot busy)

theorem Received.placed {p : Packet} {left : List Packet} (received : Received q p left q')
    (placed : q.Placed) : q'.Placed := by
  cases received with
  | failed => exact placed.drop rfl rfl rfl (List.Sublist.refl _) (List.Sublist.refl _) placed.retry
  | retired state slots erased =>
    obtain ⟨-, isLoad, flags, issued, after⟩ :=
      (q.reqs p.req).retireResponse_same p.frag p.bytes
    exact placed.answered isLoad flags issued after erased _ _ _

theorem Step.placed (step : Step cfg view allow q q') (placed : q.Placed) : q'.Placed := by
  cases step with
  | act act => exact act.placed placed
  | perform =>
    rw [Lsq.perform]
    split
    · exact placed
    · split
      · exact placed
      · exact placed.drop rfl rfl rfl (List.Sublist.refl _) (List.Sublist.refl _) placed.retry
  | receive found performed => exact (recvTimingResp_received found).placed placed
  | push pushed =>
    cases pushed with
    | failed => exact placed.push ⟨by simp, by simp⟩ ⟨nofun, nofun⟩ (by simp)
    | access =>
      exact placed.push ⟨by simp [newRequest], by simp [newRequest]⟩ ⟨nofun, nofun⟩
        (by simp [newRequest])
  | pop => exact placed.drop rfl rfl rfl (tail_sublist _) (List.Sublist.refl _) placed.retry
  | buffer front packet state => exact placed.buffer front state
  | barrier =>
    exact placed.drop rfl rfl rfl (List.Sublist.refl _) (List.Sublist.refl _) placed.retry
  | insertBarrier inst => exact placed.insertBarrier inst

theorem Steps.placed (steps : Steps cfg view allow q q') (placed : q.Placed) : q'.Placed := by
  induction steps with
  | refl => exact placed
  | tail _ step ih => exact step.placed ih

theorem placed_init : ({} : Lsq).Placed := by
  constructor <;> simp [queue, RetryPlaced]
  constructor <;> simp

end Lsq

theorem Core.permits_true (cfg : Config) (c : Core) (e : Execute.Event) :
    c.Permits cfg e fun _ => True :=
  ⟨fun _ _ _ _ _ => trivial, fun _ _ _ _ _ _ => trivial⟩

theorem Move.placed {cfg : Config} {o : Execute} {e : Execute.Event} {c c' : Core}
    (move : Move cfg o e c c') (placed : c.lsq.Placed) : c'.lsq.Placed :=
  Lsq.Steps.placed (move.lsq placed.retry (c.permits_true cfg e)) placed

end Gem5.Minor
