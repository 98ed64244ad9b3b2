import Gem5.Minor.Accesses

/-!
# What becomes of accesses that have started

A packet is sent, and a store enters the store buffer, only on behalf of an instruction
that is committed or that its thread cannot discard any more. The invariant follows the
requests that have done so to the commit of their instructions.
-/

namespace Gem5.Minor

open List Function

namespace Lsq

variable {cfg : Config} {prm : LsqParams} {view : View} {allow done entered : InstId → Prop}
  {q q' : Lsq}

/-- What a later state of a request keeps. -/
structure Keeps (x y : LsqRequest) : Prop where
  label : y.label = x.label
  issued : x.issuedToMemory = true → y.issuedToMemory = true
  translated : x.state ≠ .inTranslation → y.state ≠ .inTranslation ∧ y.flags = x.flags

theorem Keeps.refl (x : LsqRequest) : Keeps x x := ⟨rfl, id, fun h => ⟨h, rfl⟩⟩

theorem Keeps.inst {x y : LsqRequest} (keeps : Keeps x y) : y.inst = x.inst :=
  congrArg Label.inst keeps.label

theorem Keeps.isLoad {x y : LsqRequest} (keeps : Keeps x y) : y.isLoad = x.isLoad :=
  congrArg Label.isLoad keeps.label

theorem keeps_of_update {r : ReqId} {x : LsqRequest} (reqs : q'.reqs = Function.update q.reqs r x)
    (keeps : Keeps (q.reqs r) x) (t : ReqId) : Keeps (q.reqs t) (q'.reqs t) := by
  rw [reqs]
  by_cases h : t = r
  · subst h
    rw [update_self]
    exact keeps
  · rw [update_of_ne h]
    exact .refl _

theorem Act.keeps (act : Act prm view allow q q') (t : ReqId) : Keeps (q.reqs t) (q'.reqs t) := by
  -- Only the states of requests that are translated change, and never back.
  have moved : ∀ r x, q'.reqs = Function.update q.reqs r x → x.label = (q.reqs r).label →
      x.issuedToMemory = (q.reqs r).issuedToMemory → x.state ≠ .inTranslation →
      x.flags = (q.reqs r).flags → Keeps (q.reqs t) (q'.reqs t) :=
    fun r x reqs label issued state flags =>
      keeps_of_update reqs ⟨label, fun h => issued.trans h, fun _ => ⟨state, flags⟩⟩ t
  have same : q'.reqs = q.reqs → Keeps (q.reqs t) (q'.reqs t) := fun h => h ▸ .refl _
  cases act with
  | @translate r a state =>
    have unissued := ((q.reqs r).translate_same a).2.2.1
    exact keeps_of_update rfl ⟨label_translate _ a, fun h => unissued.trans h,
      fun translated => absurd state translated⟩ t
  | skip | toBuffer | skipAccess => refine moved _ _ rfl ?_ ?_ (by simp) ?_ <;> rfl
  | forward =>
    refine moved _ _ (forward_reqs ..) ?_ ?_ (by simp) ?_ <;> rfl
  | @claim r front bufferable head unissued =>
    have claimed : Keeps (q.reqs r) { q.reqs r with issuedToMemory := true } :=
      ⟨rfl, fun _ => rfl, fun h => ⟨h, rfl⟩⟩
    exact keeps_of_update rfl claimed t
  | @send r s turn free ipr state =>
    refine moved _ _ rfl ?_ ?_ ?_ ?_
    · rfl
    · rfl
    · rintro rfl
      cases h : (q.reqs r).state <;> simp [issuingState, h] at state
    · rfl
  | @ipr r place flag =>
    refine moved _ _ rfl ?_ ?_ ?_ ?_
    · rfl
    · rfl
    · rcases (q.reqs r).stepIpr_state with h | h <;> rw [h] <;> simp
    · rfl
  | @refuse r s turn state =>
    refine moved _ _ rfl ?_ ?_ ?_ ?_
    · rfl
    · rfl
    · rintro rfl
      cases h : (q.reqs r).state <;> simp [retryState, h] at state
    · rfl
  | advance | tally | fail => exact same rfl
  | @resume r s retried =>
    refine moved _ _ rfl ?_ ?_ ?_ ?_
    · rfl
    · rfl
    · rcases retried.state with ⟨-, rfl⟩ | ⟨-, rfl⟩ <;> simp
    · rfl
  | @resend r s t retried free ipr state =>
    refine moved _ _ (resend_reqs ..) ?_ ?_ ?_ ?_
    · rfl
    · rfl
    · rintro rfl
      cases s <;> simp [issuingState] at state
    · rfl
  | clearBarrier => grind [clearMemBarrier]

/-- What was sent stays sent, and the requests keep what they are. -/
structure Grows (q q' : Lsq) : Prop where
  next : q.nextReq ≤ q'.nextReq
  keeps : ∀ r, r < q.nextReq → Keeps (q.reqs r) (q'.reqs r)
  trace : q.trace ⊆ q'.trace

theorem Keeps.trans {x y z : LsqRequest} (first : Keeps x y) (second : Keeps y z) : Keeps x z := by
  refine ⟨second.label.trans first.label, second.issued ∘ first.issued, fun translated => ?_⟩
  obtain ⟨state, flags⟩ := first.translated translated
  obtain ⟨state', flags'⟩ := second.translated state
  exact ⟨state', flags'.trans flags⟩

theorem Grows.refl (q : Lsq) : Grows q q :=
  ⟨Nat.le_refl _, fun _ _ => .refl _, List.Subset.refl _⟩

theorem Grows.trans {p : Lsq} (first : Grows p q) (second : Grows q q') : Grows p q' where
  next := Nat.le_trans first.next second.next
  keeps r known :=
    (first.keeps r known).trans (second.keeps r (Nat.lt_of_lt_of_le known first.next))
  trace := List.Subset.trans first.trace second.trace

/-- A request that has sent a packet. -/
structure Sent (q : Lsq) (done entered : InstId → Prop) (r : ReqId) : Prop where
  known : r < q.nextReq
  translated : (q.reqs r).state ≠ .inTranslation
  entered : (q.reqs r).bufferable = false → entered (q.reqs r).inst
  fate : done (q.reqs r).inst ∨ r ∈ q.queue ∧ (q.reqs r).issuedToMemory = true
    ∨ (q.reqs r).bufferable = true ∧ (q.reqs r).isLoad = true

/-- What became of the requests that have sent a packet or entered the store buffer. -/
structure Fates (q : Lsq) (done entered : InstId → Prop) : Prop where
  sent : ∀ r k, MemEvent.sent r k ∈ q.trace → q.Sent done entered r
  buffered : ∀ r, MemEvent.buffered r ∈ q.trace → done (q.reqs r).inst ∧ r < q.nextReq
  slots : ∀ r ∈ q.slots, done (q.reqs r).inst ∧ r < q.nextReq

theorem Sent.keep {r : ReqId} (sent : q.Sent done entered r) (grows : Grows q q') (queue : r ∈
    q.queue → r ∈ q'.queue ∨ ((q.reqs r).issuedToMemory = true → done (q.reqs r).inst)) :
    q'.Sent done entered r := by
  have keeps := grows.keeps r sent.known
  obtain ⟨translated, flags⟩ := keeps.translated sent.translated
  have bufferable := LsqRequest.bufferable_congr flags
  refine ⟨Nat.lt_of_lt_of_le sent.known grows.next, translated, ?_, ?_⟩
  · rw [bufferable, keeps.inst]
    exact sent.entered
  · rw [bufferable, keeps.inst, keeps.isLoad]
    rcases sent.fate with finished | ⟨inside, issued⟩ | load
    · exact .inl finished
    · rcases queue inside with stays | finished
      · exact .inr (.inl ⟨stays, keeps.issued issued⟩)
      · exact .inl (finished issued)
    · exact .inr (.inr load)

theorem Fates.keep (fates : q.Fates done entered) (grows : Grows q q') (queue : ∀ r ∈ q.queue, r ∈
    q'.queue ∨ ((q.reqs r).issuedToMemory = true → done (q.reqs r).inst))
    (slots : ∀ r ∈ q'.slots, r ∈ q.slots ∨ done (q'.reqs r).inst ∧ r < q'.nextReq) (sent : ∀ r k,
    MemEvent.sent r k ∈ q'.trace → MemEvent.sent r k ∈ q.trace ∨ q'.Sent done entered r) (buffered :
    ∀ r, MemEvent.buffered r ∈ q'.trace → MemEvent.buffered r ∈ q.trace ∨ r ∈ q'.slots) :
    q'.Fates done entered := by
  have old : ∀ r, done (q.reqs r).inst ∧ r < q.nextReq →
      done (q'.reqs r).inst ∧ r < q'.nextReq := by
    rintro r ⟨finished, known⟩
    rw [(grows.keeps r known).inst]
    exact ⟨finished, Nat.lt_of_lt_of_le known grows.next⟩
  have stored : ∀ r ∈ q'.slots, done (q'.reqs r).inst ∧ r < q'.nextReq := by
    intro r inside
    rcases slots r inside with inside | new
    · exact old r (fates.slots r inside)
    · exact new
  refine ⟨?_, ?_, stored⟩
  · intro r k event
    rcases sent r k event with event | new
    · have before := fates.sent r k event
      exact before.keep grows (queue r)
    · exact new
  · intro r event
    rcases buffered r event with event | inside
    · exact old r (fates.buffered r event)
    · exact stored r inside

theorem Fates.mono {done' entered' : InstId → Prop} (fates : q.Fates done entered)
    (more : ∀ i, done i → done' i) (still : ∀ r, r < q.nextReq → (q.reqs r).bufferable = false →
    entered (q.reqs r).inst → entered' (q.reqs r).inst) : q.Fates done' entered'  where
  sent r k event := by
    have before := fates.sent r k event
    refine ⟨before.known, before.translated, fun h => still r before.known h (before.entered h), ?_⟩
    exact before.fate.imp_left (more _)
  buffered r event := (fates.buffered r event).imp_left (more _)
  slots r inside := (fates.slots r inside).imp_left (more _)

/-- What an act adds to the trace: nothing, or the packet of one request. -/
inductive Sends (q q' : Lsq) : Prop where
  | none (trace : q'.trace = q.trace)
  | one {r : ReqId} (trace : q'.trace = q.trace ++ [.sent r (q.reqs r).numIssued])
      (ipr : (q.reqs r).flags.mmappedIpr = false) (translated : (q.reqs r).state ≠ .inTranslation)
      (place : r ∈ q.requests ∧ (q.reqs r).Direct ∨ r ∈ q.slots)

theorem Act.sends (act : Act prm view allow q q') (placed : q.Placed) : Sends q q' := by
  cases act with
  | @send r s turn free ipr state =>
    refine .one rfl ipr ?_ ?_
    · intro h
      simp [issuingState, h] at state
    · rcases turn.direct with ⟨front, direct⟩ | inside
      · exact .inl ⟨mem_requests front.front, direct⟩
      · exact .inr inside
  | @resend r s t retried free ipr state =>
    obtain ⟨toFront, toSlot⟩ := placed.retry retried.needs r retried.request
    refine .one ?_ ipr ?_ ?_
    · simp [sendPacket, Lsq.resume, setState, update]
    · intro h
      have before := retried.state
      simp [h] at before
    · rcases retried.state with ⟨before, -⟩ | ⟨before, -⟩
      · have inside := mem_requests (toFront before)
        exact .inl ⟨inside, (placed.requests r inside).direct (.inr before)⟩
      · exact .inr (toSlot before)
  | clearBarrier =>
    refine .none ?_
    simp only [clearMemBarrier]
    split <;> rfl
  | translate | skip | toBuffer | forward | skipAccess | claim | ipr | refuse | advance
  | resume | tally | fail => exact .none rfl

theorem Act.slots (act : Act prm view allow q q') : q'.slots ⊆ q.slots := by
  cases act with
  | clearBarrier slots =>
    have same : ∀ p : Lsq, ∀ i, (p.clearMemBarrier i).slots = p.slots := by grind [clearMemBarrier]
    rw [same, slots]
    exact subset_cons_self _ _
  | translate | skip | toBuffer | forward | skipAccess | claim | send | ipr | refuse | advance
  | resume | resend | tally | fail => exact List.Subset.refl _

theorem Act.nextReq (act : Act prm view allow q q') : q'.nextReq = q.nextReq := by
  cases act with
  | clearBarrier =>
    simp only [clearMemBarrier]
    split <;> rfl
  | translate | skip | toBuffer | forward | skipAccess | claim | send | ipr | refuse | advance
  | resume | resend | tally | fail => rfl

theorem Act.grows (act : Act prm view allow q q') (placed : q.Placed) : Grows q q' := by
  refine ⟨Nat.le_of_eq act.nextReq.symm, fun t _ => act.keeps t, ?_⟩
  cases act.sends placed with
  | none trace => exact trace ▸ List.Subset.refl _
  | one trace => exact trace ▸ subset_append_left _ _

theorem Act.fates (act : Act prm view allow q q') (placed : q.Placed)
    (inside : ∀ r ∈ q.queue, entered (q.reqs r).inst) (fates : q.Fates done entered) :
    q'.Fates done entered := by
  have grows := act.grows placed
  refine fates.keep grows (fun r here => .inl (act.queue ▸ here))
    (fun r here => .inl (act.slots here)) ?_ ?_
  · intro r k event
    cases act.sends placed with
    | none trace => exact .inl (trace ▸ event)
    | @one s trace ipr translated place =>
      rw [trace, mem_append, List.mem_singleton] at event
      rcases event with event | new
      · exact .inl event
      · obtain ⟨rfl, -⟩ : r = s ∧ k = (q.reqs s).numIssued := by simpa using new
        right
        suffices before : q.Sent done entered r from
          before.keep grows fun here => .inl (act.queue ▸ here)
        rcases place with ⟨waiting, direct⟩ | slot
        · have queued : r ∈ q.queue := mem_append_right _ waiting
          refine ⟨placed.known r (mem_append_left _ queued), translated,
            fun _ => inside r queued, ?_⟩
          rcases direct with flag | load | ⟨-, issued⟩
          · rw [ipr] at flag
            contradiction
          · exact .inr (.inr load)
          · exact .inr (.inl ⟨queued, issued⟩)
        · have buffered := (placed.slots r slot).bufferable
          refine ⟨(fates.slots r slot).2, translated, fun h => ?_, .inl (fates.slots r slot).1⟩
          rw [buffered] at h
          contradiction
  · intro r event
    cases act.sends placed with
    | none trace => exact .inl (trace ▸ event)
    | one trace => exact .inl (by simpa [trace] using event)

theorem Acts.fates (acts : Acts prm view allow q q') (placed : q.Placed)
    (inside : ∀ r ∈ q.queue, entered (q.reqs r).inst) (fates : q.Fates done entered) :
    q'.Fates done entered := by
  suffices all : q'.Placed ∧ (∀ r ∈ q'.queue, entered (q'.reqs r).inst) ∧ q'.Fates done entered
    from all.2.2
  induction acts with
  | refl => exact ⟨placed, inside, fates⟩
  | tail _ act ih =>
    obtain ⟨placed, inside, fates⟩ := ih
    refine ⟨act.placed placed, fun r here => ?_, act.fates placed inside fates⟩
    rw [(act.keeps r).inst]
    exact inside r (act.queue ▸ here)

theorem keeps_retireResponse (x : LsqRequest) (k : Nat) (bytes : Nat → Byte) :
    Keeps x (x.retireResponse k bytes) := by
  obtain ⟨-, -, flags, issued, after⟩ := x.retireResponse_same k bytes
  refine ⟨label_retireResponse x k bytes, fun h => issued.trans h, fun translated => ⟨?_, flags⟩⟩
  rcases after with h | h
  · rw [h]
    nofun
  · rw [h]
    exact translated

theorem Received.grows {p : Packet} {left : List Packet} (received : Received q p left q') :
    Grows q q' := by
  cases received with
  | failed => exact ⟨Nat.le_refl _, fun _ _ => .refl _, subset_append_left _ _⟩
  | retired =>
    exact ⟨Nat.le_refl _,
      fun t _ => keeps_of_update (q := q) rfl (keeps_retireResponse _ p.frag p.bytes) t,
      subset_append_left _ _⟩

theorem Received.fates {p : Packet} {left : List Packet} (received : Received q p left q')
    (fates : q.Fates done entered) : q'.Fates done entered := by
  have grows := received.grows
  cases received with
  | failed =>
    refine fates.keep grows (fun _ here => .inl here) (fun _ here => .inl here) ?_ ?_
    · exact fun r k event => .inl (by simpa using event)
    · exact fun r event => .inl (by simpa using event)
  | retired state slots erased =>
    have sub : slots ⊆ q.slots := by grind
    refine fates.keep grows (fun _ here => .inl here) (fun _ here => .inl (sub here)) ?_ ?_
    · exact fun r k event => .inl (by simpa using event)
    · exact fun r event => .inl (by simpa using event)

theorem perform_shape (q : Lsq) (k : Nat) (bytes : Nat → Byte) :
    (q.perform k bytes).nextReq = q.nextReq ∧ (q.perform k bytes).reqs = q.reqs
      ∧ (q.perform k bytes).queue = q.queue ∧ (q.perform k bytes).slots = q.slots
      ∧ ∃ more, (q.perform k bytes).trace = q.trace ++ more
        ∧ (∀ r j, MemEvent.sent r j ∉ more) ∧ ∀ r, MemEvent.buffered r ∉ more := by
  have nothing : ∃ more, q.trace = q.trace ++ more
      ∧ (∀ r j, MemEvent.sent r j ∉ more) ∧ ∀ r, MemEvent.buffered r ∉ more :=
    ⟨[], by simp⟩
  rw [perform]
  split
  · exact ⟨rfl, rfl, rfl, rfl, nothing⟩
  · split
    · exact ⟨rfl, rfl, rfl, rfl, nothing⟩
    · aesop

theorem grows_perform (q : Lsq) (k : Nat) (bytes : Nat → Byte) : Grows q (q.perform k bytes) := by
  obtain ⟨next, reqs, -, -, more, trace, -⟩ := perform_shape q k bytes
  refine ⟨Nat.le_of_eq next.symm, fun t _ => ?_, trace ▸ subset_append_left _ _⟩
  rw [reqs]
  exact .refl _

theorem perform_fates (k : Nat) (bytes : Nat → Byte) (fates : q.Fates done entered) :
    (q.perform k bytes).Fates done entered := by
  obtain ⟨-, -, queue, slots, more, trace, noSent, noBuffered⟩ := perform_shape q k bytes
  refine fates.keep (grows_perform q k bytes) (fun _ here => .inl (queue ▸ here))
    (fun _ here => .inl (slots ▸ here)) ?_ ?_
  · grind
  · grind

theorem keeps_create (x : LsqRequest) {t : ReqId} (known : t < q.nextReq) :
    Keeps (q.reqs t) ((q.create x).reqs t) := by
  have other : (q.create x).reqs t = q.reqs t := update_of_ne (Nat.ne_of_lt known) ..
  rw [other]
  exact .refl _

theorem grows_create (q : Lsq) (x : LsqRequest) : Grows q (q.create x) :=
  ⟨Nat.le_succ _, fun _ known => keeps_create x known, List.Subset.refl _⟩

theorem grows_pushed {inst : InstId} {barrier : Bool} (pushed : Pushed cfg q inst barrier q') :
    Grows q q' := by
  cases pushed with
  | failed | access =>
    exact ⟨Nat.le_succ _, fun _ known => keeps_create _ known, List.Subset.refl _⟩

theorem pushed_fates {inst : InstId} {barrier : Bool} (pushed : Pushed cfg q inst barrier q')
    (fates : q.Fates done entered) : q'.Fates done entered := by
  have grows := grows_pushed pushed
  have queue : ∀ r ∈ q.queue, r ∈ q.transfers ++ (q.requests ++ [q.nextReq]) := by
    intro r here
    rw [← List.append_assoc]
    exact mem_append_left _ here
  cases pushed with
  | failed | access =>
    exact fates.keep grows (fun r here => .inl (queue r here)) (fun _ here => .inl here)
      (fun _ _ event => .inl event) fun _ event => .inl event

theorem grows_popResponse (q : Lsq) (r : ReqId) : Grows q (q.popResponse r) :=
  ⟨Nat.le_refl _, fun _ _ => .refl _, List.Subset.refl _⟩

theorem popResponse_fates {r : ReqId} (front : q.transfers.head? = some r)
    (finished : (q.reqs r).issuedToMemory = true → done (q.reqs r).inst)
    (fates : q.Fates done entered) : (q.popResponse r).Fates done entered := by
  obtain ⟨rest, transfers⟩ := List.head?_eq_some_iff.mp front
  refine fates.keep (grows_popResponse q r) (fun t here => ?_) (fun _ here => .inl here)
    (fun _ _ event => .inl event) fun _ event => .inl event
  rw [queue, transfers] at here
  rcases List.mem_cons.mp here with rfl | later
  · exact .inr finished
  · left
    simpa [queue, popResponse, transfers] using later

theorem grows_insert (q : Lsq) (r : ReqId) : Grows q (q.insert r) := by
  refine ⟨Nat.le_refl _, fun t _ => ?_, subset_append_left _ _⟩
  refine keeps_of_update rfl ⟨?_, ?_, fun _ => ⟨?_, ?_⟩⟩ t
  · rfl
  · exact id
  · dsimp only
    split <;> nofun
  · rfl

theorem insert_fates {r : ReqId} (known : r < q.nextReq) (finished : done (q.reqs r).inst)
    (fates : q.Fates done entered) : (q.insert r).Fates done entered := by
  refine fates.keep (grows_insert q r) (fun _ here => .inl here) ?_ ?_ ?_
  · intro t here
    rcases List.mem_append.mp here with old | new
    · exact .inl old
    · rw [List.mem_singleton.mp new]
      refine .inr ⟨?_, known⟩
      simpa [insert] using finished
  · exact fun t k event => .inl (by simpa [insert] using event)
  · intro t event
    rcases List.mem_append.mp event with old | new
    · exact .inl old
    · right
      obtain rfl : t = r := by simpa using new
      exact mem_append_right _ List.mem_cons_self

theorem handled_fates {head : InstId} {r : ReqId} {stored : Bool} (placed : q.Placed)
    (response : q.findResponse prm head = some r) (handled : Handled q r stored q')
    (finished : done head) (fates : q.Fates done entered) : q'.Fates done entered := by
  obtain ⟨front, own, -⟩ := findResponse_cases response
  have inside : r ∈ q.transfers := List.mem_of_head? front
  have known := placed.known r (mem_append_left _ (mem_append_left _ inside))
  rw [← own] at finished
  cases handled with
  | plain => exact popResponse_fates front (fun _ => finished) fates
  | stored =>
    refine popResponse_fates (q := q.insert r) front (fun _ => ?_) (insert_fates known finished fates)
    simpa [insert] using finished

theorem grows_barrier (q : Lsq) (last : Nat → Nat) :
    Grows q ({ q with lastMemBarrier := last } : Lsq) :=
  ⟨Nat.le_refl _, fun _ _ => .refl _, List.Subset.refl _⟩

theorem barrier_fates (last : Nat → Nat) (fates : q.Fates done entered) :
    ({ q with lastMemBarrier := last } : Lsq).Fates done entered :=
  fates.keep (grows_barrier q last) (fun _ here => .inl here) (fun _ here => .inl here)
    (fun _ _ event => .inl event) fun _ event => .inl event

theorem completeMemBarrierInst_fates {inst : InstId} {inStoreBuffer committed : Bool}
    (finished : committed = true → done inst) (fates : q.Fates done entered) :
    (q.completeMemBarrierInst inst inStoreBuffer committed).Fates done entered := by
  rw [completeMemBarrierInst]
  split
  next commits =>
    split
    · exact fates
    · have created : (q.create (barrierRequest inst)).Fates done entered :=
        fates.keep (grows_create q _) (fun _ here => .inl here) (fun _ here => .inl here)
          (fun _ _ event => .inl event) fun _ event => .inl event
      refine insert_fates (Nat.lt_succ_self _) ?_ created
      simpa [create, barrierRequest] using finished commits
  next => grind [clearMemBarrier, barrier_fates]

theorem Step.grows (step : Step cfg view allow q q') (placed : q.Placed) : Grows q q' := by
  cases step with
  | act act => exact act.grows placed
  | perform k bytes => exact grows_perform q k bytes
  | receive found performed => exact (recvTimingResp_received found).grows
  | push pushed => exact grows_pushed pushed
  | pop => exact grows_popResponse q _
  | buffer => exact (grows_insert q _).trans (grows_popResponse _ _)
  | barrier last => exact grows_barrier q last
  | insertBarrier => exact (grows_create q _).trans (grows_insert _ _)

theorem Steps.grows (steps : Steps cfg view allow q q') (placed : q.Placed) : Grows q q' := by
  suffices both : q'.Placed ∧ Grows q q' from both.2
  induction steps with
  | refl => exact ⟨placed, .refl q⟩
  | tail _ step ih => exact ⟨step.placed ih.1, ih.2.trans (step.grows ih.1)⟩

end Lsq

theorem Move.grows {cfg : Config} {o : Execute} {e : Execute.Event} {c c' : Core}
    (move : Move cfg o e c c') (placed : c.lsq.Placed) : Lsq.Grows c.lsq c'.lsq :=
  Lsq.Steps.grows (move.lsq placed.retry (c.permits_true cfg e)) placed

end Gem5.Minor
