import Gem5.Minor.StoreLedger

/-!
# The counters of the store buffer are exact

Each call keeps the accounts, as long as no error response cuts a split store short.
-/

namespace Gem5.Minor

open List Function Bool

namespace Lsq

variable {prm : LsqParams} {view : View} {q q' : Lsq} {r : ReqId}

theorem queue_move (q : Lsq) (r : ReqId) :
    ∀ t ∈ (q.moveFromRequestsToTransfers r).queue, t ∈ q.queue ∨ t = r := by
  intro t mem
  simp only [queue, moveFromRequestsToTransfers, mem_append, List.mem_singleton] at mem
  rcases mem with (before | own) | behind
  · exact .inl (mem_append_left _ before)
  · exact .inr own
  · exact .inl (mem_append_right _ (mem_of_mem_tail behind))

theorem aside_move (q : Lsq) (r : ReqId) : q.Aside r (q.moveFromRequestsToTransfers r) :=
  ⟨rfl, rfl, fun _ _ => rfl, id, queue_move q r, Nat.le_refl _, rfl,
    ⟨[], (append_nil _).symm, nofun⟩, fun _ _ => rfl,
    fun _ needs own => .inr ⟨needs, own⟩, id⟩

theorem aside_update {f : LsqRequest → LsqRequest}
    (calm : (f (q.reqs r)).InBuffer → (q.reqs r).InBuffer) : q.Aside r (q.update r f) where
  slots := rfl
  unissued := rfl
  others := fun t other => by simp [update, other]
  calm := fun away busy => away (calm (by simpa using busy))
  queue := fun _ => .inl
  nextReq := Nat.le_refl _
  inserted := rfl
  accepted := ⟨[], (append_nil _).symm, nofun⟩
  inMemory := fun _ _ => rfl
  retry := fun _ needs own => .inr ⟨needs, own⟩
  panicked := id

theorem aside_fail (q : Lsq) (r : ReqId) : q.Aside r q.fail :=
  ⟨rfl, rfl, fun _ _ => rfl, id, fun _ => .inl, Nat.le_refl _, rfl,
    ⟨[], (append_nil _).symm, nofun⟩, fun _ _ => rfl, fun _ needs own => .inr ⟨needs, own⟩,
    fun _ => rfl⟩

theorem aside_skip (q : Lsq) (r : ReqId) : q.Aside r (q.skipToTransfers r) :=
  (aside_update (by simp [LsqRequest.InBuffer])).trans (aside_move _ r)

theorem aside_skipAccess (q : Lsq) (r : ReqId) : q.Aside r (q.skipAccess r) :=
  (aside_update (by simp [LsqRequest.InBuffer])).trans (aside_move _ r)

theorem inserted_send (q : Lsq) (r : ReqId) (s : ReqState) :
    (q.sendPacket r s).inserted = q.inserted := by
  simp [inserted, sendPacket]

theorem countP_send (q : Lsq) (s : ReqState) (t : ReqId) :
    (q.sendPacket r s).inMemory.countP (·.req == t)
      = q.inMemory.countP (·.req == t) + if r = t then 1 else 0 := by
  simp [sendPacket]

theorem aside_tryToSend (port : Port) (away : ¬(q.reqs r).InBuffer) :
    q.Aside r (q.tryToSend prm port r).1 := by
  have ends := tryToSend_ends prm port q r
  generalize q.tryToSend prm port r = d at ends
  cases ends with
  | busy => exact .refl q r
  | ipr =>
    refine aside_update fun busy => ?_
    rcases (q.reqs r).stepIpr_state with h | h <;> simp [LsqRequest.InBuffer, h] at busy
  | @sent s free ipr state =>
    have after : s = .requestIssuing := by
      cases h : (q.reqs r).state <;> simp [LsqRequest.InBuffer, h] at away <;>
        simp [issuingState, h] at state
      · exact state.symm
      · exact state.symm
    subst after
    refine ⟨rfl, rfl, ?_, ?_, fun _ => .inl, Nat.le_refl _, inserted_send .., ?_, ?_, ?_, id⟩
    · intro t other
      simp [sendPacket, update, other]
    · simp [LsqRequest.InBuffer]
    · exact ⟨_, accepted_send .., fun e mem => by rw [List.mem_singleton.mp mem]⟩
    · intro t other
      rw [countP_send, if_neg (Ne.symm other), Nat.add_zero]
    · exact fun _ needs own => .inr ⟨needs, own⟩
  | failed => exact aside_fail q r
  | @refused s ipr state =>
    have after : s = .requestNeedsRetry := by
      cases h : (q.reqs r).state <;> simp [LsqRequest.InBuffer, h] at away <;>
        simp [retryState, h] at state
      · exact state.symm
      · exact state.symm
    subst after
    refine ⟨rfl, rfl, ?_, ?_, fun _ => .inl, Nat.le_refl _, rfl, ?_, fun _ _ => rfl, ?_, id⟩
    · intro t other
      simp [setState, update, other]
    · simp [LsqRequest.InBuffer, setState]
    · exact ⟨[], (append_nil _).symm, by simp⟩
    · exact fun t _ own => .inl (Option.some.inj own).symm

theorem aside_sendFront (port : Port) (away : ¬(q.reqs r).InBuffer) :
    q.Aside r (if (q.tryToSend prm port r).2 then
      (q.tryToSend prm port r).1.moveFromRequestsToTransfers r else (q.tryToSend prm port r).1) :=
  .ite ((aside_tryToSend port away).trans (aside_move _ r)) (aside_tryToSend port away)

theorem aside_claimed (q : Lsq) (r : ReqId) : q.Aside r (q.claimed r) :=
  ⟨rfl, rfl, fun t other => by simp [claimed, update, other],
    fun away => by simpa [claimed, LsqRequest.InBuffer] using away, fun _ => .inl,
    Nat.le_refl _, rfl, ⟨[], (append_nil _).symm, nofun⟩, fun _ _ => rfl,
    fun _ needs own => .inr ⟨needs, own⟩, id⟩

theorem aside_access (port : Port) (away : ¬(q.reqs r).InBuffer) :
    q.Aside r (q.access prm port r) := by
  refine .ite ?_ (.refl q r)
  split
  · have claim := aside_claimed q r
    exact claim.trans (aside_sendFront port (claim.calm away))
  · exact aside_sendFront port away

theorem aside_issueRequest (port : Port) (away : ¬(q.reqs r).InBuffer) :
    q.Aside r (q.issueRequest prm view port r) := by
  have access : q.Aside r (q.access prm port r) := aside_access port away
  refine .ite (.refl q r) (.ite (.refl q r) (.ite ?_ (.ite ?_ access)))
  · exact .ite (.ite access (aside_skipAccess q r)) (.refl q r)
  · split
    next s found =>
      have forward : q.Aside r (q.forwardStoreData r s) := by
        rw [forwardStoreData]
        exact aside_update fun busy => busy
      exact .ite (forward.trans (aside_skipAccess _ r)) (.refl q r)
    next => exact access

theorem aside_tryToSendToTransfers (port : Port) (away : ¬(q.reqs r).InBuffer) :
    q.Aside r (q.tryToSendToTransfers prm view port r) := by
  have issue : q.Aside r (q.issueRequest prm view port r) := aside_issueRequest port away
  have toBuffer : q.Aside r (q.setState r .storeToStoreBuffer) :=
    aside_update (by simp [LsqRequest.InBuffer])
  refine .ite (.refl q r) (.ite (.refl q r) (.ite (aside_fail q r) (.ite (.refl q r)
    (.ite (.refl q r) (.ite (aside_skip q r) (.ite ?_ (.ite (aside_skip q r) (.ite ?_ ?_))))))))
  · exact .ite (.refl q r) (aside_skip q r)
  · exact .ite (.refl q r) issue
  · exact .ite (toBuffer.trans (aside_move _ r)) issue

theorem owes_of_more {x : LsqRequest} (more : x.sentAllPackets = false) : x.owes = true := by
  rw [LsqRequest.owes, more, Bool.not_false, Bool.or_true]

theorem Ledger.unissued_pos (ledger : q.Ledger) (mem : r ∈ q.slots)
    (owes : (q.reqs r).owes = true) : 0 < q.numUnissuedAccesses := by grind [ledger.unissued]

theorem Ledger.not_done (ledger : q.Ledger) (mem : r ∈ q.slots)
    (more : (q.reqs r).sentAllPackets = false) :
    (q.reqs r).numIssued < (q.reqs r).fragments.length := by
  have slot := ledger.slot r mem
  refine Nat.lt_of_le_of_ne slot.issued fun all => ?_
  rw [← slot.sentAllPackets_iff, more] at all
  cases all

theorem Ledger.sendSlot {n : Nat} (ledger : q.Ledger) (base : q.Base prm) (mem : r ∈ q.slots)
    (first : q.First r) (more : (q.reqs r).sentAllPackets = false) (calm : q.needsRetry = false)
    (unissued : n + 1 = q.numUnissuedAccesses
      + ((q.sendPacket r .storeBufferIssuing).reqs r).owes.toNat) :
    { q.sendPacket r .storeBufferIssuing with numUnissuedAccesses := n }.Ledger := by
  have slot := ledger.slot r mem
  have below := ledger.not_done mem more
  rw [sendPacket_reqs_self] at unissued
  refine ledger.changeSlot base ⟨mem, rfl, rfl, rfl, rfl,
    inserted_send q r .storeBufferIssuing, ?_, ?_, ?_, ?_, ?_, ?_, id, ?_⟩
  · exact ⟨slot.form, below, by simp⟩
  · rw [owes_of_more more]
    exact unissued
  · exact .next (accepted_send q r .storeBufferIssuing) rfl first more
  · rw [more]
    exact nofun
  · intro alive
    rw [countP_send, if_pos rfl, ← Nat.add_assoc]
    exact congrArg (· + 1) (ledger.flight alive r mem)
  · intro t other
    rw [countP_send, if_neg (Ne.symm other), Nat.add_zero]
  · intro waits
    rw [show q.needsRetry = true from waits] at calm
    cases calm

theorem Ledger.sendCounted (ledger : q.Ledger) (base : q.Base prm) (mem : r ∈ q.slots)
    (first : q.First r) (more : (q.reqs r).sentAllPackets = false) (calm : q.needsRetry = false) :
    (if (q.reqs r).stepToNextPacket.sentAllPackets then
      (q.sendPacket r .storeBufferIssuing).countIssuedStore r
    else q.sendPacket r .storeBufferIssuing).Ledger := by
  have pos := ledger.unissued_pos mem (owes_of_more more)
  have all : ((q.sendPacket r .storeBufferIssuing).reqs r).sentAllPackets
      = (q.reqs r).stepToNextPacket.sentAllPackets := by
    rw [sendPacket_reqs_self, sentAllPackets_state]
  split
  next last =>
    rw [countIssuedStore]
    split
    next isBarrier =>
      refine ledger.sendSlot base mem first more calm ?_
      rw [LsqRequest.owes, isBarrier]
      rfl
    next plain =>
      refine ledger.sendSlot base mem first more calm ?_
      rw [LsqRequest.owes, all, last, eq_false_of_not_eq_true plain]
      change dec q.numUnissuedAccesses + 1 = q.numUnissuedAccesses
      rw [dec_eq pos]
      omega
  next unfinished =>
    refine ledger.sendSlot base mem first more calm ?_
    rw [owes_of_more (all.trans (eq_false_of_not_eq_true unfinished))]
    rfl

theorem Ledger.waitSlot {s : ReqState} {needs : Bool} {retryRequest : Option ReqId}
    (ledger : q.Ledger) (base : q.Base prm) (mem : r ∈ q.slots) (first : q.First r)
    (more : (q.reqs r).sentAllPackets = false)
    (own : needs = true → retryRequest = some r) :
    { q.setState r s with needsRetry := needs, retryRequest := retryRequest }.Ledger := by
  have slot := ledger.slot r mem
  have below := ledger.not_done mem more
  refine ledger.changeSlot (y := { q.reqs r with state := s }) base ⟨mem, rfl, rfl, rfl, rfl, rfl,
    ⟨slot.form, slot.issued, fun _ => below⟩, ?_, .none rfl rfl, ?_, ?_, fun _ _ => rfl, id, ?_⟩
  · aesop
  · rw [sentAllPackets_state]
    exact id
  · exact fun alive => ledger.flight alive r mem
  · grind

theorem Ledger.fail (ledger : q.Ledger) : q.fail.Ledger :=
  ledger.drop (List.Sublist.refl _) rfl (List.Subset.refl _) rfl rfl rfl nofun ledger.unissued
    (fun _ => .inl) fun needs _ own => ⟨needs, own⟩

theorem Ledger.trySlot (ledger : q.Ledger) (base : q.Base prm) (port : Port) (mem : r ∈ q.slots)
    (first : q.First r)
    (guard : ¬((q.reqs r).state = .storeBufferIssuing ∧ (q.reqs r).sentAllPackets = true)) :
    (if (q.tryToSend prm port r).2 then (q.tryToSend prm port r).1.countIssuedStore r
      else (q.tryToSend prm port r).1).Ledger := by
  have buffered := base.placed.slots r mem
  have slot := ledger.slot r mem
  have more : (q.reqs r).state = .storeInStoreBuffer ∨ (q.reqs r).state = .storeBufferIssuing →
      (q.reqs r).sentAllPackets = false := by
    rintro (waits | issuing)
    · refine eq_false_of_not_eq_true fun all => ?_
      have below := slot.unsent (.inl waits)
      rw [slot.sentAllPackets_iff] at all
      omega
    · exact eq_false_of_not_eq_true fun all => guard ⟨issuing, all⟩
  have ends := tryToSend_ends prm port q r
  generalize q.tryToSend prm port r = d at ends
  cases ends with
  | busy => exact ledger
  | ipr flag => exact absurd (buffered.ipr.symm.trans flag) Bool.false_ne_true
  | @sent s free ipr state =>
    have before : (q.reqs r).state = .storeInStoreBuffer
        ∨ (q.reqs r).state = .storeBufferIssuing := by
      rcases buffered.state with h | h | h | h <;> simp [issuingState, h] at state ⊢
    have after : s = .storeBufferIssuing := by
      rcases before with h | h <;> simpa [issuingState, h] using state.symm
    subst after
    exact ledger.sendCounted base mem first (more before) (calm_of_free free)
  | failed => exact ledger.fail
  | @refused s ipr state =>
    have before : (q.reqs r).state = .storeInStoreBuffer
        ∨ (q.reqs r).state = .storeBufferIssuing := by
      rcases buffered.state with h | h | h | h <;> simp [retryState, h] at state ⊢
    exact ledger.waitSlot base mem first (more before) fun _ => rfl

theorem Ledger.first (ledger : q.Ledger) {before after : List ReqId}
    (split : q.slots = before ++ r :: after)
    (sent : ∀ t ∈ before, (q.reqs t).sentAllPackets = true) : q.First r := by
  intro t mem earlier
  have ranks := ledger.ranks
  rw [split] at mem ranks
  rcases List.mem_append.mp mem with there | behind
  · exact sent t there
  · have ordered := (List.pairwise_cons.mp (List.pairwise_append.mp ranks).2.1).1
    rcases List.mem_cons.mp behind with rfl | later
    · exact absurd earlier (Nat.lt_irrefl _)
    · exact absurd earlier (Nat.lt_asymm (ordered t later))

theorem Ledger.issueSlots (ledger : q.Ledger) (base : q.Base prm) (before : List ReqId)
    {slots : List ReqId} {count : Nat} {ports : List Port} (split_ : q.slots = before ++ slots)
    (sent : ∀ t ∈ before, (q.reqs t).sentAllPackets = true) :
    (q.issueSlots prm slots count ports).Ledger := by
  induction slots generalizing q before count ports with
  | nil =>
    exact ledger
  | cons s rest ih =>
    rw [Lsq.issueSlots]
    split
    · dsimp only
      split
      · exact ledger
      split
      next done =>
        simp only [and_eq_true] at done
        refine ih ledger base (before ++ [s]) (by simpa using split_) fun t earlier => ?_
        rw [mem_append, List.mem_singleton] at earlier
        rcases earlier with old | rfl
        · exact sent t old
        · exact done.2
      next guard =>
        simp only [and_eq_true, decide_eq_true_eq] at guard
        have mem : s ∈ q.slots := split_ ▸ mem_append_right _ List.mem_cons_self
        have tried := ledger.trySlot base (ports.headD {}) mem (ledger.first split_ sent) guard
        have acts : Acts prm ⟨fun _ => true, fun _ => true⟩ (fun _ => True) q
            (q.tryToSend prm (ports.headD {}) s).1 :=
          tryToSend_acts (ports.headD {}) (.slot ⟨before, rest, split_, sent⟩)
        split
        next last =>
          rw [if_pos last] at tried
          obtain ⟨-, slots, -, all, -⟩ := tryToSend_last last
          obtain ⟨counted, same, -⟩ :=
            countIssuedStore_same (q.tryToSend prm (ports.headD {}) s).1 s
          refine ih tried (Acts.base (acts.trans countIssuedStore_acts) base) (before ++ [s]) ?_ ?_
          · grind
          · intro t earlier
            rw [same]
            by_cases own : t = s
            · rw [own]
              exact all
            · grind [tryToSend_reqs_of_ne]
        next other => grind
    · exact ledger

theorem owes_of_barrier {x : LsqRequest} (barrier : x.isBarrier = true) : x.owes = true := by
  rw [LsqRequest.owes, barrier, Bool.true_or]

theorem Ledger.clearBarrier (ledger : q.Ledger) {rest : List ReqId} (slots : q.slots = r :: rest)
    (complete : (q.reqs r).isComplete = true) (barrier : (q.reqs r).isBarrier = true) :
    { ({ q with numUnissuedAccesses := dec q.numUnissuedAccesses }.clearMemBarrier
        (q.reqs r).inst) with slots := rest }.Ledger := by
  have unissued := ledger.unissued
  rw [slots, List.countP_cons, if_pos (owes_of_barrier barrier)] at unissued
  have left : dec q.numUnissuedAccesses = rest.countP fun t => (q.reqs t).owes := by aesop
  have gone : ∀ t ∈ q.slots, t ∈ rest ∨ (q.reqs t).state = .complete := by
    intro t there
    rw [slots, List.mem_cons] at there
    rcases there with rfl | there
    · exact .inr (beq_iff_eq.mp complete)
    · exact .inl there
  have sub : rest.Sublist q.slots := slots ▸ sublist_cons_self _ _
  rw [clearMemBarrier]
  split
  · exact ledger.drop sub rfl (List.Subset.refl _) rfl rfl rfl (fun alive => ⟨alive, fun _ => rfl⟩)
      left gone fun needs _ own => ⟨needs, own⟩
  · exact ledger.drop sub rfl (List.Subset.refl _) rfl rfl rfl (fun alive => ⟨alive, fun _ => rfl⟩)
      left gone fun needs _ own => ⟨needs, own⟩

theorem Ledger.clearBarriers (ledger : q.Ledger) {slots : List ReqId} (same : q.slots = slots) :
    (q.clearBarriers slots).Ledger := by
  induction slots generalizing q with
  | nil =>
    have stays : { q with slots := [] } = q := by rw [← same]
    rw [Lsq.clearBarriers, stays]
    exact ledger
  | cons s rest ih =>
    rw [Lsq.clearBarriers]
    split
    next clears =>
      simp only [and_eq_true] at clears
      rw [← clearBarriers_slots _ rest rest]
      exact ih (ledger.clearBarrier same clears.1 clears.2) rfl
    next =>
      have stays : { q with slots := s :: rest } = q := by rw [← same]
      rw [stays]
      exact ledger

theorem Ledger.stepStoreBuffer (ledger : q.Ledger) (base : q.Base prm) (ports : List Port) :
    (q.stepStoreBuffer prm ports).Ledger := by
  rw [Lsq.stepStoreBuffer]
  split
  · have acts : Acts prm ⟨fun _ => true, fun _ => true⟩ (fun _ => True) q
        (q.clearBarriers q.slots) := clearBarriers_acts q.slots rfl
    exact (ledger.clearBarriers rfl).issueSlots (acts.base base) [] rfl (by simp)
  · exact ledger

theorem Ledger.outside (ledger : q.Ledger) (mem : r ∈ q.queue) : r ∉ q.slots ∧ r ∉ q.inserted := by
  have fresh : r ∉ q.inserted := fun there => (ledger.known r there).2 mem
  exact ⟨fun slot => fresh (ledger.slots r slot), fresh⟩

theorem Ledger.away (ledger : q.Ledger) (base : q.Base prm) (calm : ¬(q.reqs r).InBuffer)
    (open_ : (q.reqs r).state ≠ .complete) : r ∉ q.slots ∧ r ∉ q.inserted := by
  have outside : r ∉ q.slots := by
    intro mem
    rcases (base.placed.slots r mem).state with h | h | h | h
    · exact calm (.inl h)
    · exact calm (.inr (.inl h))
    · exact calm (.inr (.inr h))
    · exact open_ h
  exact ⟨outside, fun there => (ledger.done r there).elim outside open_⟩

theorem Ledger.finish (ledger : q.Ledger) (base : q.Base prm) (port : Port) (a : Translation)
    (state : (q.reqs r).state = .inTranslation) : (q.finish prm view port r a).Ledger := by
  obtain ⟨outside, fresh⟩ := ledger.away base (r := r) (by simp [LsqRequest.InBuffer, state])
    (by simp [state])
  refine ledger.aside outside fresh ?_
  have translated : q.Aside r (q.update r (·.translate a)) := by
    refine aside_update fun busy => ?_
    rcases (q.reqs r).translate_state a state with h | h <;> simp [LsqRequest.InBuffer, h] at busy
  refine .ite (translated.trans (aside_tryToSendToTransfers port ?_)) translated
  exact translated.calm fun busy => outside (ledger.belongs r busy)

theorem Ledger.step (ledger : q.Ledger) (base : q.Base prm) (port : Port) (ports : List Port) :
    (q.step prm view port ports).Ledger := by
  rw [Lsq.step]
  cases requests : q.requests with
  | nil => exact ledger.stepStoreBuffer base ports
  | cons r rest =>
    have mem : r ∈ q.queue := by simp [queue, requests]
    obtain ⟨outside, fresh⟩ := ledger.outside mem
    have acts : Acts prm view (fun _ => True) q (q.tryToSendToTransfers prm view port r) :=
      tryToSendToTransfers_acts port fun _ => trivial
    have aside : q.Aside r (q.tryToSendToTransfers prm view port r) :=
      aside_tryToSendToTransfers port fun busy => outside (ledger.belongs r busy)
    have sent := ledger.aside outside fresh aside
    exact sent.stepStoreBuffer (acts.base base) ports

theorem Ledger.forget (ledger : q.Ledger) : { q with retryRequest := none }.Ledger :=
  ledger.drop (List.Sublist.refl _) rfl (List.Subset.refl _) rfl rfl rfl
    (fun alive => ⟨alive, fun _ => rfl⟩) ledger.unissued (fun _ => .inl) nofun

theorem aside_resume (q : Lsq) (r : ReqId) : q.Aside r (q.resume r .translated) where
  slots := rfl
  unissued := rfl
  others := fun t other => by simp [Lsq.resume, setState, update, other]
  calm := fun _ => by simp [Lsq.resume, setState, LsqRequest.InBuffer]
  queue := fun _ => .inl
  nextReq := Nat.le_refl _
  inserted := rfl
  accepted := ⟨[], (append_nil _).symm, nofun⟩
  inMemory := fun _ _ => rfl
  retry := nofun
  panicked := id

theorem Ledger.recvReqRetry (ledger : q.Ledger) (base : q.Base prm) (port : Port)
    (needs : q.needsRetry = true) : (q.recvReqRetry prm port).Ledger := by
  rw [Lsq.recvReqRetry]
  cases request : q.retryRequest with
  | none => exact ledger
  | some r =>
    dsimp only
    split
    next state =>
      obtain ⟨outside, fresh⟩ := ledger.away base (r := r) (by simp [LsqRequest.InBuffer, state])
        (by simp [state])
      have calm : ¬(q.reqs r).InBuffer := fun busy => outside (ledger.belongs r busy)
      have tried : q.Aside r ((q.resume r .translated).tryToSend prm port r).1 :=
        (aside_resume q r).trans (aside_tryToSend port ((aside_resume q r).calm calm))
      split
      · exact (ledger.aside outside fresh (tried.trans (aside_move _ r))).forget
      · exact ledger.aside outside fresh tried
    next state =>
      have mem : r ∈ q.slots := ledger.belongs r (.inr (.inr state))
      have first := ledger.retry needs r request state
      have slot := ledger.slot r mem
      have more : (q.reqs r).sentAllPackets = false := by
        refine eq_false_of_not_eq_true fun all => ?_
        have below := slot.unsent (.inr state)
        rw [slot.sentAllPackets_iff] at all
        omega
      have retried : Retried q r .storeInStoreBuffer := ⟨needs, request, .inr ⟨state, rfl⟩⟩
      have act : Act prm ⟨fun _ => true, fun _ => true⟩ (fun _ => True) q
          (q.resume r .storeInStoreBuffer) := .resume retried
      have resumed : (q.resume r .storeInStoreBuffer).Ledger :=
        ledger.waitSlot base mem first more (by simp)
      have kept : ((q.resume r .storeInStoreBuffer).reqs r)
          = { q.reqs r with state := .storeInStoreBuffer } := by
        simp [Lsq.resume, setState]
      have turn : (q.resume r .storeInStoreBuffer).First r := by
        refine first.congr rfl rfl fun t _ all => ?_
        by_cases same : t = r
        · grind
        · simpa [Lsq.resume, setState, update, same] using all
      have tried := resumed.trySlot (act.base base) port mem turn (by simp [kept])
      split
      next last =>
        have last : ((q.resume r .storeInStoreBuffer).tryToSend prm port r).2 = true := last
        rw [if_pos last] at tried
        exact tried.forget
      next other =>
        have other : ¬((q.resume r .storeInStoreBuffer).tryToSend prm port r).2 = true := other
        rw [if_neg other] at tried
        exact tried
    next => exact ledger.fail

section Responses

variable {p : Packet} {k : Nat} {isError : Bool} {y : LsqRequest}

theorem countP_eraseIdx (found : q.inMemory[k]? = some p) (t : ReqId) :
    q.inMemory.countP (·.req == t)
      = (q.inMemory.eraseIdx k).countP (·.req == t) + if p.req = t then 1 else 0 := by
  obtain ⟨inside, rfl⟩ := List.getElem?_eq_some_iff.mp found
  rw [← (getElem_cons_eraseIdx_perm inside).countP_eq, List.countP_cons]
  simp

theorem inserted_received (q : Lsq) (p : Packet) (y : LsqRequest) (slots : List ReqId)
    (left : List Packet) : (q.received p y slots left).inserted = q.inserted := by
  simp [inserted, received]

theorem aside_received (found : q.inMemory[k]? = some p)
    (calm : y.InBuffer → (q.reqs p.req).InBuffer) :
    q.Aside p.req (q.received p y q.slots (q.inMemory.eraseIdx k)) where
  slots := rfl
  unissued := rfl
  others := fun t other => by simp [received, other]
  calm := fun away busy => away (calm (by simpa [received] using busy))
  queue := fun _ => .inl
  nextReq := Nat.le_refl _
  inserted := inserted_received ..
  accepted := ⟨[], by rw [accepted_received, append_nil], nofun⟩
  inMemory := fun t other => by
    rw [countP_eraseIdx found t, if_neg (Ne.symm other)]
    rfl
  retry := fun _ needs own => .inr ⟨needs, own⟩
  panicked := id

theorem Ledger.receivedSlot (ledger : q.Ledger) (base : q.Base prm) (alive : q.panicked = false)
    (found : q.inMemory[k]? = some p) (mem : p.req ∈ q.slots) (answered : (q.reqs p.req).Answered y)
    (retired : y.numRetired = (q.reqs p.req).numRetired + 1) :
    (q.received p y q.slots (q.inMemory.eraseIdx k)).Ledger := by
  have slot := ledger.slot p.req mem
  refine ledger.changeSlot base ⟨mem, rfl, rfl, rfl, rfl, inserted_received .., ?_, ?_,
    .none (accepted_received ..) answered.issued, answered.sentAllPackets.trans, fun _ => ?_, ?_, id,
    ?_⟩
  · refine ⟨?_, ?_, fun waits => ?_⟩
    · rw [answered.kind, answered.fragments, answered.translated]
      exact slot.form
    · rw [answered.issued, answered.fragments]
      exact slot.issued
    · rw [answered.issued, answered.fragments]
      rcases answered.state with complete | same
      · simp [complete] at waits
      · exact slot.unsent (same ▸ waits)
  · rw [answered.owes]
    rfl
  · have flight := ledger.flight alive p.req mem
    rw [countP_eraseIdx found, if_pos rfl] at flight
    rw [retired, answered.issued, ← flight]
    change _ + 1 + (q.inMemory.eraseIdx k).countP _ = _
    omega
  · intro t other
    rw [countP_eraseIdx found t, if_neg (Ne.symm other)]
    rfl
  · intro needs t request state
    refine ledger.retry needs t request ?_
    by_cases same : t = p.req
    · subst same
      simp only [received, update_self] at state
      rcases answered.state with complete | kept
      · simp [complete] at state
      · exact kept ▸ state
    · simpa [received, same] using state

theorem Ledger.eraseSlot (ledger : q.Ledger) (complete : (q.reqs r).state = .complete)
    (paid : (q.reqs r).owes = false) :
    { q with slots := q.slots.erase r }.Ledger := by
  refine ledger.drop erase_sublist rfl (List.Subset.refl _) rfl rfl rfl
    (fun alive => ⟨alive, fun _ => rfl⟩) ?_ ?_ fun needs _ own => ⟨needs, own⟩
  · by_cases mem : r ∈ q.slots
    · have perm := (perm_cons_erase mem).countP_eq fun t => (q.reqs t).owes
      rw [List.countP_cons, paid] at perm
      exact ledger.unissued.trans perm
    · dsimp only
      rw [erase_of_not_mem mem]
      exact ledger.unissued
  · grind

/-- A response completes a slot that is no barrier after its last packet, unless it cuts the
slot short. -/
theorem Ledger.sentAll_of_complete (ledger : q.Ledger) (alive : q.panicked = false)
    (found : q.inMemory[k]? = some p) (mem : p.req ∈ q.slots)
    (barrier : (q.reqs p.req).isBarrier = false) (why : (q.reqs p.req).kind = .single ∨ (q.reqs
    p.req).numRetired + 1 = (q.reqs p.req).numTranslated ∨ ((q.reqs p.req).skipped = true ∨ isError
    = true) ∧ (q.reqs p.req).numIssued = (q.reqs p.req).numRetired + 1)
    (whole : q.cutsShort (.recvTimingResp k isError) = false) :
    (q.reqs p.req).sentAllPackets = true := by
  have slot := ledger.slot p.req mem
  have issued := slot.issued
  have flight := ledger.flight alive p.req mem
  rw [countP_eraseIdx found, if_pos rfl] at flight
  rw [slot.sentAllPackets_iff]
  rcases slot.form with ⟨kind, one⟩ | ⟨kind, all⟩ | ⟨kind, none⟩
  · omega
  · rcases why with single | last | ⟨error, alone⟩
    · cases kind.symm.trans single
    · omega
    · by_contra more
      have cuts : q.cutsShort (.recvTimingResp k isError) = true := by grind [cutsShort]
      exact absurd (whole.symm.trans cuts) Bool.false_ne_true
  · omega

theorem Responded.ledger {q' : Lsq} (responded : Responded isError q p (q.inMemory.eraseIdx k) q')
    (ledger : q.Ledger) (base : q.Base prm) (alive : q.panicked = false)
    (found : q.inMemory[k]? = some p) (whole : q.cutsShort (.recvTimingResp k isError) = false) :
    q'.Ledger := by
  cases responded with
  | front state =>
    have calm : ¬(q.reqs p.req).InBuffer := by
      rcases state with h | h <;> simp [LsqRequest.InBuffer, h]
    obtain ⟨outside, fresh⟩ := ledger.away base calm (by rcases state with h | h <;> simp [h])
    refine ledger.aside outside fresh (aside_received found fun busy => ?_)
    rcases (LsqRequest.answered isError (q.reqs p.req) p.frag p.bytes).state with h | h
    · simp [LsqRequest.InBuffer, h] at busy
    · rw [LsqRequest.InBuffer, h] at busy
      exact busy
  | slot state =>
    have busy : (q.reqs p.req).InBuffer := .inr state
    have mem := ledger.belongs p.req busy
    have slot := ledger.slot p.req mem
    have open_ : (q.reqs p.req).state ≠ .complete := by
      rcases state with h | h <;> simp [h]
    have packets : (q.reqs p.req).kind = .single ∨ (q.reqs p.req).kind = .split := by
      rcases slot.form with ⟨kind, -⟩ | ⟨kind, -⟩ | ⟨kind, -⟩
      · exact .inl kind
      · exact .inr kind
      · have still := (base.sound p.req).still (.inr kind)
        rcases state with h | h <;> simp [LsqRequest.Still, h] at still
    have answered := LsqRequest.answered isError (q.reqs p.req) p.frag p.bytes
    obtain ⟨retired, completes⟩ :=
      LsqRequest.retireResponseOf_progress isError (q.reqs p.req) p.frag p.bytes packets
    have stays := ledger.receivedSlot base alive found mem answered retired
    rw [slotsAfter]
    split
    next gone =>
      simp only [and_eq_true, LsqRequest.isComplete, beq_iff_eq, not_eq_true'] at gone
      obtain ⟨complete, plain⟩ := gone
      have barrier : (q.reqs p.req).isBarrier = false := by
        rw [← plain, LsqRequest.isBarrier, LsqRequest.isBarrier, answered.kind,
          answered.instIsBarrier]
      have all := ledger.sentAll_of_complete alive found mem barrier
        ((completes complete).resolve_left open_) whole
      have paid : (q.reqs p.req).owes = false := by grind [LsqRequest.owes]
      refine stays.eraseSlot (by simpa [received] using complete) ?_
      simpa [received, answered.owes] using paid
    next => exact stays
  | failed =>
    exact ledger.drop (List.Sublist.refl _) (update_eq_self _ _) (List.Subset.refl _) rfl
      (inserted_received q p (q.reqs p.req) q.slots (q.inMemory.eraseIdx k))
      (accepted_received q p (q.reqs p.req) q.slots (q.inMemory.eraseIdx k)) (by simp) ledger.unissued
      (fun _ => .inl) fun needs _ own => ⟨needs, own⟩

end Responses

theorem Ledger.push {x : LsqRequest} (ledger : q.Ledger) (calm : ¬x.InBuffer) :
    { q.create x with requests := q.requests ++ [q.nextReq] }.Ledger := by
  have fresh : q.nextReq ∉ q.inserted := fun mem => Nat.lt_irrefl _ (ledger.known _ mem).1
  have outside : q.nextReq ∉ q.slots := fun mem => fresh (ledger.slots _ mem)
  refine ledger.aside outside fresh ⟨rfl, rfl, ?_, ?_, ?_, Nat.le_succ _, rfl,
    ⟨[], (append_nil _).symm, nofun⟩, fun _ _ => rfl, fun _ needs own => .inr ⟨needs, own⟩,
    id⟩
  · intro t other
    simp [create, other]
  · intro _
    simpa [create] using calm
  · grind [queue, create]

theorem inserted_insert (q : Lsq) (r : ReqId) : (q.insert r).inserted = q.inserted ++ [r] := by
  simp [inserted, insert]

theorem Ledger.buffer (ledger : q.Ledger) (base : q.Base prm) (front : q.transfers.head? = some r)
    (state : (q.reqs r).state = .storeToStoreBuffer) : ((q.insert r).popResponse r).Ledger := by
  obtain ⟨rest, transfers⟩ := List.head?_eq_some_iff.mp front
  have mem : r ∈ q.queue := by simp [queue, transfers]
  obtain ⟨bufferable, ipr, store⟩ := (base.placed.coherent r).toBuffer state
  have roundabout : ¬(q.reqs r).Direct := by grind [LsqRequest.Direct]
  have sound := base.sound r
  obtain ⟨issued, retired⟩ := sound.idle (.inr ⟨.inr state, roundabout⟩)
  have fragments : ((q.reqs r).kind = .single ∧ (q.reqs r).fragments.length = 1
      ∨ (q.reqs r).kind = .split ∧ (q.reqs r).numTranslated = (q.reqs r).fragments.length)
      ∧ 0 < (q.reqs r).fragments.length := by
    cases kind : (q.reqs r).kind with
    | single => exact ⟨.inl ⟨rfl, sound.single kind⟩, by rw [sound.single kind]; exact Nat.one_pos⟩
    | split =>
      rcases sound.split kind with waits | fault | flag | ⟨all, pos⟩
      · simp [state] at waits
      · simp [sound.noFault state] at fault
      · simp [ipr] at flag
      · exact ⟨.inr ⟨rfl, all⟩, all ▸ pos⟩
    | failed =>
      have still := sound.still (.inl kind)
      simp [LsqRequest.Still, state] at still
    | barrier =>
      have still := sound.still (.inr kind)
      simp [LsqRequest.Still, state] at still
  have slot : ({ q.reqs r with state := .storeInStoreBuffer } : LsqRequest).Slot := by
    refine ⟨?_, ?_, fun _ => ?_⟩
    · grind
    · dsimp only
      omega
    · dsimp only
      omega
  have unsent : ∀ e ∈ q.accepted, e.1 ≠ r := by
    rintro e there rfl
    have below := (base.indices e there).2
    omega
  refine ledger.insert base (ledger.outside mem).2 unsent
    (y := { q.reqs r with state := .storeInStoreBuffer }) ?_ rfl (inserted_insert q r)
    (accepted_insert q r) rfl ?_ (Nat.le_refl _) ?_ rfl slot ?_ ⟨issued, retired⟩ (by simp) rfl
    ⟨rfl, rfl⟩
  · simp [popResponse, Lsq.insert, update, LsqRequest.isComplete, state]
  · have nodup := (List.nodup_append'.mp base.placed.nodup).1
    rw [queue, transfers, List.cons_append, List.nodup_cons] at nodup
    intro t there
    have kept : t ∈ rest ++ q.requests := by
      simpa [queue, popResponse, Lsq.insert, update, transfers] using there
    refine ⟨?_, fun same => nodup.1 (same ▸ kept)⟩
    rw [queue, transfers]
    exact List.mem_cons_of_mem _ kept
  · exact base.placed.known r (mem_append_left _ mem)
  · refine owes_of_more (eq_false_of_not_eq_true fun all => ?_)
    rw [slot.sentAllPackets_iff] at all
    simp only [issued] at all
    omega

theorem Ledger.insertBarrier (ledger : q.Ledger) (base : q.Base prm) (inst : InstId) :
    ((q.create (barrierRequest inst)).insert q.nextReq).Ledger := by
  refine ledger.insert (r := q.nextReq)
    (y := barrierRequest inst) base ?_ ?_ ?_ rfl (inserted_insert _ _) (accepted_insert _ _) rfl
    ?_ (Nat.le_succ _) (Nat.lt_succ_self _) rfl ⟨.inr (.inr ⟨rfl, rfl⟩), Nat.le_refl _, ?_⟩ rfl
    ⟨rfl, rfl⟩ (by simp [barrierRequest]) rfl ⟨rfl, rfl⟩
  · exact fun mem => Nat.lt_irrefl _ (ledger.known _ mem).1
  · intro e mem same
    exact Nat.lt_irrefl _ (same ▸ (base.indices e mem).1)
  · simp [Lsq.insert, create, update, LsqRequest.isComplete, barrierRequest]
  · intro t mem
    refine ⟨mem, ?_⟩
    rintro rfl
    exact Nat.lt_irrefl _ (base.placed.known _ (mem_append_left _ mem))
  · simp [barrierRequest]

theorem Ledger.lastMemBarrier (ledger : q.Ledger) (last : Nat → Nat) :
    ({ q with lastMemBarrier := last } : Lsq).Ledger :=
  ledger.drop (List.Sublist.refl _) rfl (List.Subset.refl _) rfl rfl rfl
    (fun alive => ⟨alive, fun _ => rfl⟩) ledger.unissued (fun _ => .inl)
    fun needs _ own => ⟨needs, own⟩

theorem Ledger.pop (ledger : q.Ledger) : (q.popResponse r).Ledger := by
  refine ledger.drop (List.Sublist.refl _) rfl ?_ rfl rfl rfl (fun alive => ⟨alive, fun _ => rfl⟩)
    ledger.unissued (fun _ => .inl) fun needs _ own => ⟨needs, own⟩
  exact ((tail_sublist _).append_right _).subset

theorem Ledger.perform (ledger : q.Ledger) (k : Nat) (bytes : Nat → Byte) :
    (q.perform k bytes).Ledger := by
  rw [Lsq.perform]
  split
  · exact ledger
  next p found =>
    split
    · exact ledger
    · refine ledger.drop (List.Sublist.refl _) rfl (List.Subset.refl _) rfl ?_ ?_
        (fun alive => ⟨alive, fun t => ?_⟩) ledger.unissued (fun _ => .inl)
        fun needs _ own => ⟨needs, own⟩
      · simp only [inserted]
        split <;> simp
      · simp only [accepted]
        split <;> simp
      · exact countP_set found rfl

theorem Ledger.call {c : LsqCall} (ledger : q.Ledger) (base : q.Base prm)
    (whole : q.cutsShort c = false) (called : q.call prm c = some q') : q'.Ledger := by
  unfold Lsq.call at called
  split at called
  next => cases called
  next alive =>
  have alive := eq_false_of_not_eq_true alive
  cases c with
  | pushRequest =>
    obtain rfl := Option.some.inj called
    exact ledger.push (by simp [newRequest, LsqRequest.InBuffer])
  | pushFailedRequest =>
    obtain rfl := Option.some.inj called
    exact ledger.push (by simp [LsqRequest.InBuffer])
  | finish view port r a =>
    dsimp only at called
    split at called
    next state =>
      obtain rfl := Option.some.inj called
      exact ledger.finish base port a state
    next => cases called
  | step view port ports =>
    obtain rfl := Option.some.inj called
    exact ledger.step base port ports
  | perform k bytes =>
    obtain rfl := Option.some.inj called
    exact ledger.perform k bytes
  | recvTimingResp k isError =>
    dsimp only at called
    split at called
    next inside =>
      obtain rfl := Option.some.inj called
      have found : q.inMemory[k]? = some q.inMemory[k] := List.getElem?_eq_getElem inside
      exact (recvTimingRespOf_responded found).ledger ledger base alive found whole
    next => cases called
  | recvReqRetry port =>
    dsimp only at called
    split at called
    next needs =>
      obtain rfl := Option.some.inj called
      exact ledger.recvReqRetry base port needs
    next => cases called
  | popResponse =>
    obtain ⟨r, found, rfl⟩ := Option.map_eq_some_iff.mp called
    exact ledger.pop
  | sendStoreToStoreBuffer =>
    obtain ⟨r, found, rfl⟩ := Option.map_eq_some_iff.mp called
    obtain ⟨found, needs⟩ := Option.filter_eq_some_iff.mp found
    obtain ⟨front, -, -⟩ := findResponse_cases found
    exact ledger.buffer base front (beq_iff_eq.mp needs)
  | issuedMemBarrierInst =>
    obtain rfl := Option.some.inj called
    exact ledger.lastMemBarrier _
  | completeMemBarrierInst inst inStoreBuffer committed =>
    obtain rfl := Option.some.inj called
    rw [completeMemBarrierInst]
    split
    · split
      · exact ledger
      · exact ledger.insertBarrier base inst
    · rw [clearMemBarrier]
      split
      · exact ledger.lastMemBarrier _
      · exact ledger

theorem ledger_init : Ledger {} where
  unissued := rfl
  slot := nofun
  counted := nofun
  flight := fun _ => nofun
  belongs := fun _ busy => by simp [LsqRequest.InBuffer] at busy
  done := nofun
  known := nofun
  slots := nofun
  ranks := List.Pairwise.nil
  ahead := nofun
  order := List.Pairwise.nil
  retry := nofun

theorem Ledger.accounts (ledger : q.Ledger) (base : q.Base prm) : q.Accounts prm where
  unissued := by
    rw [ledger.unissued]
    refine List.countP_congr fun r mem => ?_
    have slot := ledger.slot r mem
    have issued := slot.issued
    have sent := slot.sentAllPackets_iff
    rw [LsqRequest.owes, Lsq.unissued, ledger.counted r mem, or_eq_true, or_eq_true,
      not_eq_true', decide_eq_true_eq, ← not_eq_true, sent]
    exact or_congr_right ⟨fun more => Nat.lt_of_le_of_ne issued more, Nat.ne_of_lt⟩
  inMemory := base.inMemory
  limit := base.limit
  order := ledger.order
  ahead := by
    refine ledger.ranks.imp_of_mem fun {s t} mem also before pos => ?_
    obtain ⟨e, there, own⟩ := List.countP_pos_iff.mp pos
    obtain rfl := beq_iff_eq.mp own
    have all := ledger.ahead e there (ledger.slots _ also) s mem before
    rw [ledger.counted s mem]
    exact (ledger.slot s mem).sentAllPackets_iff.mp all

/-- The accounts hold in every state that calls lead to in which no error response cuts a split
store short. -/
theorem reached_accounts (reached : Reached prm (fun q c => !q.cutsShort c) q) :
    q.Accounts prm := by
  have both : q.Base prm ∧ q.Ledger := by
    induction reached with
    | init => exact ⟨base_init prm, ledger_init⟩
    | @call before after c _ meets called ih =>
      have whole : before.cutsShort c = false := by simpa using meets
      exact ⟨ih.1.call called, ih.2.call ih.1 whole called⟩
  exact both.2.accounts both.1

/-- Two packets in memory at a time, lines of 64 bytes, two places in each queue, five slots and
one store a cycle. -/
def twoInMemory : LsqParams := ⟨2, 64, 2, 2, 5, 1⟩

/-- Every instruction is of the right stream and the head. -/
def anyInst : View := ⟨fun _ => true, fun _ => true⟩

/-- A store of eight bytes that starts four bytes before a line ends. -/
def splitStore : List LsqCall :=
  [.pushRequest ⟨0, 0, 0⟩ false { isLoad := false, addr := 60, size := 8 },
    .finish anyInst {} 0 { paddr := 60 }, .finish anyInst {} 0 { paddr := 64 },
    .sendStoreToStoreBuffer ⟨0, 0, 0⟩]

/-- The split store is refused once, and a barrier waits behind it. -/
theorem reached_accounts_split : ∃ q, run twoInMemory (fun q c => !q.cutsShort c) {} (splitStore ++
      [.completeMemBarrierInst ⟨0, 0, 1⟩ false true, .step anyInst {} [],
        .step anyInst {} [{ accepted := false }], .recvTimingResp 0 false, .recvReqRetry {}])
      = some q ∧ (q.numUnissuedAccesses, q.slots, q.accepted) = (1, [0, 1], [(0, 0), (0, 1)])
      ∧ q.Accounts twoInMemory := by
  obtain ⟨q, ran, state⟩ := Option.map_eq_some_iff.mp (show (run twoInMemory
    (fun q c => !q.cutsShort c) {} (splitStore ++
      [.completeMemBarrierInst ⟨0, 0, 1⟩ false true, .step anyInst {} [],
        .step anyInst {} [{ accepted := false }], .recvTimingResp 0 false, .recvReqRetry {}])).map
    (fun q => (q.numUnissuedAccesses, q.slots, q.accepted))
      = some (1, [0, 1], [(0, 0), (0, 1)]) by decide)
  exact ⟨q, ran, state, reached_accounts (.run .init ran)⟩

/-- An error response to the first packet of a split store, before the second one is sent. -/
theorem errorResponse_loses : ∃ q, Reached twoInMemory (fun _ _ => true) q
    ∧ run twoInMemory (fun _ _ => true) {} (splitStore
      ++ [.step anyInst {} [], .recvTimingResp 0 true]) = some q
    ∧ (q.numUnissuedAccesses, q.slots) = (1, []) ∧ ¬q.Accounts twoInMemory := by
  obtain ⟨q, ran, state⟩ := Option.map_eq_some_iff.mp (show (run twoInMemory (fun _ _ => true) {}
    (splitStore ++ [.step anyInst {} [], .recvTimingResp 0 true])).map
    (fun q => (q.numUnissuedAccesses, q.slots)) = some (1, []) by decide)
  refine ⟨q, .run .init ran, ran, state, fun accounts => ?_⟩
  have unissued := accounts.unissued
  obtain ⟨one, none⟩ := Prod.mk.inj state
  rw [one, none] at unissued
  cases unissued

end Lsq

end Gem5.Minor
