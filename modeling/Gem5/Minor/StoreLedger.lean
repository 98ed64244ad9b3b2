import Gem5.Minor.StorePackets

/-!
# The accounts of the store buffer

What a slot owes, how many of its packets are in flight, and which slot is the first that has
packets to send. Each change of the queue is one of a request outside of the store buffer, one
of a slot, or one of the list of the slots.
-/

namespace Gem5.Minor

open List Function

namespace LsqRequest

def InBuffer (x : LsqRequest) : Prop :=
  x.state = .storeInStoreBuffer ∨ x.state = .storeBufferIssuing ∨ x.state = .storeBufferNeedsRetry

/-- What `numUnissuedAccesses` counts. -/
def owes (x : LsqRequest) : Bool := x.isBarrier || !x.sentAllPackets

theorem Answered.owes {x y : LsqRequest} (answered : x.Answered y) : y.owes = x.owes := by
  rw [LsqRequest.owes, LsqRequest.owes, answered.sentAllPackets, isBarrier, isBarrier,
    answered.kind, answered.instIsBarrier]

/-- A request in the store buffer. -/
structure Slot (x : LsqRequest) : Prop where
  form : x.kind = .single ∧ x.fragments.length = 1
    ∨ x.kind = .split ∧ x.numTranslated = x.fragments.length
    ∨ x.kind = .barrier ∧ x.fragments.length = 0
  issued : x.numIssued ≤ x.fragments.length
  unsent : x.state = .storeInStoreBuffer ∨ x.state = .storeBufferNeedsRetry →
    x.numIssued < x.fragments.length

theorem Slot.sentAllPackets_iff {x : LsqRequest} (slot : x.Slot) :
    x.sentAllPackets = true ↔ x.numIssued = x.fragments.length := by
  have issued := slot.issued
  rcases slot.form with ⟨kind, one⟩ | ⟨kind, all⟩ | ⟨kind, none⟩
  · simp only [sentAllPackets, kind, bne_iff_ne]
    omega
  · simp [sentAllPackets, kind, all]
  · simp only [sentAllPackets, kind, true_iff]
    omega

end LsqRequest

namespace Lsq

/-- The place of a request among all that have been put in the store buffer. -/
def rank (q : Lsq) (r : ReqId) : Nat := q.inserted.idxOf r

/-- All slots before this one have sent their packets. -/
def First (q : Lsq) (r : ReqId) : Prop :=
  ∀ s ∈ q.slots, q.rank s < q.rank r → (q.reqs s).sentAllPackets = true

structure Ledger (q : Lsq) : Prop where
  unissued : q.numUnissuedAccesses = q.slots.countP fun r => (q.reqs r).owes
  slot : ∀ r ∈ q.slots, (q.reqs r).Slot
  counted : ∀ r ∈ q.slots, q.numAccepted r = (q.reqs r).numIssued
  flight : q.panicked = false → ∀ r ∈ q.slots,
    (q.reqs r).numRetired + q.inMemory.countP (·.req == r) = (q.reqs r).numIssued
  belongs : ∀ r, (q.reqs r).InBuffer → r ∈ q.slots
  done : ∀ r ∈ q.inserted, r ∈ q.slots ∨ (q.reqs r).state = .complete
  known : ∀ r ∈ q.inserted, r < q.nextReq ∧ r ∉ q.queue
  slots : ∀ r ∈ q.slots, r ∈ q.inserted
  ranks : q.slots.Pairwise fun s t => q.rank s < q.rank t
  ahead : ∀ e ∈ q.accepted, e.1 ∈ q.inserted → q.First e.1
  order : (q.accepted.filter fun e => decide (e.1 ∈ q.inserted)).Pairwise q.SlotOrder
  retry : q.needsRetry = true → ∀ r, q.retryRequest = some r →
    (q.reqs r).state = .storeBufferNeedsRetry → q.First r

theorem countP_change {α : Type} [DecidableEq α] {l : List α} {r : α} (p p' : α → Bool)
    (nodup : l.Nodup) (mem : r ∈ l) (same : ∀ t ∈ l, t ≠ r → p' t = p t) :
    l.countP p' + (p r).toNat = l.countP p + (p' r).toNat := by
  have perm := perm_cons_erase mem
  have rest : (l.erase r).countP p' = (l.erase r).countP p := by
    refine List.countP_congr fun t among => ?_
    have other : t ≠ r := fun own => by
      rw [own] at among
      exact nodup.not_mem_erase among
    rw [same t (List.mem_of_mem_erase among) other]
  rw [perm.countP_eq, perm.countP_eq, List.countP_cons, List.countP_cons, rest]
  cases p r <;> cases p' r <;> simp

theorem countP_set {α : Type} {l : List α} {k : Nat} {a b : α} {f : α → Bool}
    (found : l[k]? = some a) (same : f b = f a) : (l.set k b).countP f = l.countP f := by
  induction l generalizing k with
  | nil => rfl
  | cons c rest ih => grind

variable {q q' : Lsq} {r : ReqId}

/-- A request that is not in the store buffer changes, and may send packets. -/
structure Aside (q : Lsq) (r : ReqId) (q' : Lsq) : Prop where
  slots : q'.slots = q.slots
  unissued : q'.numUnissuedAccesses = q.numUnissuedAccesses
  others : ∀ t, t ≠ r → q'.reqs t = q.reqs t
  calm : ¬(q.reqs r).InBuffer → ¬(q'.reqs r).InBuffer
  queue : ∀ t ∈ q'.queue, t ∈ q.queue ∨ t = r
  nextReq : q.nextReq ≤ q'.nextReq
  inserted : q'.inserted = q.inserted
  accepted : ∃ sent, q'.accepted = q.accepted ++ sent ∧ ∀ e ∈ sent, e.1 = r
  inMemory : ∀ t, t ≠ r → q'.inMemory.countP (·.req == t) = q.inMemory.countP (·.req == t)
  retry : ∀ t, q'.needsRetry = true → q'.retryRequest = some t →
    t = r ∨ q.needsRetry = true ∧ q.retryRequest = some t
  panicked : q.panicked = true → q'.panicked = true

theorem Aside.refl (q : Lsq) (r : ReqId) : q.Aside r q :=
  ⟨rfl, rfl, fun _ _ => rfl, id, fun _ => .inl, Nat.le_refl _, rfl,
    ⟨[], (append_nil _).symm, nofun⟩, fun _ _ => rfl, fun _ needs own => .inr ⟨needs, own⟩, id⟩

theorem Aside.trans {q'' : Lsq} (one : q.Aside r q') (two : q'.Aside r q'') : q.Aside r q'' where
  slots := two.slots.trans one.slots
  unissued := two.unissued.trans one.unissued
  others := fun t other => (two.others t other).trans (one.others t other)
  calm := fun calm => two.calm (one.calm calm)
  queue := fun t mem => (two.queue t mem).elim (one.queue t) .inr
  nextReq := Nat.le_trans one.nextReq two.nextReq
  inserted := two.inserted.trans one.inserted
  accepted := by
    obtain ⟨sent, before, own⟩ := one.accepted
    obtain ⟨more, after, also⟩ := two.accepted
    refine ⟨sent ++ more, by rw [after, before, List.append_assoc], fun e mem => ?_⟩
    exact (List.mem_append.mp mem).elim (own e) (also e)
  inMemory := fun t other => (two.inMemory t other).trans (one.inMemory t other)
  retry := fun t needs own => by
    rcases two.retry t needs own with same | ⟨needs, own⟩
    · exact .inl same
    · exact one.retry t needs own
  panicked := fun dead => two.panicked (one.panicked dead)

theorem Aside.ite {c : Prop} [Decidable c] {q₁ q₂ : Lsq} (yes : q.Aside r q₁) (no : q.Aside r q₂) :
    q.Aside r (if c then q₁ else q₂) := by
  split
  · exact yes
  · exact no

theorem First.congr {s : ReqId} (first : q.First s) (slots : q'.slots = q.slots)
    (inserted : q'.inserted = q.inserted)
    (sent : ∀ t ∈ q.slots, (q.reqs t).sentAllPackets = true → (q'.reqs t).sentAllPackets = true) :
    q'.First s := by
  intro t mem earlier
  rw [slots] at mem
  rw [rank, rank, inserted] at earlier
  exact sent t mem (first t mem earlier)

theorem Ledger.aside (ledger : q.Ledger) (outside : r ∉ q.slots) (fresh : r ∉ q.inserted)
    (aside : q.Aside r q') : q'.Ledger := by
  have other : ∀ t ∈ q.slots, t ≠ r := fun t mem own => outside (own ▸ mem)
  have reqs : ∀ t ∈ q.slots, q'.reqs t = q.reqs t := fun t mem => aside.others t (other t mem)
  have calm : ¬(q'.reqs r).InBuffer := aside.calm fun busy => outside (ledger.belongs r busy)
  obtain ⟨sent, accepted, own⟩ := aside.accepted
  have old : ∀ e ∈ q'.accepted, e.1 ∈ q'.inserted → e ∈ q.accepted := by
    intro e mem among
    rw [accepted, mem_append] at mem
    refine mem.resolve_right fun new => ?_
    rw [aside.inserted, own e new] at among
    exact fresh among
  have first : ∀ s, q.First s → q'.First s := fun s first =>
    first.congr aside.slots aside.inserted fun t mem sent => by rw [reqs t mem]; exact sent
  refine ⟨?_, ?_, ?_, ?_, ?_, ?_, ?_, ?_, ?_, ?_, ?_, ?_⟩
  · rw [aside.unissued, aside.slots, ledger.unissued]
    exact List.countP_congr fun t mem => by rw [reqs t mem]
  · intro t mem
    rw [aside.slots] at mem
    rw [reqs t mem]
    exact ledger.slot t mem
  · intro t mem
    rw [aside.slots] at mem
    have none : sent.countP (·.1 == t) = 0 := by grind
    rw [reqs t mem, ← ledger.counted t mem, numAccepted, numAccepted, accepted, countP_append,
      none, Nat.add_zero]
  · intro alive t mem
    rw [aside.slots] at mem
    rw [reqs t mem, aside.inMemory t (other t mem)]
    refine ledger.flight ?_ t mem
    cases dead : q.panicked with
    | false => rfl
    | true => exact absurd (alive.symm.trans (aside.panicked dead)) Bool.false_ne_true
  · intro t busy
    have notOwn : t ≠ r := fun same => calm (same ▸ busy)
    rw [aside.slots]
    exact ledger.belongs t (aside.others t notOwn ▸ busy)
  · intro t mem
    rw [aside.inserted] at mem
    rw [aside.slots, aside.others t fun same => fresh (same ▸ mem)]
    exact ledger.done t mem
  · intro t mem
    rw [aside.inserted] at mem
    obtain ⟨known, away⟩ := ledger.known t mem
    refine ⟨Nat.lt_of_lt_of_le known aside.nextReq, fun among => ?_⟩
    rcases aside.queue t among with there | rfl
    · exact away there
    · exact fresh mem
  · rw [aside.slots, aside.inserted]
    exact ledger.slots
  · rw [aside.slots]
    simp only [rank, aside.inserted]
    exact ledger.ranks
  · intro e mem among
    exact first _ (ledger.ahead e (old e mem among) (aside.inserted ▸ among))
  · have kept : q'.accepted.filter (fun e => decide (e.1 ∈ q'.inserted))
        = q.accepted.filter fun e => decide (e.1 ∈ q.inserted) := by
      have none : sent.filter (fun e => decide (e.1 ∈ q.inserted)) = [] := by
        refine List.filter_eq_nil_iff.mpr fun e new among => ?_
        exact fresh (own e new ▸ of_decide_eq_true among)
      rw [accepted, aside.inserted, filter_append, none, append_nil]
    rw [kept]
    refine ledger.order.imp fun order => ?_
    rw [SlotOrder, aside.inserted]
    exact order
  · intro needs t request state
    have notOwn : t ≠ r := fun same => calm (.inr (.inr (same ▸ state)))
    obtain ⟨needed, before⟩ := (aside.retry t needs request).resolve_left notOwn
    exact first t (ledger.retry needed t before (aside.others t notOwn ▸ state))

/-- The packets that a slot has sent in a change: none, or its next one in its turn. -/
inductive SlotSends (q : Lsq) (r : ReqId) (y : LsqRequest) (q' : Lsq) : Prop where
  | none (accepted : q'.accepted = q.accepted) (issued : y.numIssued = (q.reqs r).numIssued)
  | next (accepted : q'.accepted = q.accepted ++ [(r, (q.reqs r).numIssued)])
      (issued : y.numIssued = (q.reqs r).numIssued + 1) (first : q.First r)
      (more : (q.reqs r).sentAllPackets = false)

/-- A slot changes. -/
structure SlotChange (q : Lsq) (r : ReqId) (y : LsqRequest) (q' : Lsq) : Prop where
  mem : r ∈ q.slots
  reqs : q'.reqs = Function.update q.reqs r y
  slots : q'.slots = q.slots
  queue : q'.queue = q.queue
  nextReq : q'.nextReq = q.nextReq
  inserted : q'.inserted = q.inserted
  slot : y.Slot
  unissued : q'.numUnissuedAccesses + (q.reqs r).owes.toNat = q.numUnissuedAccesses + y.owes.toNat
  sends : q.SlotSends r y q'
  all : (q.reqs r).sentAllPackets = true → y.sentAllPackets = true
  flight : q'.panicked = false → y.numRetired + q'.inMemory.countP (·.req == r) = y.numIssued
  others : ∀ t, t ≠ r → q'.inMemory.countP (·.req == t) = q.inMemory.countP (·.req == t)
  panicked : q.panicked = true → q'.panicked = true
  retry : q'.needsRetry = true → ∀ t, q'.retryRequest = some t →
    (q'.reqs t).state = .storeBufferNeedsRetry → q.First t

namespace Ledger

variable {y : LsqRequest} {prm : LsqParams}

theorem changeSlot (ledger : q.Ledger) (base : q.Base prm) (change : q.SlotChange r y q') :
    q'.Ledger := by
  have self : q'.reqs r = y := by rw [change.reqs, update_self]
  have other : ∀ t, t ≠ r → q'.reqs t = q.reqs t := fun t ne => by
    rw [change.reqs, update_of_ne ne]
  have sent : ∀ t ∈ q.slots, (q.reqs t).sentAllPackets = true →
      (q'.reqs t).sentAllPackets = true := by
    intro t mem all
    by_cases same : t = r
    · rw [same, self]
      exact change.all (same ▸ all)
    · rw [other t same]
      exact all
  have first : ∀ s, q.First s → q'.First s := fun s first =>
    first.congr change.slots change.inserted sent
  have nodup : q.slots.Nodup := (List.nodup_append'.mp base.placed.nodup).2.1
  refine ⟨?_, ?_, ?_, ?_, ?_, ?_, ?_, ?_, ?_, ?_, ?_, ?_⟩
  · have count := countP_change (fun t => (q.reqs t).owes) (fun t => (q'.reqs t).owes) nodup
      change.mem fun t _ ne => by rw [other t ne]
    have unissued := change.unissued
    rw [self] at count
    rw [change.slots]
    rw [ledger.unissued] at unissued
    omega
  · intro t mem
    by_cases same : t = r
    · rw [same, self]
      exact change.slot
    · rw [other t same]
      exact ledger.slot t (change.slots ▸ mem)
  · intro t mem
    have before := ledger.counted t (change.slots ▸ mem)
    by_cases same : t = r
    · rw [same] at before ⊢
      rw [self]
      cases change.sends with
      | none accepted issued => rw [numAccepted, accepted, issued]; exact before
      | next accepted issued first more =>
        rw [numAccepted, accepted, issued, countP_append, countP_singleton]
        simp only [beq_self_eq_true]
        exact congrArg (· + 1) before
    · rw [other t same, ← before]
      cases change.sends with
      | none accepted issued => rw [numAccepted, accepted, numAccepted]
      | next accepted issued first more =>
        rw [numAccepted, accepted, numAccepted, countP_append, countP_singleton,
          if_neg, Nat.add_zero]
        exact fun own => same (beq_iff_eq.mp own).symm
  · intro alive t mem
    by_cases same : t = r
    · rw [same, self]
      exact change.flight alive
    · rw [other t same, change.others t same]
      refine ledger.flight ?_ t (change.slots ▸ mem)
      cases dead : q.panicked with
      | false => rfl
      | true => exact absurd (alive.symm.trans (change.panicked dead)) Bool.false_ne_true
  · intro t busy
    rw [change.slots]
    by_cases same : t = r
    · exact same ▸ change.mem
    · exact ledger.belongs t (other t same ▸ busy)
  · intro t mem
    rw [change.inserted] at mem
    rw [change.slots]
    by_cases same : t = r
    · exact .inl (same ▸ change.mem)
    · rw [other t same]
      exact ledger.done t mem
  · rw [change.inserted, change.nextReq, change.queue]
    exact ledger.known
  · rw [change.slots, change.inserted]
    exact ledger.slots
  · rw [change.slots]
    simp only [rank, change.inserted]
    exact ledger.ranks
  · intro e mem among
    rw [change.inserted] at among
    cases change.sends with
    | none accepted issued => exact first _ (ledger.ahead e (accepted ▸ mem) among)
    | next accepted issued turn more =>
      rw [accepted, mem_append, List.mem_singleton] at mem
      rcases mem with old | rfl
      · exact first _ (ledger.ahead e old among)
      · exact first _ turn
  · have order := ledger.order.imp (S := q'.SlotOrder) fun order => by
      rw [SlotOrder, change.inserted]
      exact order
    cases change.sends with
    | none accepted issued =>
      rw [accepted, change.inserted]
      exact order
    | next accepted issued turn more =>
      rw [accepted, change.inserted, filter_append]
      refine List.pairwise_append.mpr ⟨order, ?_, ?_⟩
      · exact List.Pairwise.filter _ (pairwise_singleton _ _)
      · intro e old new mem
        obtain ⟨rfl, -⟩ := (List.mem_filter.trans (and_congr_left' List.mem_singleton)).mp mem
        obtain ⟨old, among⟩ := List.mem_filter.mp old
        have among := of_decide_eq_true among
        rw [SlotOrder, change.inserted]
        rcases Nat.lt_trichotomy (q.rank e.1) (q.rank r) with before | same | after
        · exact .inr before
        · have same : e.1 = r := (idxOf_inj among).mp same
          exact .inl ⟨same, same ▸ (base.indices e old).2⟩
        · have all := ledger.ahead e old among r change.mem after
          exact absurd (more.symm.trans all) Bool.false_ne_true
  · intro needs t request state
    exact first t (change.retry needs t request state)

theorem drop (ledger : q.Ledger) (sub : q'.slots.Sublist q.slots) (reqs : q'.reqs = q.reqs)
    (queue : q'.queue ⊆ q.queue) (nextReq : q'.nextReq = q.nextReq)
    (inserted : q'.inserted = q.inserted) (accepted : q'.accepted = q.accepted) (packets :
    q'.panicked = false → q.panicked = false ∧ ∀ t, q'.inMemory.countP (·.req == t) =
    q.inMemory.countP (·.req == t))
    (unissued : q'.numUnissuedAccesses = q'.slots.countP fun r => (q.reqs r).owes)
    (gone : ∀ t ∈ q.slots, t ∈ q'.slots ∨ (q.reqs t).state = .complete) (retry : q'.needsRetry =
    true → ∀ t, q'.retryRequest = some t → q.needsRetry = true ∧ q.retryRequest = some t) :
    q'.Ledger := by
  have first : ∀ s, q.First s → q'.First s := by
    intro s first t mem earlier
    rw [rank, rank, inserted] at earlier
    rw [reqs]
    exact first t (sub.subset mem) earlier
  have numAccepted : ∀ t, q'.numAccepted t = q.numAccepted t := fun t => by
    rw [Lsq.numAccepted, accepted, Lsq.numAccepted]
  refine ⟨?_, ?_, ?_, ?_, ?_, ?_, ?_, ?_, ?_, ?_, ?_, ?_⟩
  · rw [reqs]
    exact unissued
  · intro t mem
    rw [reqs]
    exact ledger.slot t (sub.subset mem)
  · intro t mem
    rw [reqs, numAccepted]
    exact ledger.counted t (sub.subset mem)
  · intro alive t mem
    obtain ⟨alive, same⟩ := packets alive
    rw [reqs, same]
    exact ledger.flight alive t (sub.subset mem)
  · intro t busy
    rw [reqs] at busy
    refine (gone t (ledger.belongs t busy)).resolve_right fun complete => ?_
    simp [LsqRequest.InBuffer, complete] at busy
  · intro t mem
    rw [inserted] at mem
    rw [reqs]
    exact (ledger.done t mem).elim (gone t) .inr
  · rw [inserted, nextReq]
    exact fun t mem => (ledger.known t mem).imp_right fun away among => away (queue among)
  · rw [inserted]
    exact fun t mem => ledger.slots t (sub.subset mem)
  · simp only [rank, inserted]
    exact ledger.ranks.sublist sub
  · intro e mem among
    exact first _ (ledger.ahead e (accepted ▸ mem) (inserted ▸ among))
  · rw [accepted, inserted]
    refine ledger.order.imp fun order => ?_
    rw [SlotOrder, inserted]
    exact order
  · grind [retry]

theorem insert (ledger : q.Ledger) (base : q.Base prm) (fresh : r ∉ q.inserted)
    (unsent : ∀ e ∈ q.accepted, e.1 ≠ r) (reqs : q'.reqs = Function.update q.reqs r y)
    (slots : q'.slots = q.slots ++ [r]) (inserted : q'.inserted = q.inserted ++ [r])
    (accepted : q'.accepted = q.accepted) (inMemory : q'.inMemory = q.inMemory)
    (queue : ∀ t ∈ q'.queue, t ∈ q.queue ∧ t ≠ r) (nextReq : q.nextReq ≤ q'.nextReq)
    (known : r < q'.nextReq) (panicked : q'.panicked = q.panicked) (slot : y.Slot)
    (owes : y.owes = true) (zero : y.numIssued = 0 ∧ y.numRetired = 0)
    (calm : y.state ≠ .storeBufferNeedsRetry)
    (unissued : q'.numUnissuedAccesses = q.numUnissuedAccesses + 1)
    (retry : q'.needsRetry = q.needsRetry ∧ q'.retryRequest = q.retryRequest) : q'.Ledger := by
  have outside : r ∉ q.slots := fun mem => fresh (ledger.slots r mem)
  have self : q'.reqs r = y := by rw [reqs, update_self]
  have other : ∀ t, t ≠ r → q'.reqs t = q.reqs t := fun t ne => by
    rw [reqs, update_of_ne ne]
  have old : ∀ t ∈ q.slots, q'.reqs t = q.reqs t := fun t mem =>
    other t fun same => outside (same ▸ mem)
  have rank_old : ∀ t ∈ q.inserted, q'.rank t = q.rank t := fun t mem => by
    rw [rank, inserted, idxOf_append_of_mem mem, rank]
  have rank_new : ∀ t ∈ q.inserted, q'.rank t < q'.rank r := fun t mem => by
    rw [rank_old t mem, rank, rank, inserted, idxOf_append_of_notMem fresh]
    exact Nat.lt_of_lt_of_le (idxOf_lt_length_of_mem mem) (Nat.le_add_right _ _)
  have members : ∀ e ∈ q.accepted, e.1 ∈ q'.inserted → e.1 ∈ q.inserted := by grind
  have first : ∀ s ∈ q.inserted, q.First s → q'.First s := by
    intro s among first t mem earlier
    rw [slots, mem_append, List.mem_singleton] at mem
    rcases mem with there | rfl
    · rw [old t there]
      rw [rank_old t (ledger.slots t there), rank_old s among] at earlier
      exact first t there earlier
    · exact absurd earlier (Nat.lt_asymm (rank_new s among))
  have numAccepted : ∀ t, q'.numAccepted t = q.numAccepted t := fun t => by
    rw [Lsq.numAccepted, accepted, Lsq.numAccepted]
  refine ⟨?_, ?_, ?_, ?_, ?_, ?_, ?_, ?_, ?_, ?_, ?_, ?_⟩
  · rw [slots, countP_append, countP_singleton, self, if_pos owes, unissued,
      ledger.unissued]
    exact congrArg (· + 1) (List.countP_congr fun t mem => by rw [old t mem])
  · grind [slot]
  · intro t mem
    rw [slots, mem_append, List.mem_singleton] at mem
    rw [numAccepted]
    rcases mem with there | rfl
    · rw [old t there]
      exact ledger.counted t there
    · rw [self, zero.1]
      exact List.countP_eq_zero.mpr fun e mem own => unsent e mem (beq_iff_eq.mp own)
  · intro alive t mem
    rw [slots, mem_append, List.mem_singleton] at mem
    rw [inMemory]
    rcases mem with there | rfl
    · rw [old t there]
      exact ledger.flight (panicked ▸ alive) t there
    · rw [self, zero.1, zero.2, Nat.zero_add]
      exact List.countP_eq_zero.mpr fun p mem own => unsent _ (base.flying p mem) (beq_iff_eq.mp own)
  · intro t busy
    rw [slots, mem_append, List.mem_singleton]
    by_cases same : t = r
    · exact .inr same
    · exact .inl (ledger.belongs t (other t same ▸ busy))
  · intro t mem
    rw [slots, mem_append, List.mem_singleton]
    rw [inserted, mem_append, List.mem_singleton] at mem
    rcases mem with there | same
    · rw [other t fun same => fresh (same ▸ there)]
      exact (ledger.done t there).imp_left .inl
    · exact .inl (.inr same)
  · intro t mem
    rw [inserted, mem_append, List.mem_singleton] at mem
    rcases mem with there | rfl
    · obtain ⟨below, away⟩ := ledger.known t there
      exact ⟨Nat.lt_of_lt_of_le below nextReq, fun among => away (queue t among).1⟩
    · exact ⟨known, fun among => (queue t among).2 rfl⟩
  · grind [slots]
  · rw [slots]
    refine List.pairwise_append.mpr ⟨ledger.ranks.imp_of_mem ?_, pairwise_singleton _ _, ?_⟩
    · intro s t mem also before
      rw [rank_old s (ledger.slots s mem), rank_old t (ledger.slots t also)]
      exact before
    · intro s mem t new
      obtain rfl := List.mem_singleton.mp new
      exact rank_new s (ledger.slots s mem)
  · intro e mem among
    rw [accepted] at mem
    have there := members e mem among
    exact first _ there (ledger.ahead e mem there)
  · have kept : q'.accepted.filter (fun e => decide (e.1 ∈ q'.inserted))
        = q.accepted.filter fun e => decide (e.1 ∈ q.inserted) := by
      rw [accepted]
      refine List.filter_congr fun e mem => decide_eq_decide.mpr ⟨members e mem, fun among => ?_⟩
      rw [inserted]
      exact mem_append_left _ among
    rw [kept]
    refine ledger.order.imp_of_mem fun {a b} one two order => ?_
    have a_in := of_decide_eq_true (List.mem_filter.mp one).2
    have b_in := of_decide_eq_true (List.mem_filter.mp two).2
    exact order.imp_right fun before => by
      rw [← rank, ← rank, rank_old _ a_in, rank_old _ b_in]
      exact before
  · intro needs t request state
    rw [retry.1] at needs
    rw [retry.2] at request
    have notOwn : t ≠ r := fun same => calm (self ▸ same ▸ state)
    rw [other t notOwn] at state
    have there := ledger.slots t (ledger.belongs t (.inr (.inr state)))
    exact first t there (ledger.retry needs t request state)

end Ledger

end Lsq

end Gem5.Minor
