import Gem5.Minor.Queue

/-!
# Accesses that are not bufferable

Such an access is started only for the head of its thread, in the right stream. The
invariant says that it keeps both until its response is handled, as long as the thread
does not drain under it.
-/

namespace Gem5.Minor

open List Function

variable {r : ReqId} {tid : Nat} {i : InstId} {e : Execute.Event}

/-- What never changes in a request. -/
structure Label where
  inst : InstId
  instIsBarrier : Bool
  kind : ReqKind
  isLoad : Bool

def LsqRequest.label (x : LsqRequest) : Label := ⟨x.inst, x.instIsBarrier, x.kind, x.isLoad⟩

namespace Lsq

variable {cfg : Config} {prm : LsqParams} {view : View} {allow : InstId → Prop} {q q' : Lsq}

theorem field_of_update {α : Type} (g : LsqRequest → α) {x : LsqRequest}
    (reqs : q'.reqs = Function.update q.reqs r x) (same : g x = g (q.reqs r)) (t : ReqId) :
    g (q'.reqs t) = g (q.reqs t) := by
  rw [reqs]
  by_cases h : t = r
  · subst h
    rw [update_self, same]
  · rw [update_of_ne h]

theorem forward_reqs (q : Lsq) (r s : ReqId) :
    ((q.forwardStoreData r s).skipAccess r).reqs = Function.update q.reqs r { q.reqs r with
      loaded := fun i => (q.reqs s).data (i + ((q.reqs r).paddr - (q.reqs s).paddr))
      state := .complete } := by
  simp [moveFromRequestsToTransfers, skipAccess, setState, forwardStoreData, update]

theorem resend_reqs (q : Lsq) (r : ReqId) (s t : ReqState) :
    ((q.resume r s).sendPacket r t).reqs =
      Function.update q.reqs r { (q.reqs r).stepToNextPacket with state := t } := by
  simp [sendPacket, resume, setState, update, LsqRequest.stepToNextPacket]

theorem label_translate (x : LsqRequest) (a : Translation) : (x.translate a).label = x.label := by
  obtain ⟨inst, isLoad, -, kind, barrier⟩ := x.translate_same a
  simp [LsqRequest.label, inst, isLoad, kind, barrier]

theorem label_retireResponse (x : LsqRequest) (k : Nat) (bytes : Nat → Byte) :
    (x.retireResponse k bytes).label = x.label := by
  simp only [LsqRequest.retireResponse]
  split
  next kind => simp [LsqRequest.label]
  next kind => grind [LsqRequest.label]
  next => rfl

theorem Act.request (act : Act prm view allow q q') :
    ∃ r x, q'.reqs = Function.update q.reqs r x ∧ x.label = (q.reqs r).label := by
  have same : ∀ p : Lsq, p.reqs = q.reqs →
      ∃ r x, p.reqs = Function.update q.reqs r x ∧ x.label = (q.reqs r).label :=
    fun p h => ⟨0, q.reqs 0, by rw [h, update_eq_self], rfl⟩
  cases act with
  | translate a state => exact ⟨_, _, rfl, label_translate _ a⟩
  | skip | toBuffer | skipAccess | claim | send | ipr | refuse | resume =>
    refine ⟨_, _, rfl, ?_⟩
    rfl
  | forward =>
    refine ⟨_, _, forward_reqs .., ?_⟩
    rfl
  | advance | tally | fail => exact same _ rfl
  | resend =>
    refine ⟨_, _, resend_reqs .., ?_⟩
    rfl
  | clearBarrier => grind [clearMemBarrier]

theorem Act.label (act : Act prm view allow q q') (t : ReqId) :
    (q'.reqs t).label = (q.reqs t).label := by
  obtain ⟨r, x, reqs, same⟩ := act.request
  exact field_of_update (·.label) reqs same t

theorem move_queue (front : q.requests.head? = some r) :
    (q.moveFromRequestsToTransfers r).queue = q.queue := by
  obtain ⟨rest, requests⟩ := List.head?_eq_some_iff.mp front
  simp [queue, moveFromRequestsToTransfers, requests]

theorem Act.queue (act : Act prm view allow q q') : q'.queue = q.queue := by
  cases act with
  | translate | claim | send | ipr | refuse | resume | resend | tally | fail => rfl
  | skip front => exact move_queue front
  | toBuffer front => exact move_queue front.front
  | forward front => exact move_queue front.front
  | skipAccess front => exact move_queue front.front
  | advance front => exact move_queue front
  | clearBarrier =>
    simp only [clearMemBarrier]
    split <;> rfl

/-- Only a claim starts an access. -/
inductive Claims (prm : LsqParams) (view : View) (allow : InstId → Prop) (q q' : Lsq) : Prop where
  | none (issued : ∀ t, (q'.reqs t).issuedToMemory = (q.reqs t).issuedToMemory)
      (count : q'.numAccessesIssuedToMemory = q.numAccessesIssuedToMemory)
  | one {r : ReqId} (front : q.requests.head? = some r)
      (stream : view.instIsRightStream (q.reqs r).inst = true)
      (head : view.instIsHeadInst (q.reqs r).inst = true) (allowed : allow (q.reqs r).inst)
      (unissued : (q.reqs r).issuedToMemory = false)
      (issued : ∀ t, (q'.reqs t).issuedToMemory = (decide (t = r) || (q.reqs t).issuedToMemory))
      (count : q'.numAccessesIssuedToMemory = q.numAccessesIssuedToMemory + 1)

theorem Act.claims (act : Act prm view allow q q') : Claims prm view allow q q' := by
  cases act with
  | translate a state =>
    exact .none (field_of_update (·.issuedToMemory) rfl (LsqRequest.translate_same _ a).2.2.1) rfl
  | @claim r front bufferable head unissued allowed =>
    refine .one front.front front.stream head allowed unissued (fun t => ?_) rfl
    by_cases h : t = r
    · subst h
      simp
    · simp [update, h]
  | forward => exact .none (field_of_update (·.issuedToMemory) (forward_reqs ..) rfl) rfl
  | resend => exact .none (field_of_update (·.issuedToMemory) (resend_reqs ..) rfl) rfl
  | clearBarrier =>
    simp only [clearMemBarrier]
    split <;> exact .none (fun _ => rfl) rfl
  | advance | tally | fail => exact .none (fun _ => rfl) rfl
  | skip | toBuffer | skipAccess | send | ipr | refuse | resume =>
    refine .none (field_of_update (·.issuedToMemory) rfl ?_) rfl
    rfl

/-- The instructions of the queue, and whether their accesses have started. -/
def accesses (q : Lsq) : List (InstId × Bool) :=
  q.queue.map fun r => ((q.reqs r).inst, (q.reqs r).issuedToMemory)

theorem accesses_congr (queue : q'.queue = q.queue) (reqs : ∀ r ∈ q.queue, (q'.reqs r).inst =
    (q.reqs r).inst ∧ (q'.reqs r).issuedToMemory = (q.reqs r).issuedToMemory) :
    q'.accesses = q.accesses := by
  rw [accesses, accesses, queue]
  refine map_congr_left fun r inside => ?_
  rw [(reqs r inside).1, (reqs r inside).2]

/-- What an act does to the accesses: nothing, or it starts the one at the front. -/
inductive Starts (view : View) (allow : InstId → Prop) (q q' : Lsq) : Prop where
  | none (accesses : q'.accesses = q.accesses)
      (count : q'.numAccessesIssuedToMemory = q.numAccessesIssuedToMemory)
  | one (before after : List (InstId × Bool)) (i : InstId)
      (accesses : q.accesses = before ++ (i, false) :: after)
      (started : q'.accesses = before ++ (i, true) :: after)
      (count : q'.numAccessesIssuedToMemory = q.numAccessesIssuedToMemory + 1)
      (stream : view.instIsRightStream i = true) (head : view.instIsHeadInst i = true)
      (allowed : allow i)

theorem Act.starts (act : Act prm view allow q q') (placed : q.Placed) :
    Starts view allow q q' := by
  have inst : ∀ t, (q'.reqs t).inst = (q.reqs t).inst :=
    fun t => congrArg Label.inst (act.label t)
  cases act.claims with
  | none issued count =>
    exact .none (accesses_congr act.queue fun t _ => ⟨inst t, issued t⟩) count
  | @one r front stream head allowed unissued issued count =>
    obtain ⟨rest, requests⟩ := List.head?_eq_some_iff.mp front
    have queue : q.queue = q.transfers ++ r :: rest := by rw [Lsq.queue, requests]
    have nodup : (q.transfers ++ r :: rest).Nodup := queue ▸ (List.nodup_append'.mp placed.nodup).1
    have kept : ∀ t ∈ q.transfers ++ rest,
        ((q'.reqs t).inst, (q'.reqs t).issuedToMemory) =
          ((q.reqs t).inst, (q.reqs t).issuedToMemory) := by
      intro t inside
      have other : t ≠ r := by grind
      rw [inst, issued]
      simp [other]
    refine .one
      (q.transfers.map fun t => ((q.reqs t).inst, (q.reqs t).issuedToMemory))
      (rest.map fun t => ((q.reqs t).inst, (q.reqs t).issuedToMemory)) (q.reqs r).inst
      ?_ ?_ count stream head allowed
    · rw [accesses, queue, map_append, List.map_cons, unissued]
    · rw [accesses, act.queue, queue, map_append, List.map_cons, inst, issued]
      rw [map_congr_left fun t inside => kept t (mem_append_left _ inside),
        map_congr_left fun t inside => kept t (mem_append_right _ inside)]
      simp

theorem Received.accesses {p : Packet} {left : List Packet} (received : Received q p left q') :
    q'.accesses = q.accesses ∧ q'.numAccessesIssuedToMemory = q.numAccessesIssuedToMemory := by
  cases received with
  | failed => exact ⟨rfl, rfl⟩
  | retired =>
    obtain ⟨inst, -, -, issued, -⟩ := (q.reqs p.req).retireResponse_same p.frag p.bytes
    refine ⟨accesses_congr rfl fun t _ => ⟨?_, ?_⟩, rfl⟩
    · exact field_of_update (·.inst) rfl inst t
    · exact field_of_update (·.issuedToMemory) rfl issued t

theorem perform_accesses (k : Nat) (bytes : Nat → Byte) :
    (q.perform k bytes).accesses = q.accesses
      ∧ (q.perform k bytes).numAccessesIssuedToMemory = q.numAccessesIssuedToMemory := by
  rw [perform]
  split
  · exact ⟨rfl, rfl⟩
  · split <;> exact ⟨rfl, rfl⟩

theorem pushed_accesses {inst : InstId} {barrier : Bool} (pushed : Pushed cfg q inst barrier q')
    (placed : q.Placed) :
    q'.accesses = q.accesses ++ [(inst, false)]
      ∧ q'.numAccessesIssuedToMemory = q.numAccessesIssuedToMemory := by
  have general : ∀ x : LsqRequest, x.inst = inst → x.issuedToMemory = false →
      ({ q.create x with requests := q.requests ++ [q.nextReq] } : Lsq).accesses =
        q.accesses ++ [(inst, false)] := by
    intro x own unissued
    have queue : ({ q.create x with requests := q.requests ++ [q.nextReq] } : Lsq).queue =
        q.queue ++ [q.nextReq] := by
      simp [Lsq.queue, create]
    rw [Lsq.accesses, queue, map_append, List.map_singleton]
    congr 1
    · refine map_congr_left fun t inside => ?_
      have other := placed.known_ne (mem_append_left q.slots inside)
      simp [create, other]
    · simp [create, own, unissued]
  cases pushed with
  | failed | access => exact ⟨general _ rfl rfl, rfl⟩

theorem popResponse_accesses (front : q.transfers.head? = some r) :
    q.accesses = ((q.reqs r).inst, (q.reqs r).issuedToMemory) :: (q.popResponse r).accesses
      ∧ (q.popResponse r).numAccessesIssuedToMemory =
        if (q.reqs r).issuedToMemory then dec q.numAccessesIssuedToMemory
        else q.numAccessesIssuedToMemory := by
  obtain ⟨rest, transfers⟩ := List.head?_eq_some_iff.mp front
  simp [accesses, queue, popResponse, transfers]

theorem insert_accesses (q : Lsq) (r : ReqId) : (q.insert r).accesses = q.accesses := by
  refine accesses_congr rfl fun t _ => ⟨?_, ?_⟩
  · refine field_of_update (·.inst) rfl ?_ t
    rfl
  · refine field_of_update (·.issuedToMemory) rfl ?_ t
    rfl

theorem handled_accesses {head : InstId} {stored : Bool}
    (response : q.findResponse prm head = some r) (handled : Handled q r stored q') :
    q.accesses = (head, (q.reqs r).issuedToMemory) :: q'.accesses
      ∧ q'.numAccessesIssuedToMemory =
        if (q.reqs r).issuedToMemory then dec q.numAccessesIssuedToMemory
        else q.numAccessesIssuedToMemory := by
  obtain ⟨front, own, -⟩ := findResponse_cases response
  cases handled with
  | plain =>
    rw [← own]
    exact popResponse_accesses front
  | stored =>
    have popped := popResponse_accesses (q := q.insert r) front
    have kept : ((q.insert r).reqs r).inst = (q.reqs r).inst
        ∧ ((q.insert r).reqs r).issuedToMemory = (q.reqs r).issuedToMemory := by
      simp [insert]
    rw [insert_accesses, kept.1, kept.2, own] at popped
    exact popped

theorem completeMemBarrierInst_accesses (placed : q.Placed) (inst : InstId)
    (inStoreBuffer committed : Bool) :
    (q.completeMemBarrierInst inst inStoreBuffer committed).accesses = q.accesses
      ∧ (q.completeMemBarrierInst inst inStoreBuffer committed).numAccessesIssuedToMemory =
        q.numAccessesIssuedToMemory := by
  rw [completeMemBarrierInst]
  split
  · split
    · exact ⟨rfl, rfl⟩
    · refine ⟨?_, rfl⟩
      rw [insert_accesses]
      refine accesses_congr rfl fun t inside => ?_
      have other := placed.known_ne (mem_append_left q.slots inside)
      simp [create, other]
  · rw [clearMemBarrier]
    split <;> exact ⟨rfl, rfl⟩

end Lsq

namespace Core

/-- The instruction cannot be discarded: it is the head of its thread in the right stream,
and the thread is not about to halt. -/
structure Holds (c : Core) (i : InstId) : Prop where
  head : (c.threads i.threadId).inFlightInsts.head? = some i
  stream : i.streamSeqNum = (c.threads i.threadId).streamSeqNum
  running : (c.threads i.threadId).drainState = .notDraining
    ∨ (c.threads i.threadId).drainState = .drainCurrentInst

/-- The instructions of the queue, and those whose accesses have started. -/
structure Claimed (c : Core) : Prop where
  numbered : ∀ i, (c.insts i).memRef = true →
    i.execSeqNum < (c.threads i.threadId).nextExecSeqNum
  inLSQ : ∀ a ∈ c.lsq.accesses, (c.insts a.1).inLSQ = true ∧ (c.insts a.1).memRef = true
  single : (c.lsq.accesses.map Prod.fst).Nodup
  holds : ∀ i, (i, true) ∈ c.lsq.accesses → c.Holds i
  count : c.lsq.numAccessesIssuedToMemory = c.lsq.accesses.countP (·.2)

variable {c d : Core}

theorem Claimed.none_of_inbetween (claimed : c.Claimed)
    (between : c.inbetween tid = true) (i : InstId) : (i, true) ∉ c.lsq.accesses := by
  intro started
  simp only [inbetween, Lsq.accessesInFlight, Bool.and_eq_true, Bool.not_eq_eq_eq_not,
    Bool.not_true, bne_eq_false_iff_eq] at between
  have some : 0 < c.lsq.accesses.countP (·.2) := List.countP_pos_iff.mpr ⟨_, started, rfl⟩
  have count := claimed.count
  omega

theorem Claimed.keep (claimed : c.Claimed) (accesses : d.lsq.accesses = c.lsq.accesses)
    (count : d.lsq.numAccessesIssuedToMemory = c.lsq.numAccessesIssuedToMemory) (numbered : ∀ i,
    (d.insts i).memRef = true → i.execSeqNum < (d.threads i.threadId).nextExecSeqNum) (inLSQ : ∀ a ∈
    c.lsq.accesses, (c.insts a.1).inLSQ = true → (c.insts a.1).memRef = true → (d.insts a.1).inLSQ =
    true ∧ (d.insts a.1).memRef = true)
    (holds : ∀ i, (i, true) ∈ c.lsq.accesses → c.Holds i → d.Holds i) : d.Claimed  where
  numbered := numbered
  inLSQ a inside := by
    rw [accesses] at inside
    obtain ⟨own, memRef⟩ := claimed.inLSQ a inside
    exact inLSQ a inside own memRef
  single := accesses ▸ claimed.single
  holds i inside := by
    rw [accesses] at inside
    exact holds i inside (claimed.holds i inside)
  count := by
    rw [count, accesses]
    exact claimed.count

/-- The state of the drain that lets an access of the instruction start. -/
def Running (c : Core) (i : InstId) : Prop :=
  (c.threads i.threadId).drainState = .notDraining
    ∨ (c.threads i.threadId).drainState = .drainCurrentInst

theorem Claimed.act {prm : LsqParams} {q : Lsq} (claimed : c.Claimed) (placed : c.lsq.Placed)
    (act : Lsq.Act prm c.view c.Running c.lsq q) : ({ c with lsq := q } : Core).Claimed := by
  cases act.starts placed with
  | none accesses count =>
    exact claimed.keep accesses count claimed.numbered (fun _ _ own memRef => ⟨own, memRef⟩)
      fun _ _ holds => ⟨holds.head, holds.stream, holds.running⟩
  | one before after i accesses started count stream head allowed =>
    have members : ∀ a ∈ q.accesses, a = (i, true) ∨ a ∈ c.lsq.accesses := by grind
    have old : (i, false) ∈ c.lsq.accesses := by
      rw [accesses]
      simp
    refine ⟨claimed.numbered, ?_, ?_, ?_, ?_⟩
    · intro a inside
      rcases members a inside with rfl | inside
      · exact claimed.inLSQ (i, false) old
      · exact claimed.inLSQ a inside
    · have single := claimed.single
      rw [accesses] at single
      have same : (q.accesses.map Prod.fst) = (before ++ (i, false) :: after).map Prod.fst := by
        rw [started]
        simp
      exact same ▸ single
    · intro j inside
      rcases members _ inside with same | inside
      · obtain rfl : j = i := congrArg Prod.fst same
        exact ⟨beq_iff_eq.mp head, beq_iff_eq.mp stream, allowed⟩
      · have holds := claimed.holds j inside
        exact ⟨holds.head, holds.stream, holds.running⟩
    · have before := claimed.count
      rw [accesses] at before
      rw [count, before, started]
      simp
      omega

theorem Claimed.acts {prm : LsqParams} {q : Lsq} (claimed : c.Claimed) (placed : c.lsq.Placed)
    (acts : Lsq.Acts prm c.view c.Running c.lsq q) :
    ({ c with lsq := q } : Core).Claimed := by
  suffices both : q.Placed ∧ ({ c with lsq := q } : Core).Claimed from both.2
  induction acts with
  | refl => exact ⟨placed, claimed⟩
  | tail _ act ih => exact ⟨act.placed ih.1, ih.2.act ih.1 act⟩

/-- No access of the thread is under way. -/
def Quiet (c : Core) (tid : Nat) : Prop := ∀ j, (j, true) ∈ c.lsq.accesses → j.threadId ≠ tid

theorem Holds.of_other (holds : c.Holds i)
    (same : d.threads i.threadId = c.threads i.threadId) : d.Holds i :=
  ⟨same ▸ holds.head, same ▸ holds.stream, same ▸ holds.running⟩

theorem Claimed.setInst {x : Sketch} (claimed : c.Claimed) (memRef : x.memRef = (c.insts i).memRef)
    (inLSQ : (c.insts i).inLSQ = true → x.inLSQ = true) : (c.setInst i x).Claimed := by
  have kept : ∀ j, ((c.setInst i x).insts j).memRef = (c.insts j).memRef
      ∧ ((c.insts j).inLSQ = true → ((c.setInst i x).insts j).inLSQ = true) := by
    intro j
    by_cases h : j = i
    · subst h
      simpa [Core.setInst] using ⟨memRef, inLSQ⟩
    · simp [Core.setInst, h]
  refine claimed.keep rfl rfl ?_ ?_ fun _ _ holds => ⟨holds.head, holds.stream, holds.running⟩
  · intro j reference
    rw [(kept j).1] at reference
    exact claimed.numbered j reference
  · grind

theorem Claimed.setLine {t : Line} (claimed : c.Claimed)
    (next : (c.threads tid).nextExecSeqNum ≤ t.nextExecSeqNum) (holds : ∀ i, (i, true) ∈
    c.lsq.accesses → i.threadId = tid → c.Holds i → t.inFlightInsts.head? = some i ∧ i.streamSeqNum
    = t.streamSeqNum ∧ (t.drainState = .notDraining ∨ t.drainState = .drainCurrentInst)) :
    (c.setLine tid t).Claimed := by
  refine claimed.keep rfl rfl ?_ (fun _ _ own memRef => ⟨own, memRef⟩) ?_
  · intro i reference
    have before := claimed.numbered i reference
    rw [setLine_threads]
    split
    next h => exact Nat.lt_of_lt_of_le before (h ▸ next)
    next => exact before
  · intro i started here
    by_cases h : i.threadId = tid
    · obtain ⟨head, stream, running⟩ := holds i started h here
      have line : (c.setLine tid t).threads i.threadId = t := by
        rw [setLine_threads, if_pos h]
      refine ⟨?_, ?_, ?_⟩
      · rw [line]
        exact head
      · rw [line]
        exact stream
      · rw [line]
        exact running
    · exact here.of_other (by rw [setLine_threads, if_neg h])

theorem Claimed.turnIf {change : Bool} (claimed : c.Claimed) (quiet : c.Quiet tid) :
    (c.turnIf tid change).Claimed := by
  cases change
  · exact claimed
  · exact claimed.setLine (Nat.le_refl _) fun i started own => absurd own (quiet i started)

theorem Claimed.retire {committed : Bool} (claimed : c.Claimed)
    (placed : c.lsq.Placed) (quiet : c.Quiet tid) : (c.retire tid i committed).Claimed := by
  have popped : (c.setLine tid { c.threads tid with
      ended := (c.insts i).ends
      inFlightInsts := (c.threads tid).inFlightInsts.tail }).Claimed :=
    claimed.setLine (Nat.le_refl _) fun i started own => absurd own (quiet i started)
  have barrier : (c.retire tid i committed).lsq.accesses = c.lsq.accesses
      ∧ (c.retire tid i committed).lsq.numAccessesIssuedToMemory =
        c.lsq.numAccessesIssuedToMemory := by
    simp only [Core.retire]
    split
    · exact Lsq.completeMemBarrierInst_accesses placed ..
    · exact ⟨rfl, rfl⟩
  exact popped.keep barrier.1 barrier.2 popped.numbered (fun _ _ own memRef => ⟨own, memRef⟩)
    fun _ _ holds => ⟨holds.head, holds.stream, holds.running⟩

theorem Claimed.pop {head : InstId} {issued : Bool} {q : Lsq} (claimed : c.Claimed)
    (accesses : c.lsq.accesses = (head, issued) :: q.accesses)
    (count : q.numAccessesIssuedToMemory =
      if issued then Lsq.dec c.lsq.numAccessesIssuedToMemory
      else c.lsq.numAccessesIssuedToMemory) :
    ({ c with lsq := q } : Core).Claimed := by
  have sub : ∀ a ∈ q.accesses, a ∈ c.lsq.accesses := by grind
  refine ⟨claimed.numbered, fun a inside => claimed.inLSQ a (sub a inside), ?_, ?_, ?_⟩
  · have single := claimed.single
    rw [accesses, List.map_cons, List.nodup_cons] at single
    exact single.2
  · intro i inside
    have holds := claimed.holds i (sub _ inside)
    exact ⟨holds.head, holds.stream, holds.running⟩
  · have before := claimed.count
    rw [accesses, List.countP_cons] at before
    rw [count, before]
    cases issued
    · simp
    · simp [Lsq.dec]

theorem Claimed.quiet_of_pop {head : InstId} {issued : Bool} {q : Lsq}
    {rest : List InstId} (claimed : c.Claimed)
    (inFlight : (c.threads tid).inFlightInsts = head :: rest)
    (accesses : c.lsq.accesses = (head, issued) :: q.accesses) :
    ({ c with lsq := q } : Core).Quiet tid := by
  intro j inside own
  have holds := claimed.holds j (accesses ▸ List.mem_cons_of_mem _ inside)
  have same : head = j := by
    have first := holds.head
    rw [own, inFlight] at first
    exact Option.some.inj first
  have single := claimed.single
  rw [accesses, List.map_cons, List.nodup_cons] at single
  exact single.1 (List.mem_map.mpr ⟨_, inside, same.symm⟩)

theorem Claimed.quiet_of_outside {head : InstId} {rest : List InstId}
    (claimed : c.Claimed) (inFlight : (c.threads tid).inFlightInsts = head :: rest)
    (outside : (c.insts head).inLSQ = false) : c.Quiet tid := by
  intro j inside own
  have holds := claimed.holds j inside
  have same : head = j := by
    have first := holds.head
    rw [own, inFlight] at first
    exact Option.some.inj first
  have inLSQ := (claimed.inLSQ _ inside).1
  rw [← same, outside] at inLSQ
  contradiction

end Core


theorem Core.Claimed.logCommit {c : Core} (claimed : c.Claimed) : (c.logCommit i).Claimed:=
  claimed.keep rfl rfl claimed.numbered (fun _ _ own memRef => ⟨own, memRef⟩)
    fun _ _ holds => ⟨holds.head, holds.stream, holds.running⟩

theorem Core.Claimed.logDiscard {c : Core} (claimed : c.Claimed) : (c.logDiscard i).Claimed:=
  claimed.keep rfl rfl claimed.numbered (fun _ _ own memRef => ⟨own, memRef⟩)
    fun _ _ holds => ⟨holds.head, holds.stream, holds.running⟩

theorem Core.Claimed.arrive {c : Core} {tid stream : Nat} {x : Sketch} (claimed : c.Claimed) :
    ((c.setInst ⟨tid, stream, (c.threads tid).nextExecSeqNum⟩ x).setLine tid
      { c.threads tid with
        input := (c.threads tid).input ++ [⟨tid, stream, (c.threads tid).nextExecSeqNum⟩]
        nextExecSeqNum := (c.threads tid).nextExecSeqNum + 1 }).Claimed := by
  have unknown : ∀ i, (c.insts i).memRef = true →
      i ≠ ⟨tid, stream, (c.threads tid).nextExecSeqNum⟩ := by
    rintro i memRef rfl
    exact absurd (claimed.numbered _ memRef) (Nat.lt_irrefl _)
  refine claimed.keep rfl rfl ?_ ?_ ?_
  · intro i memRef
    rw [Core.setLine_threads]
    by_cases new : i = ⟨tid, stream, (c.threads tid).nextExecSeqNum⟩
    · subst new
      simp
    · have old : (c.insts i).memRef = true := by simpa [Core.setLine, Core.setInst, new] using memRef
      have before := claimed.numbered i old
      split
      next h => exact Nat.lt_succ_of_lt (h ▸ before)
      next => exact before
  · intro a _ own memRef
    simpa [Core.setLine, Core.setInst, unknown a.1 memRef] using ⟨own, memRef⟩
  · intro i _ holds
    by_cases h : i.threadId = tid
    · subst h
      refine ⟨?_, ?_, ?_⟩
      · rw [Core.setLine_threads, if_pos rfl]
        exact holds.head
      · rw [Core.setLine_threads, if_pos rfl]
        exact holds.stream
      · rw [Core.setLine_threads, if_pos rfl]
        exact holds.running
    · refine holds.of_other ?_
      rw [Core.setLine_threads, if_neg h]
      rfl

theorem Core.Claimed.push {c : Core} {i : InstId} {q : Lsq} (claimed : c.Claimed)
    (memRef : (c.insts i).memRef = true) (outside : (c.insts i).inLSQ = false)
    (accesses : q.accesses = c.lsq.accesses ++ [(i, false)])
    (count : q.numAccessesIssuedToMemory = c.lsq.numAccessesIssuedToMemory) :
    (({ c with lsq := q } : Core).enterLSQ i).Claimed := by
  have kept : ∀ j, ((({ c with lsq := q } : Core).enterLSQ i).insts j).memRef = (c.insts j).memRef
      ∧ ((c.insts j).inLSQ = true →
        ((({ c with lsq := q } : Core).enterLSQ i).insts j).inLSQ = true) := by
    intro j
    by_cases h : j = i
    · subst h
      simp [Core.enterLSQ, Core.setInst]
    · simp [Core.enterLSQ, Core.setInst, h]
  have own : ((({ c with lsq := q } : Core).enterLSQ i).insts i).inLSQ = true := by
    simp [Core.enterLSQ, Core.setInst]
  refine ⟨?_, ?_, ?_, ?_, ?_⟩
  · intro j reference
    rw [(kept j).1] at reference
    exact claimed.numbered j reference
  · intro a inside
    rcases List.mem_append.mp (accesses ▸ inside) with old | new
    · obtain ⟨inLSQ, reference⟩ := claimed.inLSQ a old
      exact ⟨(kept a.1).2 inLSQ, (kept a.1).1.trans reference⟩
    · grind
  · change (q.accesses.map Prod.fst).Nodup
    rw [accesses, map_append, nodup_append']
    refine ⟨claimed.single, List.nodup_singleton _, ?_⟩
    intro j inside new
    obtain ⟨a, old, rfl⟩ := List.mem_map.mp inside
    obtain rfl : a.1 = i := by simpa using new
    have inLSQ := (claimed.inLSQ a old).1
    rw [outside] at inLSQ
    contradiction
  · intro j inside
    rcases List.mem_append.mp (accesses ▸ inside) with old | new
    · have holds := claimed.holds j old
      exact ⟨holds.head, holds.stream, holds.running⟩
    · simp at new
  · change q.numAccessesIssuedToMemory = q.accesses.countP (·.2)
    rw [count, accesses, countP_append, claimed.count]
    simp

/-- The accesses that an event may start belong to threads that are not about to halt. -/
def Execute.Spares (cfg : Config) (s : Execute) (e : Execute.Event) : Prop :=
  s.core.Permits cfg e s.core.Running

theorem AtHead.thread {o : Execute} {c : Core} {loop : CommitLoop} {head : InstId}
    (round : AtHead o e c loop head) (ordered : c.Ordered) : head.threadId = loop.tid := by
  obtain ⟨rest, inFlight⟩ := round.inFlight
  refine (ordered loop.tid).thread head (mem_append_left _ ?_)
  rw [inFlight]
  exact List.mem_cons_self

theorem Core.Claimed.quiet_of_discard {o : Execute} {c : Core}
    {loop : CommitLoop} {head : InstId} (claimed : c.Claimed) (steady : o.Steady)
    (round : AtHead o e c loop head) (discards : loop.discard = true) : c.Quiet loop.tid := by
  intro j started own
  have running := (claimed.holds j started).running
  have state := steady.draining loop round.phase discards
  rw [round.origin, own] at running
  simp [Execute.core, ThreadInfo.line, state] at running

theorem Move.claimed {cfg : Config} {o : Execute} {c c' : Core}
    (move : Move cfg o e c c') (steady : o.Steady) (spares : o.Spares cfg e) (ordered : c.Ordered)
    (placed : c.lsq.Placed) (claimed : c.Claimed) : c'.Claimed := by
  cases move with
  | arrive => exact claimed.arrive
  | finish event origin state =>
    subst origin
    exact claimed.acts placed (Lsq.finish_acts _ _ state (spares.finish _ _ _ event))
  | perform =>
    obtain ⟨accesses, count⟩ := Lsq.perform_accesses (q := c.lsq) _ _
    exact claimed.keep accesses count claimed.numbered (fun _ _ own memRef => ⟨own, memRef⟩)
      fun _ _ holds => ⟨holds.head, holds.stream, holds.running⟩
  | respond event found performed =>
    obtain ⟨accesses, count⟩ := (Lsq.recvTimingResp_received found).accesses
    exact claimed.keep accesses count claimed.numbered (fun _ _ own memRef => ⟨own, memRef⟩)
      fun _ _ holds => ⟨holds.head, holds.stream, holds.running⟩
  | retry event origin needs =>
    exact claimed.acts placed (Lsq.recvReqRetry_acts _ needs placed.retry)
  | evaluate event origin =>
    subst origin
    exact claimed.acts placed (Lsq.step_acts _ _ fun r => spares.evaluate _ _ r event)
  | drain =>
    refine claimed.keep rfl rfl ?_ (fun _ _ own memRef => ⟨own, memRef⟩) ?_
    · intro i memRef
      have before := claimed.numbered i memRef
      dsimp only
      split <;> exact before
    · intro i started holds
      -- An access under way keeps its thread from halting at once.
      have busy : c.inbetween i.threadId = false := by
        by_contra between
        exact claimed.none_of_inbetween (by simpa using between) i started
      refine ⟨?_, ?_, ?_⟩
      · dsimp only
        split <;> exact holds.head
      · dsimp only
        split <;> exact holds.stream
      · dsimp only
        split
        · simp [busy]
        · exact holds.running
  | drainResume =>
    exact claimed.keep rfl rfl claimed.numbered (fun _ _ own memRef => ⟨own, memRef⟩)
      fun _ _ holds => ⟨holds.head, holds.stream, .inl rfl⟩
  | drained state between =>
    exact claimed.setLine (Nat.le_refl _) fun i started =>
      absurd started (claimed.none_of_inbetween between i)
  | @haltFetch tid state =>
    have quiet : c.Quiet tid := by
      rintro j started rfl
      have running := (claimed.holds j started).running
      simp [state] at running
    have turned : (c.turnIf tid true).Claimed := claimed.turnIf quiet
    exact turned.setLine (Nat.le_refl _) fun i started own => absurd own (quiet i started)
  | turn between =>
    exact claimed.setLine (Nat.le_refl _) fun i started =>
      absurd started (claimed.none_of_inbetween between i)
  | clearInput =>
    exact claimed.setLine (Nat.le_refl _) fun i _ own holds =>
      own ▸ ⟨holds.head, holds.stream, holds.running⟩
  | discardInput =>
    refine Core.Claimed.logDiscard ?_
    refine claimed.setLine (Nat.le_refl _) fun i _ own holds => ?_
    exact own ▸ ⟨holds.head, holds.stream, holds.running⟩
  | @issue tid i rest fu retireTime unpredictable dests event marks origin issues input =>
    have entered : ((c.setInst i { c.insts i with
        unpredictable := unpredictable, dests := dests }).setLine tid { c.threads tid with
          input := rest
          inFlightInsts := (c.threads tid).inFlightInsts ++ [i] }).Claimed := by
      have marked : (c.setInst i { c.insts i with
          unpredictable := unpredictable, dests := dests }).Claimed :=
        claimed.setInst rfl fun own => own
      refine marked.setLine (Nat.le_refl _) ?_
      intro j _ own holds
      subst own
      refine ⟨?_, holds.stream, holds.running⟩
      rw [List.head?_append, show (c.threads j.threadId).inFlightInsts.head? = some j from holds.head,
        Option.some_or]
    refine entered.keep ?_ ?_ entered.numbered (fun _ _ own memRef => ⟨own, memRef⟩)
      fun _ _ holds => ⟨holds.head, holds.stream, holds.running⟩
    · dsimp only
      split <;> rfl
    · dsimp only
      split <;> rfl
  | push round chosen memRef outside stream keep barrier pushed =>
    obtain ⟨accesses, count⟩ := Lsq.pushed_accesses pushed placed
    exact claimed.push memRef outside accesses count
  | @respondCommit loop head r stored q change round response stream keep handled =>
    obtain ⟨rest, inFlight⟩ := round.inFlight
    obtain ⟨accesses, count⟩ := Lsq.handled_accesses response handled
    have quiet := claimed.quiet_of_pop inFlight accesses
    rw [round.thread ordered]
    have answered : (({ c with lsq := q } : Core).setInst head { c.insts head with
        inStoreBuffer := (c.insts head).inStoreBuffer || stored }).Claimed :=
      (claimed.pop accesses count).setInst rfl fun own => own
    refine (answered.turnIf quiet).logCommit.retire ?_ ?_
    · have steps : Lsq.Steps cfg c.view (fun _ => True) c.lsq q :=
        Lsq.handled_steps response handled
      simpa [Core.logCommit, Core.setInst] using Lsq.Steps.placed steps placed
    · intro j started
      simp only [Core.logCommit, Core.turnIf_lsq] at started
      exact quiet j started
  | @respondDiscard loop head r round response stream =>
    obtain ⟨rest, inFlight⟩ := round.inFlight
    obtain ⟨front, own, -⟩ := Lsq.findResponse_cases response
    obtain ⟨accesses, count⟩ := Lsq.popResponse_accesses front
    rw [own] at accesses
    have steps : Lsq.Step cfg c.view (fun _ => True) c.lsq (c.lsq.popResponse r) := .pop front
    exact (claimed.pop accesses count).logDiscard.retire (steps.placed placed)
      (claimed.quiet_of_pop inFlight accesses)
  | @discard loop head i early round chosen outside stream =>
    refine claimed.logDiscard.retire placed ?_
    rcases stream with wrong | discards
    · obtain ⟨-, ⟨-, -, same⟩ | ⟨-, rfl⟩⟩ := Execute.candidate_cases steady.sound chosen
      · rw [round.origin] at wrong
        exact absurd same wrong
      · obtain ⟨rest, inFlight⟩ := round.inFlight
        exact claimed.quiet_of_outside inFlight outside
    · exact claimed.quiet_of_discard steady round discards
  | execute change round outside plain stream keep =>
    obtain ⟨rest, inFlight⟩ := round.inFlight
    have quiet := claimed.quiet_of_outside inFlight outside
    rw [round.thread ordered]
    refine (claimed.turnIf quiet).logCommit.retire ?_ ?_
    · simpa [Core.logCommit] using placed
    · intro j started
      simp only [Core.logCommit, Core.turnIf_lsq] at started
      exact quiet j started
  | @fault loop head change memRef round outside stream keep =>
    obtain ⟨rest, inFlight⟩ := round.inFlight
    have quiet := claimed.quiet_of_outside inFlight outside
    rw [round.thread ordered]
    have entered : (c.setInst head { c.insts head with inLSQ := memRef }).Claimed :=
      claimed.setInst rfl fun own => absurd own (by simp [outside])
    refine (entered.turnIf quiet).retire ?_ ?_
    · simpa [Core.setInst] using placed
    · intro j started
      simp only [Core.turnIf_lsq] at started
      exact quiet j started

end Gem5.Minor
