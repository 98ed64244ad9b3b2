import Gem5.FlexCPU.CoreStages

/-!
# Changes of status keep the invariant

`onIssueTidAccessed` and `sendToMemory` advance the status of an instruction that
no token carries, without announcing anything.
-/

namespace Gem5.FlexCPU

open Thread

/-- Instruction `i` in status `s`. -/
def restatus (insts : Insts) (i : InstId) (s : Status) : Insts :=
  Function.update insts i { insts i with status := s }

section Fields

variable (insts : Insts) (i j : InstId) (s : Status)

@[simp] theorem restatus_squashed : (restatus insts i s j).squashed = (insts j).squashed :=
  keep (x := { insts i with status := s }) (·.squashed) rfl j

@[simp] theorem restatus_fired : (restatus insts i s j).fired = (insts j).fired :=
  keep (x := { insts i with status := s }) (·.fired) rfl j

@[simp] theorem restatus_instRef : (restatus insts i s j).instRef = (insts j).instRef :=
  keep (x := { insts i with status := s }) (·.instRef) rfl j

@[simp] theorem restatus_staticInst : (restatus insts i s j).staticInst = (insts j).staticInst :=
  keep (x := { insts i with status := s }) (·.staticInst) rfl j

@[simp] theorem restatus_deps : (restatus insts i s j).deps = (insts j).deps :=
  keep (x := { insts i with status := s }) (·.deps) rfl j

@[simp] theorem restatus_remaining : (restatus insts i s j).remaining = (insts j).remaining :=
  keep (x := { insts i with status := s }) (·.remaining) rfl j

@[simp] theorem restatus_callbacks : (restatus insts i s j).callbacks = (insts j).callbacks :=
  keep (x := { insts i with status := s }) (·.callbacks) rfl j

@[simp] theorem restatus_onReady : (restatus insts i s j).onReady = (insts j).onReady :=
  keep (x := { insts i with status := s }) (·.onReady) rfl j

@[simp] theorem restatus_squashCallbacks :
    (restatus insts i s j).squashCallbacks = (insts j).squashCallbacks :=
  keep (x := { insts i with status := s }) (·.squashCallbacks) rfl j

@[simp] theorem restatus_fault : (restatus insts i s j).fault = (insts j).fault :=
  keep (x := { insts i with status := s }) (·.fault) rfl j

@[simp] theorem restatus_seqNum : (restatus insts i s j).seqNum = (insts j).seqNum :=
  keep (x := { insts i with status := s }) (·.seqNum) rfl j

@[simp] theorem restatus_self : (restatus insts i s i).status = s := by
  simp [restatus]

theorem restatus_of_ne {j : InstId} (ne : j ≠ i) : restatus insts i s j = insts j := by
  simp [restatus, ne]

theorem owed_restatus (calls : List Call) (g : Gate) (c : InstId) :
    owed (restatus insts i s) calls g c = owed insts calls g c :=
  owed_congr (restatus_deps ..) (fun j => restatus_fired insts i j s) rfl

theorem surplus_restatus (g : Gate) (c : InstId) :
    surplus (restatus insts i s) g c = surplus insts g c :=
  surplus_congr (restatus_deps ..)

end Fields

section Groups

variable {insts : Insts} {buf : List InstId} {reqs : List Request} {calls : List Call}
  {next i : InstId} {s : Status}

theorem issued_restatus (later : Status.issued ≤ s) {j : InstId}
    (issued : Status.issued ≤ (insts j).status) :
    Status.issued ≤ (restatus insts i s j).status := by
  by_cases self : j = i
  · rw [self, restatus_self]
    exact later
  · rw [restatus_of_ne insts i s self]
    exact issued

theorem Heap.restatus (h : Heap insts buf reqs calls next) (lt : i < next)
    (later : Status.issued ≤ s) : Heap (restatus insts i s) buf reqs calls next where
  ordered := h.ordered
  bounded := h.bounded
  fresh := fun j old => by
    rw [restatus_of_ne insts i s (Nat.lt_of_lt_of_le lt old).ne']
    exact h.fresh j old
  allocated := fun j new => by
    by_cases self : j = i
    · grind [restatus_self, Status.le_iff, Status.rank]
    · rw [restatus_of_ne insts i s self]
      exact h.allocated j new
  requests_lt := h.requests_lt
  calls_lt := h.calls_lt
  callbacks_lt := fun p m => by
    rw [restatus_callbacks]
    exact h.callbacks_lt p m
  parents_lt := fun c g => by
    rw [restatus_deps]
    exact h.parents_lt c g
  newest := fun j mem early => by
    by_cases self : j = i
    · rw [self, restatus_self] at early
      exact absurd later (Nat.not_le.mpr early)
    · rw [restatus_of_ne insts i s self] at early
      exact h.newest j mem early

theorem Callbacks.restatus (h : Callbacks insts) : Callbacks (restatus insts i s) :=
  h.congr (restatus_callbacks insts i · s) (restatus_deps insts i · s)
    (restatus_onReady insts i · s)

theorem Counters.restatus (h : Counters insts buf reqs calls) :
    Counters (restatus insts i s) buf reqs calls :=
  h.congr (restatus_squashed insts i · s) (restatus_deps insts i · s)
    (restatus_remaining insts i · s) (restatus_fired insts i · s) fun _ _ => rfl

theorem Milestones.restatus (h : Milestones insts buf next) (mem : i ∈ buf)
    (decoded : Status.decoded ≤ (insts i).status) (increase : (insts i).status ≤ s)
    (later : Status.issued ≤ s) (early : s ≠ .committed) : Milestones (restatus insts i s) buf next  where
  fired_le := fun j m => by
    rw [restatus_fired]
    exact h.fired_le j m
  fired_zero := fun j m unsquashed other before => by
    rw [restatus_squashed] at unsquashed
    rw [restatus_fired]
    refine h.fired_zero j m unsquashed other ?_
    by_cases self : j = i
    · rw [self, restatus_self] at before
      rw [self]
      exact Nat.lt_of_le_of_lt increase before
    · rwa [restatus_of_ne insts i s self] at before
  committed_iff := fun j inside unsquashed => by
    rw [restatus_squashed] at unsquashed
    by_cases self : j = i
    · subst self
      have notYet : (insts j).status ≠ .committed := by
        intro eq
        rw [eq] at increase
        exact early (Status.rank_inj (Nat.le_antisymm (by cases s <;> simp [Status.rank]) increase))
      rw [restatus_self, restatus_fired, ← h.committed_iff j inside unsquashed]
      simp [early, notYet]
    · rw [restatus_of_ne insts i s self]
      exact h.committed_iff j inside unsquashed
  left := fun j allocated outside unsquashed => by
    have ne : j ≠ i := fun eq => outside (eq ▸ mem)
    rw [restatus_of_ne insts i s ne] at unsquashed ⊢
    exact h.left j allocated outside unsquashed
  unissued := fun j before => by
    by_cases self : j = i
    · rw [self, restatus_self] at before
      exact absurd later (Nat.not_le.mpr before)
    · rw [restatus_of_ne insts i s self] at before ⊢
      exact h.unissued j before
  decoded := fun j => by
    by_cases self : j = i
    · subst self
      rw [restatus_self, restatus_instRef, h.decoded j]
      exact ⟨fun _ => Nat.le_trans decoded increase, fun _ => decoded⟩
    · rw [restatus_of_ne insts i s self]
      exact h.decoded j

theorem Tokens.restatus (h : Tokens insts reqs calls) (none : stage reqs calls i = 0)
    (inert : ∀ r ∈ reqs, r.inst = i → r.carries = false → ∃ j, r = .bpred j) (exec : (insts
    i).onReady .exec ≠ [] → Status.issuedTid ≤ s ∧ (surplus insts .exec i < owed insts calls .exec i
    → s = .issuedTid)) (mem : (insts i).onReady .mem ≠ [] → Status.effAddred ≤ s ∧ (0 < owed insts
    calls .mem i → s = .effAddred)) : Tokens (restatus insts i s) reqs calls  where
  single := fun j unsquashed => by
    rw [restatus_squashed] at unsquashed
    exact h.single j unsquashed
  request_fits := fun r inside unsquashed => by
    rw [restatus_squashed] at unsquashed
    by_cases self : r.inst = i
    · have idle := (not_token_of_stage none).1 r inside
      have carries : r.carries = false := by simpa [Request.isToken, self] using idle
      obtain ⟨j, rfl⟩ := inert r inside self carries
      trivial
    · rw [restatus_of_ne insts i s self]
      exact h.request_fits r inside unsquashed
  call_fits := fun c inside j target unsquashed => by
    rw [restatus_squashed] at unsquashed
    by_cases self : j = i
    · subst self
      have idle := (not_token_of_stage none).2 c inside
      have carries : c.carries = false := by simpa [Call.isToken, target] using idle
      cases c <;> try trivial
      case run cb => cases cb <;> trivial
    · rw [restatus_of_ne insts i s self]
      exact h.call_fits c inside j target unsquashed
  waiting_exec := fun j unsquashed waits => by
    rw [restatus_squashed] at unsquashed
    rw [restatus_onReady] at waits
    rw [owed_restatus, surplus_restatus]
    by_cases self : j = i
    · grind [restatus_self]
    · rw [restatus_of_ne insts i s self]
      exact h.waiting_exec j unsquashed waits
  waiting_mem := fun j unsquashed waits => by
    rw [restatus_squashed] at unsquashed
    rw [restatus_onReady] at waits
    rw [owed_restatus]
    by_cases self : j = i
    · subst self
      rw [restatus_self, restatus_staticInst]
      exact ⟨(mem waits).1, fun more => ⟨(mem waits).2 more, none,
        ((h.waiting_mem j unsquashed waits).2 more).2.2⟩⟩
    · rw [restatus_of_ne insts i s self]
      exact h.waiting_mem j unsquashed waits

theorem Stack.restatus (h : Stack insts buf calls) (early : (insts i).status ≠ .complete) :
    Stack (restatus insts i s) buf calls where
  above := h.above
  needs := h.needs
  protects := fun c inside kind j target => by
    rw [restatus_squashed]
    exact h.protects c inside kind j target
  resolving := fun j inside => by
    have ne : j ≠ i := fun eq => early (eq ▸ (h.resolving j inside).1)
    rw [restatus_of_ne insts i s ne]
    exact h.resolving j inside

theorem Buffer.restatus {lastCommitted max : Nat} {tcStatus : TCStatus}
    (h : Buffer insts buf calls lastCommitted max tcStatus) (later : Status.issued ≤ s) :
    Buffer (restatus insts i s) buf calls lastCommitted max tcStatus where
  issued := fun j inside notLast => issued_restatus later (h.issued j inside notLast)
  squashed := fun j inside => by
    rw [restatus_squashed, restatus_fault, restatus_fired]
    exact h.squashed j inside
  size := h.size
  numbered := fun k j => by
    rw [restatus_seqNum]
    exact h.numbered k j
  active := h.active
  popping := by
    simp only [restatus_fired]
    exact h.popping
  uncommitted := fun j inside => by
    rw [restatus_fired]
    exact h.uncommitted j inside

theorem Control.restatus {retry hasPredictor : Bool} {unpredicted : Option InstId}
    (h : Control insts buf reqs calls retry unpredicted hasPredictor)
    (later : Status.issued ≤ s) (increase : (insts i).status ≤ s)
    (started : Status.issued ≤ (insts i).status ∨ buf.getLast? = some i ∧ retry = false) :
    Control (restatus insts i s) buf reqs calls retry unpredicted hasPredictor where
  followed := fun j inside unsquashed isControl issued pending follows => by
    rw [restatus_squashed] at unsquashed
    rw [restatus_staticInst] at isControl
    unfold Predicted
    rw [restatus_squashCallbacks]
    by_cases self : j = i
    · subst self
      rw [restatus_self] at pending
      rcases started with started | ⟨last, steady⟩
      · exact h.followed j inside unsquashed isControl started
          (pending.imp_left fun before => Nat.lt_of_le_of_lt increase before) follows
      · simp [last, steady] at follows
    · rw [restatus_of_ne insts i s self] at issued pending
      exact h.followed j inside unsquashed isControl issued pending follows
  asked := fun j inside unsquashed => by
    rw [restatus_squashed] at unsquashed
    obtain ⟨predictor, isControl, issued, unpredicted, once⟩ := h.asked j inside unsquashed
    unfold Predicted
    rw [restatus_staticInst, restatus_squashCallbacks]
    exact ⟨predictor, isControl, issued_restatus later issued, unpredicted, once⟩
  predicted := fun j predicted => by
    unfold Predicted at predicted
    rw [restatus_squashCallbacks] at predicted
    exact h.predicted j predicted
  squashCallbacks := fun j => by
    rw [restatus_squashCallbacks]
    exact h.squashCallbacks j
  waiting := fun u eq => by
    obtain ⟨predictor, isControl, issued, idle⟩ := h.waiting u eq
    unfold Predicted
    rw [restatus_staticInst, restatus_squashed, restatus_squashCallbacks]
    exact ⟨predictor, isControl, issued_restatus later issued, idle⟩
  retrying := fun again j last => by
    rw [restatus_squashed]
    exact ⟨issued_restatus later (h.retrying again j last).1, (h.retrying again j last).2⟩

theorem Stores.restatus (h : Stores insts buf) (issued : Status.issued ≤ (insts i).status) :
    Stores (restatus insts i s) buf := by
  intro c inside unsquashed store late p older before uncommitted
  rw [restatus_squashed] at unsquashed
  rw [restatus_staticInst] at store
  rw [restatus_fired] at uncommitted
  simp only [restatus_deps, restatus_fired]
  refine h c inside unsquashed store ?_ p older before uncommitted
  by_cases self : c = i
  · exact self ▸ issued
  · rwa [restatus_of_ne insts i s self] at late

theorem Lasts.restatus {serializing barrier : Option InstId} {uses : RegId → DataSource}
    (h : Lasts insts serializing barrier uses next) (later : Status.issued ≤ s) :
    Lasts (restatus insts i s) serializing barrier uses next :=
  h.congr fun _ => issued_restatus later

end Groups

section Moves

variable {cfg : Config} {t : Thread} {i : InstId} {s : Status}

theorem Core.raise (inv : Core cfg t) (s' : Status) (idle : t.Idle i s) (issued : Status.issued ≤ s)
    (early : s < .memorying) (increase : s ≤ s') (late : s' < .complete) (exec : (t.insts i).onReady
    .exec ≠ [] → Status.issuedTid ≤ s' ∧ (surplus t.insts .exec i < owed t.insts t.calls .exec i →
    s' = .issuedTid)) (mem : (t.insts i).onReady .mem ≠ [] → Status.effAddred ≤ s' ∧ (0 < owed
    t.insts t.calls .mem i → s' = .effAddred)) : Core cfg (t.setStatus i s') := by
  have later : Status.issued ≤ s' := Nat.le_trans issued increase
  have now : Status.issued ≤ (t.insts i).status := idle.status ▸ issued
  have grows : (t.insts i).status ≤ s' := idle.status ▸ increase
  exact
    { heap := inv.heap.restatus (inv.heap.bounded i idle.mem) later
      callbacks := inv.callbacks.restatus
      counters := inv.counters.restatus
      milestones := inv.milestones.restatus idle.mem
        (Nat.le_trans (by simp [Status.rank]) now) grows later
        (by rintro rfl; simp [Status.lt_iff, Status.rank] at late)
      tokens := inv.tokens.restatus idle.stage
        (fun r inside self inert =>
          ⟨i, inv.inert_bpred idle.unsquashed (idle.status ▸ early) inside self inert⟩)
        exec mem
      stack := inv.stack.restatus (by
        rw [idle.status]
        rintro rfl
        simp [Status.lt_iff, Status.rank] at early)
      buffer := inv.buffer.restatus later
      control := inv.control.restatus later grows (Or.inl now)
      stores := inv.stores.restatus now
      lasts := inv.lasts.restatus later
      noMacroOp := inv.noMacroOp }

theorem Call.not_token_of_squashed {insts : Insts} {c : Call} {j : InstId}
    (target : c.inst = some i) (squashed : (insts i).squashed = true)
    (unsquashed : (insts j).squashed = false) : c.isToken j = false := by
  by_contra token
  obtain ⟨-, eq⟩ := Call.isToken_iff.mp (by simpa using token)
  obtain rfl : i = j := by simpa [target] using eq
  simp [squashed] at unsquashed

theorem Tokens.pushSquashed {insts : Insts} {reqs : List Request} {calls : List Call} {c : Call}
    (h : Tokens insts reqs calls) (target : c.inst = some i) (squashed : (insts i).squashed = true)
    (other : c.decrements = false) : Tokens insts reqs (c :: calls) where
  single := fun j unsquashed => by
    rw [stage_cons, if_neg (by simp [Call.not_token_of_squashed target squashed unsquashed])]
    exact h.single j unsquashed
  request_fits := h.request_fits
  call_fits := fun d mem j inst unsquashed => by
    rcases List.mem_cons.mp mem with rfl | old
    · grind
    · exact h.call_fits d old j inst unsquashed
  waiting_exec := fun j unsquashed waits => by
    rw [owed_cons_other other, stage_cons,
      if_neg (by simp [Call.not_token_of_squashed target squashed unsquashed])]
    exact h.waiting_exec j unsquashed waits
  waiting_mem := fun j unsquashed waits => by
    rw [owed_cons_other other, stage_cons,
      if_neg (by simp [Call.not_token_of_squashed target squashed unsquashed])]
    exact h.waiting_mem j unsquashed waits

@[simp] theorem readyCallback_inst (g : Gate) : (readyCallback g i).inst = some i := by
  cases g <;> rfl

@[simp] theorem readyCallback_carries (g : Gate) :
    (Call.run (readyCallback g i)).carries = true := by
  cases g <;> rfl

@[simp] theorem readyCallback_decrements (g : Gate) :
    (Call.run (readyCallback g i)).decrements = false := by
  cases g <;> rfl

@[simp] theorem readyCallback_protects (g : Gate) :
    (Call.run (readyCallback g i)).protects = false := by
  cases g <;> rfl

theorem Core.pushReady (inv : Core cfg t) (g : Gate) (lt : i < t.nextInst) (carried : (t.insts
    i).squashed = true ∨ stage t.requests t.calls i = 0 ∧ (Call.run (readyCallback g i)).Fits
    (t.insts i) ∧ ((t.insts i).onReady .exec ≠ [] → owed t.insts t.calls .exec i ≤ surplus t.insts
    .exec i) ∧ ((t.insts i).onReady .mem ≠ [] → owed t.insts t.calls .mem i = 0))
    (below : ∀ b ∈ t.calls, Call.Above (.run (readyCallback g i)) b) :
    Core cfg (t.push [.run (readyCallback g i)]) := by
  have token : (Call.run (readyCallback g i)).isToken i = true :=
    Call.isToken_iff.mpr ⟨readyCallback_carries g, readyCallback_inst g⟩
  exact
    { inv with
      heap := inv.heap.withCalls fun d mem j inst => by
        rcases List.mem_cons.mp mem with rfl | old
        · obtain rfl : i = j := by simpa [Call.inst] using inst
          exact lt
        · exact inv.heap.calls_lt d old j inst
      counters := inv.counters.congr (fun _ => rfl) (fun _ => rfl) (fun _ => rfl) (fun _ => rfl)
        fun _ _ => count_push_other (by simp)
      tokens := by
        rcases carried with squashed | ⟨none, fits, exec, mem⟩
        · exact inv.tokens.pushSquashed (readyCallback_inst g) squashed
            (readyCallback_decrements g)
        · exact inv.tokens.pushToken token none fits exec mem
      stack :=
        { above := List.pairwise_cons.mpr ⟨below, inv.stack.above⟩
          needs := ⟨by cases g <;> trivial, inv.stack.needs⟩
          protects := fun d mem kind j inst => by
            rcases List.mem_cons.mp mem with rfl | old
            · simp at kind
            · exact inv.stack.protects d old kind j inst
          resolving := fun j mem => by
            have old : Call.resolveControl j ∈ t.calls := by simpa [push] using mem
            simpa [push] using inv.stack.resolving j old }
      buffer := inv.buffer.congr (fun _ => rfl) (fun _ => rfl) (fun _ => rfl) (fun _ => rfl)
        (fun _ => rfl) (by simp [push])
      control := inv.control.congr (fun _ => rfl) (fun _ => rfl) (fun _ => rfl) (fun _ => rfl)
        fun j mem => by simpa [push] using mem }

theorem Core.addReady (inv : Core cfg t) (g : Gate) (idle : t.Idle i s)
    (unused : (t.insts i).onReady g = []) (exec : g = .exec → s = .issuedTid)
    (mem : g = .mem → s = .effAddred ∧ (t.insts i).staticInst.isMemRef = true) :
    Core cfg (t.update i (·.addReadyCallback g (readyCallback g i))) := by
  let x := (t.insts i).addReadyCallback g (readyCallback g i)
  have squashed := keep (x := x) (s := t.insts) (·.squashed) rfl
  have status := keep (x := x) (s := t.insts) (·.status) rfl
  have fired := keep (x := x) (s := t.insts) (·.fired) rfl
  have instRef := keep (x := x) (s := t.insts) (·.instRef) rfl
  have kind := keep (x := x) (s := t.insts) (·.staticInst) rfl
  have deps := keep (x := x) (s := t.insts) (·.deps) rfl
  have remaining := keep (x := x) (s := t.insts) (·.remaining) rfl
  have callbacks := keep (x := x) (s := t.insts) (·.callbacks) rfl
  have squashCallbacks := keep (x := x) (s := t.insts) (·.squashCallbacks) rfl
  have others : ∀ j, j ≠ i → Function.update t.insts i x j = t.insts j := fun j ne => by simp [ne]
  have ready : ∀ q, (Function.update t.insts i x i).onReady q
      = if q = g then [readyCallback g i] else (t.insts i).onReady q := by
    intro q
    by_cases same : q = g <;> simp [x, InflightInst.addReadyCallback, unused]
  have owes : ∀ q j, owed (Function.update t.insts i x) t.calls q j = owed t.insts t.calls q j :=
    fun q j => owed_congr (deps j) fired rfl
  have extra : ∀ q j, surplus (Function.update t.insts i x) q j = surplus t.insts q j :=
    fun q j => surplus_congr (deps j)
  have shapes : ∀ j q, (Function.update t.insts i x j).onReady q = []
      ∨ (Function.update t.insts i x j).onReady q = [readyCallback q j] := by
    intro j q
    by_cases self : j = i
    · rw [self, ready q]
      by_cases same : q = g
      · simp [same]
      · simpa [same] using inv.callbacks.ready i q
    · rw [others j self]
      exact inv.callbacks.ready j q
  have tokens : Tokens (Function.update t.insts i x) t.requests t.calls :=
    { single := fun j unsquashed => inv.tokens.single j ((squashed j).symm.trans unsquashed)
      request_fits := fun r inside unsquashed =>
        (inv.tokens.request_fits r inside ((squashed r.inst).symm.trans unsquashed)).congr
          (status _) (fired _) (instRef _)
      call_fits := fun c inside j target unsquashed => by
        have old := inv.tokens.call_fits c inside j target
          ((squashed j).symm.trans unsquashed)
        by_cases self : j = i
        · have carries : c.carries = false := by
            simpa [Call.isToken, target, self] using (not_token_of_stage idle.stage).2 c inside
          cases c <;> try trivial
          case run cb => cases cb <;> trivial
        · rw [others j self]
          exact old
      waiting_exec := fun j unsquashed waits => by
        have open_ : (t.insts j).squashed = false := (squashed j).symm.trans unsquashed
        rw [owes, extra, status j]
        by_cases self : j = i
        · subst self
          cases g with
          | exec =>
            rw [idle.status, exec rfl]
            exact ⟨Nat.le_refl _, fun _ => ⟨rfl, idle.stage⟩⟩
          | mem =>
            refine inv.tokens.waiting_exec j open_ fun none => waits ?_
            exact (ready .exec).trans none
        · exact inv.tokens.waiting_exec j open_ (others j self ▸ waits)
      waiting_mem := fun j unsquashed waits => by
        have open_ : (t.insts j).squashed = false := (squashed j).symm.trans unsquashed
        rw [owes, status j, kind j]
        by_cases self : j = i
        · subst self
          cases g with
          | mem =>
            rw [idle.status, (mem rfl).1]
            exact ⟨Nat.le_refl _, fun _ => ⟨rfl, idle.stage, (mem rfl).2⟩⟩
          | exec =>
            refine inv.tokens.waiting_mem j open_ fun none => waits ?_
            exact (ready .mem).trans none
        · exact inv.tokens.waiting_mem j open_ (others j self ▸ waits) }
  exact
    { heap := inv.heap.congr status callbacks deps fun j old =>
        others j (Nat.lt_of_lt_of_le (inv.heap.bounded i idle.mem) old).ne'
      callbacks := inv.callbacks.withReady callbacks deps shapes
      counters := inv.counters.congr squashed deps remaining fired fun _ _ => rfl
      milestones := inv.milestones.congr squashed status fired instRef deps
        fun j _ => squashCallbacks j
      tokens := tokens
      stack := inv.stack.congr squashed status instRef
      buffer := inv.buffer.congr squashed status (keep (x := x) (·.fault) rfl)
        (keep (x := x) (·.seqNum) rfl) (fun j => congrFun (fired j) _) Iff.rfl
      control := inv.control.congr squashed status instRef squashCallbacks fun _ mem => mem
      stores := inv.stores.congr squashed status instRef deps fun j => congrFun (fired j) _
      lasts := inv.lasts.congr fun j issued => (status j).symm ▸ issued
      noMacroOp := inv.noMacroOp }

theorem Thread.Idle.setStatus (idle : t.Idle i s) (s' : Status) : (t.setStatus i s').Idle i s'  where
  mem := idle.mem
  unsquashed := (restatus_squashed t.insts i i s').trans idle.unsquashed
  stage := idle.stage
  status := restatus_self t.insts i s'

theorem Core.enterTid (inv : Core cfg t) (idle : t.Idle i .issued) (calls : t.calls = []) :
    Core cfg ((t.setStatus i .issuedTid).push [.run (.executeInstruction i)]) := by
  have early : (t.insts i).status < .issuedTid := by
    simp [idle.status, Status.lt_iff, Status.rank]
  have noExec := inv.onReady_exec idle.unsquashed early
  have noMem := inv.onReady_mem idle.unsquashed (Nat.lt_trans early (by simp [Status.rank]))
  have raised := inv.raise .issuedTid idle (by simp [Status.le_iff])
    (by simp [Status.lt_iff, Status.rank]) (by simp [Status.le_iff, Status.rank])
    (by simp [Status.lt_iff, Status.rank]) (by simp [noExec]) (by simp [noMem])
  have still := idle.setStatus .issuedTid
  have open_ : ∀ g, ((t.setStatus i .issuedTid).insts i).onReady g = (t.insts i).onReady g :=
    fun g => congrFun (restatus_onReady t.insts i i .issuedTid) g
  refine raised.pushReady .exec (inv.heap.bounded i idle.mem)
    (Or.inr ⟨still.stage, still.status, ?_, ?_⟩) ?_
  · rw [open_, noExec]
    simp
  · rw [open_, noMem]
    simp
  · change ∀ b ∈ t.calls, _
    simp [calls]

theorem Core.waitTid (inv : Core cfg t) (idle : t.Idle i .issued) :
    Core cfg ((t.setStatus i .issuedTid).update i
      (·.addReadyCallback .exec (.executeInstruction i))) := by
  have early : (t.insts i).status < .issuedTid := by
    simp [idle.status, Status.lt_iff, Status.rank]
  have noExec := inv.onReady_exec idle.unsquashed early
  have noMem := inv.onReady_mem idle.unsquashed (Nat.lt_trans early (by simp [Status.rank]))
  have raised := inv.raise .issuedTid idle (by simp [Status.le_iff])
    (by simp [Status.lt_iff, Status.rank]) (by simp [Status.le_iff, Status.rank])
    (by simp [Status.lt_iff, Status.rank]) (by simp [noExec]) (by simp [noMem])
  refine raised.addReady .exec (idle.setStatus .issuedTid) ?_ (by simp) (by simp)
  exact (congrFun (restatus_onReady t.insts i i .issuedTid) .exec).trans noExec

theorem Core.awaitMem (inv : Core cfg t) (idle : t.Idle i .effAddred)
    (memRef : (t.insts i).staticInst.isMemRef = true) (unused : (t.insts i).onReady .mem = []) :
    Core cfg (t.update i (·.addReadyCallback .mem (.sendToMemory i))) :=
  inv.addReady .mem idle unused (by simp) fun _ => ⟨rfl, memRef⟩

theorem Core.enterMemory (inv : Core cfg t) (idle : t.Idle i .effAddred)
    (ready : (t.insts i).remaining .mem = 0) : Core cfg (t.enterMemory i) := by
  have paid : owed t.insts t.calls .mem i = 0 :=
    (inv.owed_mem idle.mem idle.unsquashed).symm.trans ready
  have raised : Core cfg (t.setStatus i .memorying) :=
    inv.raise .memorying idle (by simp [Status.le_iff, Status.rank])
    (by simp [Status.lt_iff, Status.rank]) (by simp [Status.le_iff, Status.rank])
    (by simp [Status.lt_iff, Status.rank])
    (fun waits => ⟨by simp [Status.le_iff, Status.rank], fun more => by
      have := ((inv.tokens.waiting_exec i idle.unsquashed waits).2 more).1
      rw [idle.status] at this
      cases this⟩)
    (fun _ => ⟨by simp [Status.le_iff, Status.rank], fun more => by omega⟩)
  exact { raised with }

theorem Core.requestMem (inv : Core cfg t) (idle : t.Idle i .memorying)
    (memRef : (t.insts i).staticInst.isMemRef = true) : Core cfg (t.requestMem i) := by
  have pending : (t.insts i).fired .completion = 0 :=
    inv.milestones.fired_zero i .completion idle.unsquashed (by simp) (by
      simp [idle.status, Status.lt_iff, Status.rank, Milestone.status])
  unfold Thread.requestMem
  cases (t.insts i).access with
  | none => exact inv
  | some acc =>
    dsimp only
    split
    · exact inv
    · have kinds : ∀ r ∈ (packets (t.insts i) i).map (fun p =>
          if acc.mmappedIpr then Request.memResp p else .mem p),
          r.carries = false ∧ r.inst = i ∧ r.Fits (t.insts i) ∧ ∀ j, r ≠ .bpred j := by
        intro r mem
        obtain ⟨p, inside, rfl⟩ := List.mem_map.mp mem
        obtain ⟨h, -, rfl⟩ := List.mem_map.mp inside
        split
        · exact ⟨rfl, rfl, ⟨pending, memRef, rfl, Or.inl idle.status⟩, by simp⟩
        · exact ⟨rfl, rfl, ⟨pending, memRef, rfl, Or.inl idle.status⟩, by simp⟩
      exact
        { inv with
          heap := inv.heap.withRequests fun r mem => by
            rcases List.mem_append.mp mem with old | new
            · exact inv.heap.requests_lt r old
            · rw [(kinds r new).2.1]
              exact inv.heap.bounded i idle.mem
          counters := inv.counters.mono fun c held _ => held.add fun r mem holds => by
            rw [← Request.inst_of_holds holds, (kinds r mem).2.1]
            exact idle.mem
          tokens := inv.tokens.addInert _ (fun r mem => (kinds r mem).1) fun r mem _ => by
            rw [(kinds r mem).2.1]
            exact (kinds r mem).2.2.1
          control := inv.control.addOther fun j mem => (kinds _ mem).2.2.2 j rfl }

end Moves

end Gem5.FlexCPU
