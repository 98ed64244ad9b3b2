import Gem5.FlexCPU.StatusOrder

/-!
# Branch prediction slots

A slot of `branch_pred_max_depth` is free, or waits with its branch for the answer
of the predictor, or belongs to a branch whose prediction was followed and that is
neither complete nor squashed. The last kind is not recorded anywhere: resolution
infers it from the instruction that follows in the buffer. Between the completion of
a branch and its resolution the slot is still held.
-/

namespace Gem5.FlexCPU

open Thread

variable {x : InflightInst}

/-- The branch followed its prediction and has not been resolved or squashed. -/
def holdsSlot (calls : List Call) (x : InflightInst) (i : InstId) : Bool :=
  !x.squashed && x.squashCallbacks.contains (.releaseIfIncomplete i)
    && (!x.isComplete || calls.contains (.resolveControl i))

def Request.isBpred : Request → Bool
  | bpred _ => true
  | _ => false

/-- The accounts of the slots. -/
structure Slots (depth : Nat) (insts : Insts) (buf : List InstId) (reqs : List Request)
    (calls : List Call) (retry : Bool) (remaining : Nat) : Prop where
  conserved : remaining + reqs.countP Request.isBpred
    + buf.countP (fun i => holdsSlot calls (insts i) i) = depth
  once : ∀ i, (insts i).squashCallbacks.count (.releaseIfIncomplete i) ≤ 1
  control : ∀ i, Predicted (insts i) i → (insts i).staticInst.isControl = true
  followed : ∀ i ∈ buf, holdsSlot calls (insts i) i = true → buf.getLast? ≠ some i ∨ retry = true

namespace Slots

variable {depth : Nat} {insts insts' : Insts} {buf : List InstId} {reqs reqs' : List Request}
  {calls calls' : List Call} {retry : Bool} {remaining : Nat}

theorem congr (h : Slots depth insts buf reqs calls retry remaining)
    (requests : reqs'.countP Request.isBpred = reqs.countP Request.isBpred) (releases : ∀ j, (insts'
    j).squashCallbacks.count (.releaseIfIncomplete j) = (insts j).squashCallbacks.count
    (.releaseIfIncomplete j))
    (static : ∀ j, Predicted (insts j) j → (insts' j).staticInst = (insts j).staticInst)
    (held : ∀ j ∈ buf, holdsSlot calls' (insts' j) j = holdsSlot calls (insts j) j) :
    Slots depth insts' buf reqs' calls' retry remaining  where
  conserved := by
    have same : buf.countP (fun i => holdsSlot calls' (insts' i) i)
        = buf.countP (fun i => holdsSlot calls (insts i) i) :=
      List.countP_congr fun j mem => by rw [held j mem]
    rw [requests, same]
    exact h.conserved
  once := fun i => releases i ▸ h.once i
  control := fun i predicted => by
    have before : Predicted (insts i) i := by
      unfold Predicted at predicted ⊢
      rw [← List.count_pos_iff, releases] at predicted
      exact List.count_pos_iff.mp predicted
    rw [static i before]
    exact h.control i before
  followed := fun i mem holds => h.followed i mem (held i mem ▸ holds)

theorem withCalls (h : Slots depth insts buf reqs calls retry remaining)
    (resolve : ∀ i, Call.resolveControl i ∈ calls' ↔ Call.resolveControl i ∈ calls) :
    Slots depth insts buf reqs calls' retry remaining :=
  h.congr rfl (fun _ => rfl) (fun _ _ => rfl) fun j _ => by
    simp [holdsSlot, resolve]

theorem withRequests (h : Slots depth insts buf reqs calls retry remaining)
    (requests : reqs'.countP Request.isBpred = reqs.countP Request.isBpred) :
    Slots depth insts buf reqs' calls retry remaining :=
  h.congr requests (fun _ => rfl) (fun _ _ => rfl) fun _ _ => rfl

theorem update {i : InstId} (h : Slots depth insts buf reqs calls retry remaining)
    (squashed : x.squashed = (insts i).squashed) (releases : ∀ j, x.squashCallbacks.count
    (.releaseIfIncomplete j) = (insts i).squashCallbacks.count (.releaseIfIncomplete j))
    (complete : x.isComplete = (insts i).isComplete)
    (static : x.staticInst = (insts i).staticInst ∨ (insts i).squashCallbacks = []) :
    Slots depth (Function.update insts i x) buf reqs calls retry remaining := by
  refine h.congr rfl (fun j => ?_) (fun j predicted => ?_) fun j _ => ?_
  · grind
  · by_cases self : j = i
    · grind [Predicted]
    · simp [self]
  · by_cases self : j = i
    · grind [holdsSlot]
    · simp [self]

theorem touch {i : InstId} (h : Slots depth insts buf reqs calls retry remaining)
    (squashed : x.squashed = (insts i).squashed)
    (callbacks : x.squashCallbacks = (insts i).squashCallbacks)
    (complete : x.isComplete = (insts i).isComplete) (instRef : x.instRef = (insts i).instRef) :
    Slots depth (Function.update insts i x) buf reqs calls retry remaining :=
  h.update squashed (fun _ => by rw [callbacks]) complete
    (Or.inl (by simp [InflightInst.staticInst, instRef]))

end Slots

/-- The accounts of a thread. -/
abbrev Thread.SlotsOf (t : Thread) (depth : Nat) : Prop :=
  Slots depth t.insts t.inflightInsts t.requests t.calls t.advanceInstNeedsRetry
    t.remainingBranchPredDepth

theorem countP_differ {buf : List InstId} (ordered : buf.Pairwise (· < ·)) {i : InstId}
    (mem : i ∈ buf) {p q : InstId → Bool} (others : ∀ j ∈ buf, j ≠ i → p j = q j)
    (more : p i = true) (less : q i = false) : buf.countP p = buf.countP q + 1 := by
  obtain ⟨a, b, rfl⟩ := List.append_of_mem mem
  obtain ⟨-, tail, across⟩ := List.pairwise_append.mp ordered
  have front : a.countP p = a.countP q := List.countP_congr fun j inside => by
    rw [others j (by simp [inside]) (Nat.ne_of_lt (across j inside i (by simp)))]
  have back : b.countP p = b.countP q := List.countP_congr fun j inside => by
    rw [others j (by simp [inside]) (Nat.ne_of_gt ((List.pairwise_cons.mp tail).1 j inside))]
  rw [List.countP_append, List.countP_append, List.countP_cons, List.countP_cons, front, back, more,
    less]
  simp
  omega

theorem InflightInst.isComplete_of_lt (early : x.status < .complete) :
    x.isComplete = false := decide_eq_false (Nat.not_le.mpr early)

theorem InflightInst.isComplete_of_le (late : Status.complete ≤ x.status) :
    x.isComplete = true := decide_eq_true late

theorem InflightInst.isComplete_congr {y : InflightInst} (s : Status) {r : Status}
    (first : x.status = s) (second : y.status = r) (early : s < .complete ∧ r < .complete) :
    x.isComplete = y.isComplete :=
  (isComplete_of_lt (first ▸ early.1)).trans (isComplete_of_lt (second ▸ early.2)).symm

section Moves

variable {cfg : Config} {o : Thread} {e : Event} {t t' : Thread} {i : InstId} {depth : Nat}

theorem Thread.SlotsOf.predictCtrlInst (h : t.SlotsOf depth) :
    (t.predictCtrlInst i).SlotsOf (depth + 1) := by
  have noted := Slots.update (i := i) (x := { t.insts i with
    squashCallbacks := (t.insts i).squashCallbacks ++ [.squashPredictor (t.insts i).issueSeqNum] })
    h rfl (by simp) rfl (Or.inl rfl)
  refine { noted with conserved := ?_ }
  have conserved := noted.conserved
  simp only [Thread.predictCtrlInst, Thread.request, Thread.update, List.countP_append,
    List.countP_singleton, Request.isBpred, if_true] at conserved ⊢
  omega

theorem Thread.SlotsOf.free (h : t.SlotsOf depth) : t.freeBranchPredDepth.SlotsOf (depth + 1) := by
  rcases t.freeBranchPredDepth_cases with ⟨u, -, -, -, -, eq⟩ | ⟨waiting, -, eq⟩
  · rw [eq]
    have asked : ({ t with unpredictedBranch := none } : Thread).SlotsOf depth := h
    exact asked.predictCtrlInst
  · rw [eq]
    have conserved := h.conserved
    refine { h with conserved := ?_ }
    simp only
    omega

theorem Thread.SlotsOf.answered (h : t.SlotsOf depth) {before after : List Request}
    (serves : t.Serves (.bpred i) before after) :
    ∃ d, d + 1 = depth ∧ ({ t with requests := before ++ after } : Thread).SlotsOf d := by
  have conserved := h.conserved
  rw [serves.split] at conserved
  simp only [List.countP_append, List.countP_cons, Request.isBpred, if_true] at conserved
  refine ⟨depth - 1, by omega, { h with conserved := ?_ }⟩
  simp only [List.countP_append]
  omega

theorem Thread.SlotsOf.extend (h : t.SlotsOf depth) (bounded : ∀ j ∈ t.inflightInsts, j < t.nextInst)
    (fresh : t.insts t.nextInst = {}) (pc : PCState) : (t.extend pc).SlotsOf depth := by
  have old : ∀ j ∈ t.inflightInsts, j ≠ t.nextInst := fun j mem => Nat.ne_of_lt (bounded j mem)
  have noted := Slots.update (i := t.nextInst) (x := t.freshInst pc) h (by rw [fresh]; rfl)
    (by rw [fresh]; simp [Thread.freshInst]) (by rw [fresh]; rfl) (Or.inr (by rw [fresh]))
  have calls : Slots depth (Function.update t.insts t.nextInst (t.freshInst pc)) t.inflightInsts
      t.requests (.attemptFetch t.nextInst :: t.calls) t.advanceInstNeedsRetry
      t.remainingBranchPredDepth := noted.withCalls (by simp)
  have none : holdsSlot (.attemptFetch t.nextInst :: t.calls) (t.freshInst pc) t.nextInst = false := by
    simp [holdsSlot, Thread.freshInst]
  refine { calls with conserved := ?_, followed := fun j mem holds => ?_ }
  · have conserved := calls.conserved
    simp only [Thread.extend, Thread.allocate, List.countP_append, List.countP_singleton,
      Function.update_self, none]
    simpa using conserved
  · rcases List.mem_append.mp mem with before | self
    · left
      simp only [Thread.extend, Thread.allocate, List.getLast?_concat, ne_eq, Option.some.injEq]
      exact fun eq => old j before eq.symm
    · obtain rfl : j = t.nextInst := by simpa using self
      simp only [Thread.extend, Thread.allocate, Function.update_self] at holds
      cases holds

theorem Thread.SlotsOf.holdSlot (h : t.SlotsOf depth) (core : Core cfg t)
    (can : t.Unpredicted cfg i) :
    ({ t.holdSlot i with advanceInstNeedsRetry := true } : Thread).SlotsOf (depth + 1) := by
  have silent : .releaseIfIncomplete i ∉ (t.insts i).squashCallbacks := can.unpredicted
  have early := InflightInst.isComplete_of_lt can.incomplete
  have before : holdsSlot t.calls (t.insts i) i = false := by simp [holdsSlot, silent]
  have after : holdsSlot t.calls ((t.holdSlot i).insts i) i = true := by
    have same : ((t.holdSlot i).insts i).isComplete = (t.insts i).isComplete := by
      simp [Thread.holdSlot, Thread.update, InflightInst.isComplete, InflightInst.reached]
    simp only [holdsSlot, same, early]
    simp [Thread.holdSlot, Thread.update, can.unsquashed]
  have keeps : ∀ j, j ≠ i → (t.holdSlot i).insts j = t.insts j := fun j ne => by
    simp [Thread.holdSlot, Thread.update, ne]
  refine ⟨?_, fun j => ?_, fun j predicted => ?_, fun _ _ _ => Or.inr rfl⟩
  · have conserved := h.conserved
    have more := countP_differ core.heap.ordered (List.mem_of_getLast? can.back)
      (p := fun j => holdsSlot t.calls ((t.holdSlot i).insts j) j)
      (q := fun j => holdsSlot t.calls (t.insts j) j) (fun j _ ne => by simp only [keeps j ne])
      after before
    change t.remainingBranchPredDepth + t.requests.countP Request.isBpred
      + t.inflightInsts.countP (fun j => holdsSlot t.calls ((t.holdSlot i).insts j) j) = depth + 1
    omega
  · by_cases self : j = i
    · subst self
      simp [Thread.holdSlot, Thread.update, List.count_eq_zero.mpr silent]
    · simp only [keeps j self]
      exact h.once j
  · by_cases self : j = i
    · subst self
      have control := can.control
      simpa [Thread.holdSlot, Thread.update, InflightInst.staticInst] using control
    · simp only [keeps j self] at predicted ⊢
      exact h.control j predicted

theorem Thread.SlotsOf.requestMem (h : t.SlotsOf depth) : (t.requestMem i).SlotsOf depth := by
  unfold Thread.requestMem
  split
  · exact h
  · split
    · exact h
    · refine h.withRequests ?_
      rw [List.countP_append, Nat.add_eq_left, List.countP_eq_zero]
      intro r mem
      obtain ⟨p, -, rfl⟩ := List.mem_map.mp mem
      split <;> simp [Request.isBpred]

theorem slots_eq (h : t.SlotsOf depth) (quiet : t.Quiet) (v : InstId) :
    slots (t.insts v) v = if holdsSlot t.calls (t.insts v) v then 1 else 0 := by
  have unresolved : t.calls.contains (.resolveControl v) = false := by
    rw [List.contains_eq_mem, decide_eq_false_iff_not]
    intro mem
    exact absurd (quiet _ mem) (by simp [Call.protects])
  simp only [slots, released, holdsSlot, unresolved]
  cases (t.insts v).squashed with
  | true => simp
  | false =>
    cases (t.insts v).isComplete with
    | true => simp
    | false =>
      have once := h.once v
      by_cases mem : .releaseIfIncomplete v ∈ (t.insts v).squashCallbacks
      · grind
      · simp [mem, List.count_eq_zero.mpr mem]

theorem sum_slots (h : t.SlotsOf depth) (quiet : t.Quiet) (vs : List InstId) :
    (vs.map fun v => slots (t.insts v) v).sum
      = vs.countP (fun v => holdsSlot t.calls (t.insts v) v) := by
  induction vs with
  | nil => rfl
  | cons v rest ih =>
    rw [List.map_cons, List.sum_cons, List.countP_cons, ih, slots_eq h quiet, Nat.add_comm]

theorem Thread.SlotsOf.squashed (h : t.SlotsOf depth) (core : Core cfg t) (quiet : t.Quiet)
    {a vs ws : List InstId} (buffer : t.inflightInsts = a ++ i :: vs.reverse)
    (which : ws = vs ++ [i] ∨ ws = vs ∧ holdsSlot t.calls (t.insts i) i = false)
    (waiting : Option InstId) :
    ({ FlexCPU.squashed t ws (a ++ [i]) waiting with advanceInstNeedsRetry := false } :
      Thread).SlotsOf depth := by
  have later : ∀ v ∈ vs, i < v := fun v mem =>
    Tails.lt_of_later core.heap.ordered buffer (List.mem_reverse.mpr mem)
  have inside : ∀ v ∈ ws, i ≤ v := by grind
  have kept : ∀ j ∈ a, flaggedAll t.insts ws j = t.insts j := by
    intro j mem
    have outside : j ∉ ws := fun victim =>
      absurd (Tails.lt_of_split core.heap.ordered buffer mem (List.mem_cons_self ..))
        (Nat.not_lt.mpr (inside j victim))
    simp [flaggedAll, outside]
  have self : holdsSlot t.calls (flaggedAll t.insts ws i) i = false := by
    rcases which with rfl | ⟨rfl, none⟩
    · simp [holdsSlot, flaggedAll]
    · have outside : i ∉ ws := fun victim => absurd (later i victim) (Nat.lt_irrefl _)
      simpa [flaggedAll, outside] using none
  have callbacks : ∀ j, (flaggedAll t.insts ws j).squashCallbacks = (t.insts j).squashCallbacks := by
    intro j
    unfold flaggedAll
    split <;> rfl
  have static : ∀ j, (flaggedAll t.insts ws j).staticInst = (t.insts j).staticInst := by
    intro j
    unfold flaggedAll
    split <;> rfl
  refine ⟨?_, fun j => ?_, fun j predicted => ?_, fun j mem holds => Or.inl ?_⟩
  · have conserved := h.conserved
    have front : a.countP (fun j => holdsSlot t.calls (flaggedAll t.insts ws j) j)
        = a.countP (fun j => holdsSlot t.calls (t.insts j) j) :=
      List.countP_congr fun j mem => by rw [kept j mem]
    have given : ws.countP (fun j => holdsSlot t.calls (t.insts j) j)
        = vs.countP (fun j => holdsSlot t.calls (t.insts j) j)
          + if holdsSlot t.calls (t.insts i) i then 1 else 0 := by
      rcases which with rfl | ⟨rfl, none⟩
      · rw [List.countP_append, List.countP_singleton]
      · simp [none]
    change t.remainingBranchPredDepth + (ws.map fun v => slots (t.insts v) v).sum
      + t.requests.countP Request.isBpred
      + (a ++ [i]).countP (fun j => holdsSlot t.calls (flaggedAll t.insts ws j) j) = depth
    rw [buffer, List.countP_append, List.countP_cons, List.countP_reverse] at conserved
    rw [sum_slots h quiet, given, List.countP_append, List.countP_singleton, self, front]
    simp only [Bool.false_eq_true, if_false]
    omega
  · change (flaggedAll t.insts ws j).squashCallbacks.count _ ≤ 1
    rw [callbacks]
    exact h.once j
  · change (flaggedAll t.insts ws j).staticInst.isControl = true
    rw [static]
    refine h.control j ?_
    change .releaseIfIncomplete j ∈ (flaggedAll t.insts ws j).squashCallbacks at predicted
    rwa [callbacks] at predicted
  · change (a ++ [i]).getLast? ≠ some j
    rw [List.getLast?_concat]
    rintro ⟨rfl⟩
    rw [show holdsSlot t.calls (flaggedAll t.insts ws i) i = true from holds] at self
    cases self

theorem Thread.SlotsOf.markFault (h : t.SlotsOf depth) (core : Core cfg t) (mem : i ∈ t.inflightInsts)
    (unsquashed : (t.insts i).squashed = false) (quiet : t.Quiet) (f : Fault) :
    (t.markFault cfg i f).SlotsOf depth := by
  obtain ⟨a, vs, w, buffer, -, eq⟩ := markFault_spec core mem unsquashed quiet f
  rw [eq]
  have noted : (faulty t i f).SlotsOf depth := h.touch rfl rfl rfl rfl
  have cut := noted.squashed (core.setFault (core.heap.bounded i mem) f) quiet buffer (Or.inl rfl) w
  exact cut.withCalls (by simp [FlexCPU.squashed, faulty, Thread.update])

theorem Thread.SlotsOf.issue (h : t.SlotsOf depth) (idle : t.Idle i .decoded) :
    (t.enterIssue cfg i).SlotsOf depth := by
  rw [Thread.enterIssue_eq]
  have enrolled : Slots depth (issuedInsts cfg t i) t.inflightInsts
      (t.requests ++ [.issueTid i]) t.calls t.advanceInstNeedsRetry t.remainingBranchPredDepth := by
    refine h.congr (by simp [Request.isBpred]) (fun j => ?_) (fun j _ => ?_) fun j _ => ?_
    · exact congrArg (List.count _) (restatus_squashCallbacks ..)
    · exact restatus_staticInst ..
    · have same : (issuedInsts cfg t i j).isComplete = (t.insts j).isComplete := by
        by_cases self : j = i
        · subst self
          exact InflightInst.isComplete_congr .issued (restatus_self ..) idle.status (by decide)
        · have status : (issuedInsts cfg t i j).status = (t.insts j).status := by
            change (restatus t.insts i .issued j).status = _
            rw [restatus_of_ne _ _ _ self]
          simp [InflightInst.isComplete, InflightInst.reached, status]
      have squashed : (issuedInsts cfg t i j).squashed = (t.insts j).squashed :=
        restatus_squashed ..
      have callbacks : (issuedInsts cfg t i j).squashCallbacks = (t.insts j).squashCallbacks :=
        restatus_squashCallbacks ..
      simp [holdsSlot, same, squashed, callbacks]
  exact enrolled.touch rfl rfl rfl rfl

theorem Thread.SlotsOf.decrement {g : Gate} (h : t.SlotsOf depth) :
    (t.decrement g i).SlotsOf depth := by
  unfold Thread.decrement
  split
  · have lower : (t.update i (·.decrement g)).SlotsOf depth := h.touch rfl rfl rfl rfl
    dsimp only
    split
    · exact lower.withCalls (by simp [Thread.push])
    · exact lower
  · exact h

theorem Thread.SlotsOf.overlap {cb : Callback} {other : InstId} (h : t.SlotsOf depth)
    (kind : cb = .overlapKnown i other ∨ cb = .overlapOurs i other ∨ cb = .overlapTheirs i other)
    (fine : (t.runCallback cfg cb).panicked = none) : (t.runCallback cfg cb).SlotsOf depth := by
  rcases runOverlap_cases t kind fine with same | new
  · rwa [same]
  · rw [new]
    have form := register_eq t i (.depend .mem .completion other)
    change t.addDependency i .mem .completion other = _ at form
    rw [form]
    exact h.congr rfl (fun _ => rfl) (fun _ _ => rfl) fun _ _ => rfl

theorem Thread.SlotsOf.notify {m : Milestone} {after : List Call} (h : t.SlotsOf depth)
    (complete : ((t.insts i).passes m).isComplete = (t.insts i).isComplete)
    (plain : ∀ j, .resolveControl j ∉ after) : (t.notify i m after).SlotsOf depth := by
  have passed : (t.update i (·.passes m)).SlotsOf depth := h.touch rfl rfl complete rfl
  refine passed.withCalls fun j => ?_
  simp [Thread.notify, Thread.push, plain]

theorem Thread.SlotsOf.resolved (h : t.SlotsOf depth) (core : Core cfg t) {rest : List Call}
    (calls : t.calls = .resolveControl i :: rest)
    (followed : t.back ≠ some i ∨ t.advanceInstNeedsRetry = true) :
    ({ t with calls := rest } : Thread).freeBranchPredDepth.SlotsOf depth := by
  have resolving : Call.resolveControl i ∈ t.calls := by simp [calls]
  obtain ⟨mem, unsquashed⟩ := core.stack.protects _ resolving rfl i rfl
  obtain ⟨status, control, -⟩ := core.stack.resolving i resolving
  have predicted : Predicted (t.insts i) i := core.control.followed i mem unsquashed control
    (by simp [status, Status.le_iff, Status.rank]) (Or.inr resolving) followed
  have complete := InflightInst.isComplete_of_le (x := t.insts i) (by simp [status, Status.le_iff])
  have gone : .resolveControl i ∉ rest := fun inside =>
    absurd (core.resolve_quiet calls _ inside) (by simp [Call.protects])
  have others : ∀ j, j ≠ i → holdsSlot t.calls (t.insts j) j = holdsSlot rest (t.insts j) j := by
    intro j ne
    simp [holdsSlot, calls, ne]
  have before : holdsSlot t.calls (t.insts i) i = true := by
    have known : .releaseIfIncomplete i ∈ (t.insts i).squashCallbacks := predicted
    simp [holdsSlot, unsquashed, known, resolving]
  have after : holdsSlot rest (t.insts i) i = false := by simp [holdsSlot, complete, gone]
  have less := countP_differ core.heap.ordered mem
    (q := fun j => holdsSlot rest (t.insts j) j) (fun j _ ne => others j ne) before after
  have conserved := h.conserved
  have popped : ({ t with calls := rest } : Thread).SlotsOf (depth - 1) := by
    refine { h with conserved := ?_, followed := fun j inside holds => h.followed j inside ?_ }
    · simp only
      omega
    · grind
  have freed := popped.free
  rwa [show depth - 1 + 1 = depth by omega] at freed

theorem Slots.not_held {insts : Insts} {buf : List InstId} {reqs : List Request} {calls : List Call}
    {retry : Bool} {remaining : Nat} (h : Slots depth insts buf reqs calls retry remaining)
    (memRef : (insts i).staticInst.isMemRef = true) :
    .releaseIfIncomplete i ∉ (insts i).squashCallbacks := by
  intro predicted
  have := ((insts i).staticInst.control_plain (h.control i predicted)).1
  rw [memRef] at this
  cases this

theorem Slots.unheld {insts : Insts} {buf : List InstId} {reqs : List Request} {calls : List Call}
    {retry : Bool} {remaining : Nat} (h : Slots depth insts buf reqs calls retry remaining)
    (silent : .releaseIfIncomplete i ∉ (insts i).squashCallbacks)
    (callbacks : x.squashCallbacks = (insts i).squashCallbacks)
    (instRef : x.instRef = (insts i).instRef) :
    Slots depth (Function.update insts i x) buf reqs calls retry remaining := by
  have static : x.staticInst = (insts i).staticInst := by
    simp [InflightInst.staticInst, instRef]
  refine h.congr rfl (fun j => ?_) (fun j _ => ?_) fun j _ => ?_
  · exact congrArg (List.count _) (keep (·.squashCallbacks) callbacks j)
  · exact keep (·.staticInst) static j
  · by_cases self : j = i
    · subst self
      simp [holdsSlot, callbacks, silent]
    · simp [self]

theorem Thread.SlotsOf.complete (h : t.SlotsOf depth) (calls : t.calls = [])
    (status : (t.insts i).status < .complete ∨ (t.insts i).staticInst.isMemRef = true) :
    (t.onExecutionCompleted cfg i none).SlotsOf depth := by
  refine h.congr rfl (fun j => ?_) (fun j _ => ?_) fun j _ => ?_
  · exact congrArg (List.count _) (keep (x := (t.insts i).passes .completion) (·.squashCallbacks) rfl j)
  · exact keep (x := (t.insts i).passes .completion) (·.staticInst) rfl j
  · change holdsSlot _ (Function.update t.insts i ((t.insts i).passes .completion) j) j = _
    by_cases self : j = i
    · subst self
      by_cases mem : .releaseIfIncomplete j ∈ (t.insts j).squashCallbacks
      · have control := h.control j mem
        have early : (t.insts j).isComplete = false := by
          refine InflightInst.isComplete_of_lt (status.resolve_right fun memRef => ?_)
          exact h.not_held memRef mem
        simp [holdsSlot, Thread.onExecutionCompleted, Thread.notify, Thread.push, control,
          InflightInst.passes, early]
      · simp [holdsSlot, InflightInst.passes, mem]
    · simp [holdsSlot, Thread.onExecutionCompleted, Thread.notify, Thread.push, Thread.update, self]

theorem Thread.SlotsOf.popFront (h : t.SlotsOf depth) (core : Core cfg t) {rest : List Call}
    (calls : t.calls = .commitPop :: rest) :
    ({ t with calls := rest, inflightInsts := t.inflightInsts.tail } : Thread).SlotsOf depth := by
  have popping : Call.commitPop ∈ t.calls := by simp [calls]
  obtain ⟨x, front, fired⟩ := core.buffer.popping.mp popping
  have mem : x ∈ t.inflightInsts := List.mem_of_head? front
  have unsquashed : (t.insts x).squashed = false := by
    by_contra squashed
    have := (core.buffer.squashed x mem (by simpa using squashed)).2.2
    omega
  have status := (core.milestones.committed_iff x mem unsquashed).mpr fired
  have complete := InflightInst.isComplete_of_le (x := t.insts x) (by rw [status]; decide)
  have unresolved : .resolveControl x ∉ t.calls := fun inside =>
    (core.stack.resolving x inside).2.2 popping
  have none : holdsSlot t.calls (t.insts x) x = false := by simp [holdsSlot, complete, unresolved]
  obtain ⟨tail, buffer⟩ : ∃ tail, t.inflightInsts = x :: tail := List.head?_eq_some_iff.mp front
  have shorter : ({ t with inflightInsts := t.inflightInsts.tail } : Thread).SlotsOf depth := by
    refine { h with conserved := ?_, followed := fun j inside holds => ?_ }
    · have conserved := h.conserved
      rw [buffer, List.countP_cons, none] at conserved
      simpa [buffer] using conserved
    · refine (h.followed j (List.mem_of_mem_tail inside) holds).imp_left fun notLast last => ?_
      refine notLast ?_
      simp only [buffer, List.tail_cons] at last ⊢
      rw [List.getLast?_cons, last]
      rfl
  exact shorter.withCalls (by simp [calls])

theorem Thread.SlotsOf.enterMemory (h : t.SlotsOf depth) (idle : t.Idle i .effAddred) :
    (t.enterMemory i).SlotsOf depth :=
  h.touch rfl rfl (InflightInst.isComplete_congr .memorying rfl idle.status (by decide)) rfl

theorem Inv.slotsMove (inv : Inv cfg t) (h : t.SlotsOf depth) (move : Move cfg o e t t') :
    t'.SlotsOf depth := by
  cases move with
  | @drop r before after serves spent calls =>
    refine h.withRequests ?_
    rw [serves.split]
    have other : r.isBpred = false := by cases r <;> simp_all [Request.isBpred, Thread.Spent]
    simp [other]
  | @enqueue i r token fits unit =>
    refine h.withRequests ?_
    have other : r.isBpred = false := by
      cases r <;> simp_all [Request.isBpred, Request.isToken, Request.carries]
    simp [Thread.request, other]
  | fill | defer | wake => exact h
  | refetch => exact h.withCalls (by simp [Thread.push])
  | fetchWord => exact h.withCalls (by simp)
  | @decode i decoder si pc idle word hit origin =>
    refine h.update rfl (fun _ => rfl) ?_ (Or.inr ?_)
    · exact InflightInst.isComplete_congr .decoded rfl idle.status (by decide)
    · exact (inv.milestones.unissued i (by simp [idle.status, Status.lt_iff, Status.rank])).2
  | issue idle back calls served origin => exact h.issue idle
  | stall => exact { h with followed := fun _ _ _ => Or.inr rfl }
  | extend => exact h.extend inv.heap.bounded (inv.heap.fresh _ (Nat.le_refl _)) _
  | @reserve i can positive other calls =>
    have conserved := h.conserved
    have taken : ({ t with remainingBranchPredDepth := t.remainingBranchPredDepth - 1 } :
        Thread).SlotsOf (depth - 1) := by
      refine { h with conserved := ?_ }
      simp only
      omega
    have asked := taken.predictCtrlInst (i := i)
    rwa [show depth - 1 + 1 = depth by omega] at asked
  | release serves calls =>
    obtain ⟨d, rfl, rest⟩ := h.answered serves
    exact rest.free
  | @predictStall i before after pc serves can calls full active micro =>
    obtain ⟨d, rfl, rest⟩ := h.answered serves
    exact rest.holdSlot (inv.toCore.removeRequest serves.split) can
  | @predictExtend i before after pc serves can calls room active micro =>
    obtain ⟨d, rfl, rest⟩ := h.answered serves
    have held := rest.holdSlot (inv.toCore.removeRequest serves.split) can
    refine held.extend inv.heap.bounded ?_ pc
    have ne : t.nextInst ≠ i :=
      Nat.ne_of_gt (inv.heap.bounded i (List.mem_of_getLast? can.back))
    have fresh := inv.heap.fresh t.nextInst (Nat.le_refl _)
    simpa [Thread.holdSlot, Thread.update, ne] using fresh
  | @enterTid i idle calls ready =>
    have passed : (t.setStatus i .issuedTid).SlotsOf depth := by
      refine h.touch rfl rfl ?_ rfl
      exact InflightInst.isComplete_congr .issuedTid rfl idle.status (by decide)
    exact passed.withCalls (by simp [Thread.push])
  | @waitTid i idle calls unready =>
    have passed : (t.setStatus i .issuedTid).SlotsOf depth := by
      refine h.touch rfl rfl ?_ rfl
      exact InflightInst.isComplete_congr .issuedTid rfl idle.status (by decide)
    exact passed.touch rfl rfl rfl rfl
  | execute idle ready below origin =>
    refine Thread.SlotsOf.notify (t := { t with executed := _ }) h ?_ (by simp)
    exact InflightInst.isComplete_congr .executing rfl idle.status (by decide)
  | @requestExecution i idle once below =>
    have asked : (({ t with requested := t.requested ++ [(t.insts i).staticInst] } :
        Thread).request (.exec i)).SlotsOf depth :=
      h.withRequests (by simp [Thread.request, Request.isBpred])
    refine asked.notify ?_ (by simp)
    exact InflightInst.isComplete_congr .executing rfl idle.status (by decide)
  | setAccess | execResult | awaitMem => exact h.touch rfl rfl rfl rfl
  | @loadResult p before after vals serves read calls =>
    have fewer : ({ t with requests := before ++ after } : Thread).SlotsOf depth :=
      h.withRequests (by simp [serves.split, Request.isBpred])
    exact fewer.touch rfl rfl rfl rfl
  | complete unsquashed allocated stage pending packets status calls served =>
    refine h.complete calls ?_
    rcases status with ⟨-, status, -⟩ | ⟨-, -, memRef⟩ | ⟨-, store⟩
    · exact Or.inl (by rw [status]; decide)
    · exact Or.inr memRef
    · exact Or.inr (StaticInst.store_memRef _ store)
  | setPAddrs => refine h.touch ?_ ?_ ?_ ?_ <;> split <;> rfl
  | effAddr idle twice memRef calls =>
    refine h.notify ?_ (by simp)
    exact InflightInst.isComplete_congr .effAddred rfl idle.status (by decide)
  | sendLoad can load => exact (h.enterMemory can.toIdle).requestMem
  | @sendStore i vals can store =>
    have sent : ((t.enterMemory i).update i (·.setResults vals)).SlotsOf depth :=
      (h.enterMemory can.toIdle).touch rfl rfl rfl rfl
    exact (sent.requestMem (i := i)).withCalls (by simp [Thread.push])
  | @sendFault i f can store =>
    have idle := can.toIdle.enterMemory
    exact (h.enterMemory can.toIdle).markFault (inv.toCore.enterMemory can.toIdle can.ready) idle.mem
      idle.unsquashed (can.quiet store) f
  | @fault i f idle kind packets calls cause =>
    exact h.markFault inv.toCore idle.mem idle.unsquashed (by simp [Quiet, calls]) f
  | transmit serves alive calls => exact h.withRequests (by simp [serves.split, Request.isBpred])
  | @decrement g c rest calls =>
    have popped : ({ t with calls := rest } : Thread).SlotsOf depth :=
      h.withCalls (by simp [calls])
    exact popped.decrement
  | @overlap cb rest i other calls kind fine =>
    have popped : ({ t with calls := rest } : Thread).SlotsOf depth :=
      h.withCalls (by simp [calls])
    exact popped.overlap kind fine
  | @pop c rest calls kind =>
    refine h.withCalls fun j => ?_
    have other : .resolveControl j ≠ c := by
      rintro rfl
      rcases kind with carries | ⟨shrunk, eq⟩ | ⟨cb, eq, -⟩
      · cases carries
      · cases eq
      · cases eq
    simp [calls, other]
  | resolveCorrect calls predictor followed correct => exact h.resolved inv.toCore calls followed
  | @resolveWrong i rest calls predictor followed =>
    have freed := h.resolved inv.toCore calls followed
    have resolving : Call.resolveControl i ∈ t.calls := by simp [calls]
    obtain ⟨status, -, -⟩ := inv.stack.resolving i resolving
    have kept := freeBranchPredDepth_keeps { t with calls := rest } i
    have quiet := inv.toCore.resolve_quiet calls
    obtain ⟨u, a, vs, w, rfl, core, buffer, same, below, -, eq⟩ := resolveWrong_spec inv.toCore calls
    rw [eq]
    have none : holdsSlot ({ t with calls := rest } : Thread).freeBranchPredDepth.calls
        (({ t with calls := rest } : Thread).freeBranchPredDepth.insts i) i = false := by
      have complete := InflightInst.isComplete_of_le
        (x := ({ t with calls := rest } : Thread).freeBranchPredDepth.insts i)
        (by rw [kept.2.2.1, status]; exact Nat.le_refl _)
      have gone : .resolveControl i ∉ rest := fun inside =>
        absurd (quiet _ inside) (by simp [Call.protects])
      rw [below]
      simp [holdsSlot, complete, gone]
    exact freed.squashed core (fun c inside => quiet c (below ▸ inside)) (same.trans buffer)
      (Or.inr ⟨rfl, none⟩) w
  | @resolveUnpredicted i rest calls back retry =>
    refine h.congr rfl (fun _ => rfl) (fun _ _ => rfl) fun j mem => ?_
    by_cases self : j = i
    · subst self
      have none : holdsSlot t.calls (t.insts j) j = false := by
        by_contra holds
        rcases h.followed j mem (by simpa using holds) with notLast | on
        · exact notLast back
        · rw [retry] at on
          cases on
      have resolving : Call.resolveControl j ∈ t.calls := by simp [calls]
      have unsquashed := (inv.stack.protects _ resolving rfl j rfl).2
      have silent : .releaseIfIncomplete j ∉ (t.insts j).squashCallbacks := by
        simpa [holdsSlot, resolving, unsquashed] using none
      simp [holdsSlot, silent]
    · simp [holdsSlot, calls, self]
  | @commit x front unsquashed status quiet =>
    rcases status with status | ⟨-, store⟩
    · refine Thread.SlotsOf.notify (t := t.commitInstruction x) h ?_ (by simp)
      have before := InflightInst.isComplete_of_le (x := t.insts x) (by rw [status]; decide)
      have after := InflightInst.isComplete_of_le (x := (t.insts x).passes .commit)
        (show Status.complete ≤ Status.committed by decide)
      exact after.trans before.symm
    · have silent := h.not_held (StaticInst.store_memRef _ store)
      have passed := Slots.unheld (x := (t.insts x).passes .commit) h silent rfl rfl
      exact passed.withCalls fun j => by simp [Thread.notify, Thread.push, Thread.commitInstruction,
        Thread.update]
  | popFront calls => exact h.popFront inv.toCore calls
  | @reset x f buffer squashed fault quiet =>
    refine { h with conserved := ?_, followed := by simp }
    have conserved := h.conserved
    rw [buffer] at conserved
    simpa [holdsSlot, squashed] using conserved

end Moves

variable {cfg : Config} {tc : ThreadContext} {t : Thread}

/-- Between events every slot is in the pool, with a request for a prediction, or with
a branch that followed its prediction and is neither complete nor squashed. -/
theorem prediction_slots_conserved (limited : 0 < cfg.branchPredMaxDepth)
    (run : Reachable cfg tc t) (between : t.calls = []) :
    t.remainingBranchPredDepth + t.requests.countP Request.isBpred
      + t.inflightInsts.countP (fun i => !(t.insts i).squashed && !(t.insts i).isComplete
          && (t.insts i).squashCallbacks.contains (.releaseIfIncomplete i))
      = cfg.branchPredMaxDepth := by
  have slots : t.SlotsOf cfg.branchPredMaxDepth := by
    refine Guarded.invariant run ?_ (fun t p h => h) fun o e t t' _ _ _ inv h move =>
      inv.slotsMove h move
    exact
      { conserved := by simp [Thread.init, Nat.ne_of_gt limited]
        once := by simp [Thread.init]
        control := by simp [Thread.init, Predicted]
        followed := by simp [Thread.init] }
  have same : ∀ i, holdsSlot t.calls (t.insts i) i = (!(t.insts i).squashed
      && !(t.insts i).isComplete
      && (t.insts i).squashCallbacks.contains (.releaseIfIncomplete i)) := by
    intro i
    simp only [holdsSlot, between, List.contains_nil, Bool.or_false]
    rw [Bool.and_right_comm]
  simpa only [same] using slots.conserved

/-- Instruction word 3 is a branch, and one prediction may be outstanding. -/
def branchConfig : Config :=
  { Config.sample fun word => if word = 3 then .sampleBranch else .nop with
    hasBranchPredictor := true }

/-- The branch is predicted and the instruction after it is fetched. -/
def branchRun : List Event :=
  Event.firstFetch { fetched := fun addr => if addr = 0x1000 then 3 else 7 }
    ++ Event.served {} 0 2 ++ Event.served { taken := true, target := 0x1004, targetNpc := 0x1008 } 1 2

theorem prediction_slots_conserved_branch :
    (Thread.play branchConfig .boot branchRun).inflightInsts = [0, 1]
      ∧ (Thread.play branchConfig .boot branchRun).remainingBranchPredDepth
        + (Thread.play branchConfig .boot branchRun).requests.countP Request.isBpred
        + (Thread.play branchConfig .boot branchRun).inflightInsts.countP (fun i =>
          !((Thread.play branchConfig .boot branchRun).insts i).squashed
          && !((Thread.play branchConfig .boot branchRun).insts i).isComplete
          && ((Thread.play branchConfig .boot branchRun).insts i).squashCallbacks.contains
            (.releaseIfIncomplete i)) = 1 :=
  ⟨by decide +kernel, prediction_slots_conserved (by decide)
    (Thread.reachable_play branchConfig .boot branchRun) (by decide +kernel)⟩

end Gem5.FlexCPU
