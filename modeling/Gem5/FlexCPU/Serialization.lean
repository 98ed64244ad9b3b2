import Gem5.FlexCPU.BufferSafety

/-!
# Strict serialization

Under strict serialization a serializing instruction waits for the commit of its
predecessor, and `lastSerializingInstruction` makes everything issued later wait for
its own. The pointer is only set while the buffer holds another instruction, so the
guarantee is for runs in which no serializing instruction is issued alone.
-/

namespace Gem5.FlexCPU

open Thread

variable {i x : InstId} {b vs : List InstId}

/-- The event does not issue a serializing instruction into an otherwise empty buffer. -/
def Thread.issuesAccompanied (o : Thread) : Event → Bool
  | .activate => true
  | .serve k ans => !o.calls.isEmpty || match o.requests[k]? with
    | some (.issue i) => !o.servable k (.issue i) ans || !o.live i
        || !(o.insts i).staticInst.isSerializing || 1 < o.inflightInsts.length
    | _ => true

namespace Order

/-- A serializing instruction that holds back everything issued after it. -/
structure Pending (s : Order) (i : InstId) : Prop where
  live : s.Live i
  serializing : (s.mark i).static.isSerializing = true
  issued : Status.issued ≤ (s.mark i).status
  uncommitted : (s.mark i).fired .commit = 0

def IssuesAccompanied (s : Order) (a : Action) : Prop :=
  ∀ i, a = .issue i → (s.mark i).static.isSerializing = true → 1 < s.buffer.length

structure Serialized (s : Order) : Prop where
  pointer : ∀ i, s.Pending i → ∃ q, s.serializing = some q ∧ i ≤ q ∧ s.Live q
    ∧ (s.mark q).fired .commit = 0
  blocked : ∀ i, s.Pending i → ∀ j, s.Live j → i < j → Status.issued ≤ (s.mark j).status →
    ∃ q, i ≤ q ∧ (.commit, q) ∈ (s.mark j).deps .exec ∧ (s.mark q).fired .commit = 0
  chained : ∀ i, s.Live i → (s.mark i).static.isSerializing = true →
    Status.issued ≤ (s.mark i).status → ∀ p ∈ s.buffer, p < i → (s.mark p).fired .commit = 0 →
    ∃ q, p ≤ q ∧ (.commit, q) ∈ (s.mark i).deps .exec ∧ (s.mark q).fired .commit = 0
  held : ∀ i, s.Pending i → ∀ j, i < j → (s.mark j).status < .executing
  after : ∀ i, (s.mark i).squashed = false → (s.mark i).static.isSerializing = true →
    Status.executing ≤ (s.mark i).status →
    ∀ p, p < i → (s.mark p).squashed = false → (s.mark p).fired .commit = 1

variable {cfg : Config} {s s' : Order} {a : Action}

theorem Pending.before (wf : s.Wf) (step : Step cfg s a s') (h : s'.Pending i) :
    s.Pending i ∨ a = .issue i := by
  rcases (step.issued_iff wf i).mp h.issued with issued | now
  · left
    have allocated := wf.lt_of_issued issued
    have inside : i ∈ s.buffer := by
      rcases step.mem_buffer h.live.1 with old | ⟨-, rfl⟩
      · exact old
      · exact absurd allocated (Nat.lt_irrefl _)
    refine ⟨⟨inside, step.unsquashed wf i h.live.2⟩, ?_, issued, ?_⟩
    · rw [← (step.static allocated issued).1]
      exact h.serializing
    · have := step.fired_mono wf i .commit
      have := h.uncommitted
      omega
  · exact Or.inr now

theorem Wf.kept_unsquashed (wf : s.Wf) {j : InstId} (buffer : s.buffer = b ++ x :: vs.reverse)
    (open_ : (s.mark x).squashed = false) (mem : j ∈ b ++ [x]) : (s.mark j).squashed = false := by
  by_contra squashed
  have squashed : (s.mark j).squashed = true := by simpa using squashed
  have inside : j ∈ s.buffer := by grind
  have last := (wf.squashed j inside squashed).1
  have front : j ∈ b := by grind
  have tail : s.buffer.getLast? = (x :: vs.reverse).getLast? := by grind
  rw [tail] at last
  have after : j ∈ x :: vs.reverse := List.mem_of_getLast? last
  exact absurd after (Tails.notMem_of_split wf.ordered buffer front)

theorem find_youngest {kept : List InstId} (ordered : kept.Pairwise (· < ·)) (kind : InstId → Bool) (mem : i ∈ kept) (holds : kind i = true) :
    ∃ q, kept.reverse.find? kind = some q ∧ q ∈ kept ∧ i ≤ q ∧ kind q = true := by
  cases found : kept.reverse.find? kind with
  | none => exact absurd holds (List.find?_eq_none.mp found i (List.mem_reverse.mpr mem))
  | some q =>
    obtain ⟨good, before, after, split, misses⟩ := List.find?_eq_some_iff_append.mp found
    refine ⟨q, rfl, List.mem_reverse.mp (List.mem_of_find?_eq_some found), ?_, good⟩
    have form : kept = after.reverse ++ q :: before.reverse := by grind
    rw [form] at mem ordered
    rcases List.mem_append.mp mem with older | rest
    · exact Nat.le_of_lt ((List.pairwise_append.mp ordered).2.2 i older q (List.mem_cons_self ..))
    · grind

theorem Wf.lt_of_kept (wf : s.Wf) (buffer : s.buffer = b ++ x :: vs.reverse) (mem : i ∈ b ++ [x])
    (kept : i ∉ vs ++ [x]) : i < x := by
  rcases List.mem_append.mp mem with before | self
  · exact Tails.lt_of_split wf.ordered buffer before (List.mem_cons_self ..)
  · exact absurd (List.mem_append_right vs self) kept

theorem rebuild_spec (wf : s.Wf) {q : InstId} {kind : StaticInst → Bool}
    (buffer : s.buffer = b ++ x :: vs.reverse) (mem : i ∈ b ++ [x])
    (holds : kind (s.mark i).static = true) (inside : q ∈ s.buffer) (le : i ≤ q) :
    ∃ r, s.rebuild (b ++ [x]) vs (some q) kind = some r ∧ r ∈ b ++ [x] ∧ i ≤ r
      ∧ (r = q ∨ kind (s.mark r).static = true) := by
  have ordered : (b ++ [x]).Pairwise (· < ·) := by
    have := wf.ordered
    rw [buffer, List.append_cons] at this
    exact (List.pairwise_append.mp this).1
  unfold rebuild
  by_cases victim : q ∈ vs
  · rw [if_pos (by simpa using victim)]
    obtain ⟨r, found, kept, above, good⟩ :=
      find_youngest ordered (fun j => kind (s.mark j).static) mem holds
    exact ⟨r, by rw [found]; rfl, kept, above, Or.inr good⟩
  · simp_all

theorem Wf.uncommitted_above (wf : s.Wf) {j : InstId} (first : i ∈ s.buffer) (mem : j ∈ s.buffer)
    (le : i ≤ j) (open_ : (s.mark i).fired .commit = 0) : (s.mark j).fired .commit = 0 := by
  by_cases head : s.buffer.head? = some j
  · obtain rfl : i = j := Nat.le_antisymm le (wf.head_le head first)
    exact open_
  · exact wf.uncommitted j mem head

theorem Serialized.fault_above (wf : s.Wf) (h : Serialized s) {q : InstId}
    (buffer : s.buffer = b ++ x :: vs.reverse) (pending : s.Pending i) (lt : i < x)
    (status : (s.mark x).status = .empty ∨ Status.executing ≤ (s.mark x).status)
    (inside : q ∈ s.buffer) (issued : Status.issued ≤ (s.mark q).status) : q ∉ vs ++ [x] := by
  have early := h.held i pending x lt
  have empty : (s.mark x).status = .empty := by
    rcases status with empty | late
    · exact empty
    · exact absurd late (Nat.not_le.mpr early)
  have newest : x + 1 = s.next := wf.newest x (by simp [buffer])
    (by simp [empty, Status.lt_iff, Status.rank])
  intro mem
  rcases List.mem_append.mp mem with victim | self
  · have above : x < q := Tails.lt_of_later wf.ordered buffer (by simpa using victim)
    have bound := wf.bounded q inside
    exact absurd bound (Nat.not_lt.mpr (newest ▸ above))
  · grind [Status.le_iff, Status.rank]

theorem Serialized.stepPointer (strict : cfg.strictSerialize = true) (wf : s.Wf) (h : Serialized s)
    (accompanied : s.IssuesAccompanied a) (step : Step cfg s a s') (i : InstId)
    (pending : s'.Pending i) :
    ∃ q, s'.serializing = some q ∧ i ≤ q ∧ s'.Live q ∧ (s'.mark q).fired .commit = 0 := by
  rcases pending.before wf step with old | rfl
  swap
  · have many := accompanied i rfl
    cases step with
    | issue live status last settled waits =>
      have serializing : (s.mark i).static.isSerializing = true := by
        simpa using pending.serializing
      refine ⟨i, ?_, Nat.le_refl _, pending.live, pending.uncommitted⟩
      simp [records, strict, serializing, many serializing]
  obtain ⟨q, at_, le, live, uncommitted⟩ := h.pointer i old
  have issued := (wf.serializing q at_).2
  -- the pointer stays and so does what it points to
  have stays : s'.serializing = some q → (s'.mark q).squashed = false →
      ∃ q, s'.serializing = some q ∧ i ≤ q ∧ s'.Live q ∧ (s'.mark q).fired .commit = 0 :=
    fun same open_ => ⟨q, same, le, step.keeps_live live open_ uncommitted,
      step.fired_commit_above wf old.live.1 le pending.uncommitted uncommitted⟩
  have open_ : (∀ x, a ≠ .squash x ∧ a ≠ .fault x ∧ a ≠ .sendFault x) →
      (s'.mark q).squashed = false := by
    intro other
    by_contra squashed
    obtain ⟨x, b, vs, -, -, cause⟩ :=
      step.squashes (wf.bounded q live.1) live.2 (by simpa using squashed)
    rcases cause with ⟨eq, -⟩ | ⟨eq | eq, -⟩
    · exact (other x).1 eq
    · exact (other x).2.1 eq
    · exact (other x).2.2 eq
  cases step with
  | @issue x deps xlive status last settled waits =>
    by_cases recorded : s.records cfg (s.mark x).static = true
    · refine ⟨x, by simp [recorded], ?_, ?_, ?_⟩
      · exact Tails.le_getLast wf.ordered last old.live.1
      · exact ⟨xlive.1, by simpa using xlive.2⟩
      · simpa using settled x xlive.1
    · exact stays (by simp [recorded, at_]) (open_ (by simp))
  | @squash x b vs buffer unsquashed status control uncommittedX =>
    have mem : i ∈ b ++ [x] := pending.live.1
    have kind : serializes cfg (s.mark i).static = true := by
      simpa [serializes, strict] using old.serializing
    obtain ⟨r, eq, kept, above, -⟩ := rebuild_spec wf buffer mem kind live.1 le
    have inside : r ∈ s.buffer := by grind
    have outside : r ∉ vs := by
      simpa using Tails.notMem_of_split wf.ordered (buffer.trans (List.append_cons ..)) kept
    refine ⟨r, by rw [at_]; exact eq, above, ⟨kept, ?_⟩, ?_⟩
    · exact (flag_squashed _ r).mpr ⟨wf.kept_unsquashed buffer unsquashed kept, outside⟩
    · have := wf.uncommitted_above old.live.1 inside above old.uncommitted
      simpa using this
  | @fault x b vs buffer unsquashed uncommittedX status =>
    have lt := wf.lt_of_kept buffer pending.live.1 ((flag_squashed _ i).mp pending.live.2).2
    have kind : (s.mark x).status = .empty ∨ Status.executing ≤ (s.mark x).status := by
      rcases status with status | status | ⟨status, -⟩
      · exact Or.inl status
      · exact Or.inr (by simp [status, Status.le_iff])
      · exact Or.inr (by simp [status, Status.le_iff, Status.rank])
    have outside := h.fault_above wf buffer old lt kind live.1 issued
    exact stays at_ ((flag_squashed _ q).mpr ⟨live.2, outside⟩)
  | @sendFault x b vs buffer unsquashed uncommittedX status memRef ready =>
    have lt := wf.lt_of_kept buffer pending.live.1 ((flag_squashed _ i).mp pending.live.2).2
    have early := h.held i old x lt
    rw [status] at early
    simp [Status.lt_iff, Status.rank] at early
  | _ => exact stays at_ (open_ (by simp))

theorem Serialized.stepBlocked (wf : s.Wf) (h : Serialized s) (step : Step cfg s a s') (i : InstId)
    (pending : s'.Pending i) (j : InstId) (live : s'.Live j) (lt : i < j)
    (issued : Status.issued ≤ (s'.mark j).status) :
    ∃ q, i ≤ q ∧ (.commit, q) ∈ (s'.mark j).deps .exec ∧ (s'.mark q).fired .commit = 0 := by
  rcases pending.before wf step with old | rfl
  swap
  · have newest := step.issue_newest wf
    have bound : j < s.next := step.lt_of_status wf (Nat.le_trans (by simp [Status.rank]) issued)
    exact absurd bound (Nat.not_lt.mpr (newest ▸ lt))
  rcases (step.issued_iff wf j).mp issued with before | rfl
  · have inside : j ∈ s.buffer := by
      rcases step.mem_buffer live.1 with inside | ⟨-, rfl⟩
      · exact inside
      · exact absurd (wf.lt_of_issued before) (Nat.lt_irrefl _)
    obtain ⟨q, le, dep, silent⟩ :=
      h.blocked i old j ⟨inside, step.unsquashed wf j live.2⟩ lt before
    exact ⟨q, le, step.deps_mono wf dep before,
      step.fired_commit_above wf old.live.1 le pending.uncommitted silent⟩
  · obtain ⟨q, at_, le, qlive, silent⟩ := h.pointer i old
    refine ⟨q, le, ?_, step.fired_commit_above wf old.live.1 le pending.uncommitted silent⟩
    cases step with
    | issue jlive status last settled waits =>
      simpa using waits.serial q at_ qlive silent

theorem Serialized.stepChained (strict : cfg.strictSerialize = true) (wf : s.Wf) (h : Serialized s)
    (step : Step cfg s a s') (i : InstId) (live : s'.Live i)
    (serializing : (s'.mark i).static.isSerializing = true)
    (issued : Status.issued ≤ (s'.mark i).status) (p : InstId) (mem : p ∈ s'.buffer) (lt : p < i)
    (uncommitted : (s'.mark p).fired .commit = 0) :
    ∃ q, p ≤ q ∧ (.commit, q) ∈ (s'.mark i).deps .exec ∧ (s'.mark q).fired .commit = 0 := by
  have bound : i < s.next := step.lt_of_status wf (Nat.le_trans (by simp [Status.rank]) issued)
  have inside : p ∈ s.buffer := by
    rcases step.mem_buffer mem with inside | ⟨-, rfl⟩
    · exact inside
    · exact absurd (Nat.lt_trans lt bound) (Nat.lt_irrefl _)
  have before : (s.mark p).fired .commit = 0 := by
    have := step.fired_mono wf p .commit
    omega
  rcases (step.issued_iff wf i).mp issued with old | rfl
  · have iinside : i ∈ s.buffer := by
      rcases step.mem_buffer live.1 with inside | ⟨-, rfl⟩
      · exact inside
      · exact absurd bound (Nat.lt_irrefl _)
    rw [(step.static bound old).1] at serializing
    obtain ⟨q, le, dep, silent⟩ := h.chained i ⟨iinside, step.unsquashed wf i live.2⟩ serializing
      old p inside lt before
    exact ⟨q, le, step.deps_mono wf dep old,
      step.fired_commit_above wf inside le uncommitted silent⟩
  · cases step with
    | issue ilive status last settled waits =>
      have serializing : (s.mark i).static.isSerializing = true := by simpa using serializing
      obtain ⟨front, buffer⟩ := List.getLast?_eq_some_iff.mp last
      have older : p ∈ front := by grind
      have nonempty : front ≠ [] := List.ne_nil_of_mem older
      obtain ⟨q, found⟩ : ∃ q, front.getLast? = some q :=
        ⟨_, List.getLast?_eq_some_getLast nonempty⟩
      have previous : s.buffer.dropLast.getLast? = some q := by grind
      have qmem : q ∈ s.buffer := by grind
      have le : p ≤ q := by
        obtain ⟨init, form⟩ := List.getLast?_eq_some_iff.mp found
        have ordered := wf.ordered
        rw [form] at older
        rcases List.mem_append.mp older with first | self
        · grind
        · exact Nat.le_of_eq (by simpa using self)
      refine ⟨q, le, ?_, ?_⟩
      · simpa using waits.strict strict serializing q previous (settled q qmem)
      · grind

theorem Serialized.stepHeld (wf : s.Wf) (h : Serialized s) (counted : Counted s)
    (step : Step cfg s a s') (i : InstId) (pending : s'.Pending i) (j : InstId) (lt : i < j) :
    (s'.mark j).status < .executing := by
  refine Nat.lt_of_not_le fun late => ?_
  rcases pending.before wf step with old | rfl
  swap
  · have newest := step.issue_newest wf
    have bound : j < s.next := step.lt_of_status wf (Nat.le_trans (by simp [Status.rank]) late)
    exact absurd bound (Nat.not_lt.mpr (newest ▸ lt))
  rcases (step.executing_iff wf j).mp late with running | rfl
  · exact absurd running (Nat.not_le.mpr (h.held i old j lt))
  · cases step with
    | execute live status ready =>
      obtain ⟨q, -, dep, silent⟩ := h.blocked i old j live lt
        (by simp [status, Status.le_iff, Status.rank])
      have := counted.all_fired live.2 ready _ dep
      exact absurd silent (Nat.ne_of_gt this)

theorem Serialized.stepAfter (wf : s.Wf) (h : Serialized s) (counted : Counted s)
    (step : Step cfg s a s') (i : InstId) (unsquashed : (s'.mark i).squashed = false)
    (serializing : (s'.mark i).static.isSerializing = true)
    (late : Status.executing ≤ (s'.mark i).status) (p : InstId) (lt : p < i)
    (open_ : (s'.mark p).squashed = false) : (s'.mark p).fired .commit = 1 := by
  have bound : i < s.next := step.lt_of_status wf (Nat.le_trans (by simp [Status.rank]) late)
  have openP := step.unsquashed wf p open_
  rcases (step.executing_iff wf i).mp late with running | rfl
  · have issued : Status.issued ≤ (s.mark i).status := Nat.le_trans (by simp [Status.rank]) running
    rw [(step.static bound issued).1] at serializing
    exact step.fired_commit wf
      (h.after i (step.unsquashed wf i unsquashed) serializing running p lt openP)
  · refine step.fired_commit wf ?_
    cases step with
    | execute live status ready =>
      have issued : Status.issued ≤ (s.mark i).status := by
        simp [status, Status.le_iff, Status.rank]
      have serializing : (s.mark i).static.isSerializing = true := by
        simpa [Mark.pass] using serializing
      by_cases inside : p ∈ s.buffer
      · by_contra notOne
        have bound := wf.fired_le p .commit
        have none : (s.mark p).fired .commit = 0 := by grind [Milestone.announcements]
        obtain ⟨q, -, dep, silent⟩ := h.chained i live serializing issued p inside lt none
        have := counted.all_fired live.2 ready _ dep
        exact absurd silent (Nat.ne_of_gt this)
      · exact (wf.left p (Nat.lt_trans lt bound) inside openP).1

theorem Serialized.step (strict : cfg.strictSerialize = true) (wf : s.Wf) (h : Serialized s)
    (counted : Counted s) (accompanied : s.IssuesAccompanied a) (step : Step cfg s a s') :
    Serialized s' where
  pointer := h.stepPointer strict wf accompanied step
  blocked := h.stepBlocked wf step
  chained := h.stepChained strict wf step
  held := h.stepHeld wf counted step
  after := h.stepAfter wf counted step

end Order

variable {cfg : Config} {tc : ThreadContext} {guard : Thread → Event → Prop} {t : Thread}

theorem Thread.issuesAccompanied_action {o : Thread} {e : Event} {a : Action}
    (accompanied : o.issuesAccompanied e = true) (caused : Caused o e t a)
    (step : ∃ s, Order.Step cfg t.order a s) : t.order.IssuesAccompanied a := by
  rintro i rfl serializing
  obtain ⟨s, step⟩ := step
  obtain ⟨same, ⟨k, ans, rfl, at_, servable⟩, calls⟩ := caused
  have live : t.order.Live i := by
    cases step with
    | issue live => exact live
  rw [← same] at live serializing ⊢
  have alive : o.alive i = true := alive_iff.mpr (Or.inl live.1)
  have olive : o.live i = true := by
    have open_ : (o.insts i).squashed = false := live.2
    simp [Thread.live, alive, open_]
  have serializing : (o.insts i).staticInst.isSerializing = true := serializing
  change 1 < o.inflightInsts.length
  simpa [Thread.issuesAccompanied, calls, at_, servable, olive, serializing] using accompanied

theorem Guarded.serialized (strict : cfg.strictSerialize = true) (run : Guarded cfg tc guard t)
    (ok : ∀ o e, guard o e → o.beginsAlone = true ∧ o.issuesAccompanied e = true) :
    t.order.Counted ∧ t.order.Serialized := by
  refine Guarded.ordered (P := fun s => s.Counted ∧ s.Serialized) run ⟨?_, ?_⟩ ?_
  · exact Guarded.counted .refl fun o e h => (ok o e h).1
  · have blank : ∀ i, ¬ Status.issued ≤ ((Thread.init cfg tc).order.mark i).status := fun i => by
      simp [Thread.order, Thread.init, InflightInst.mark, Status.le_iff, Status.rank]
    exact
      { pointer := fun i pending => absurd pending.issued (blank i)
        blocked := fun i pending => absurd pending.issued (blank i)
        chained := fun i _ _ issued => absurd issued (blank i)
        held := fun i pending => absurd pending.issued (blank i)
        after := fun i _ _ late => absurd (Nat.le_trans (by simp [Status.rank]) late) (blank i) }
  · rintro o e t a s guarded inv caused ⟨counted, serialized⟩ step
    obtain ⟨alone, accompanied⟩ := ok o e guarded
    exact ⟨counted.step inv.wf (Thread.beginsAlone_action alone caused) step,
      serialized.step strict inv.wf counted
        (Thread.issuesAccompanied_action accompanied caused ⟨s, step⟩) step⟩

/-- Under strict serialization, in runs whose executions begin alone and whose
serializing instructions are not issued alone, a serializing instruction holds back
everything issued after it until it is committed, and begins when everything older
is committed. -/
theorem strict_serialization (strict : cfg.strictSerialize = true)
    (run : Guarded cfg tc (fun o e => o.beginsAlone = true ∧ o.issuesAccompanied e = true) t) :
    (∀ i j, (t.insts i).staticInst.isSerializing = true → Status.issued ≤ (t.insts i).status →
      (t.insts i).squashed = false → (t.insts i).fired .commit = 0 →
      Status.issued ≤ (t.insts j).status → (t.insts i).issueSeqNum < (t.insts j).issueSeqNum →
      (t.insts j).status < .executing)
    ∧ ∀ i, (t.insts i).staticInst.isSerializing = true → (t.insts i).squashed = false →
      Status.executing ≤ (t.insts i).status → ∀ p, p < i → (t.insts p).squashed = false →
      (t.insts p).fired .commit = 1 := by
  have inv := run.inv
  have serialized := (Guarded.serialized strict run fun _ _ ok => ok).2
  refine ⟨fun i j serializing issued unsquashed uncommitted later after => ?_,
    fun i serializing unsquashed => serialized.after i unsquashed serializing⟩
  have lt : i < j := (run.issueOrder.lt_iff issued later).mp after
  refine serialized.held i ⟨⟨?_, unsquashed⟩, serializing, issued, uncommitted⟩ j lt
  by_contra outside
  have := (inv.wf.left i (inv.wf.lt_of_issued issued) outside unsquashed).1
  exact absurd (uncommitted.symm.trans this) (by simp)

/-- Instruction word 3 is serializing, all others have no effect. -/
def serializingConfig : Config :=
  { Config.sample fun word =>
      if word = 3 then { StaticInst.nop with isSerializingFlag := true } else .nop with
    strictSerialize := true }

/-- An instruction, a serializing one and a third, all issued; the first one executes. -/
def serializingRun : List Event :=
  Event.firstFetch { fetched := fun addr => if addr = 0x1004 then 3 else 7 }
    ++ Event.served {} 0 2 ++ Event.served {} 1 2 ++ Event.served {} 2 2 ++ Event.served {} 0 8

theorem strict_serialization_sample :
    ((Thread.play serializingConfig .boot serializingRun).insts 1).issueSeqNum
        < ((Thread.play serializingConfig .boot serializingRun).insts 2).issueSeqNum
      ∧ ((Thread.play serializingConfig .boot serializingRun).insts 2).status < .executing
      ∧ (Thread.play serializingConfig .boot serializingRun).executed = [0] := by
  have run : Guarded serializingConfig .boot
      (fun o e => (o.beginsAlone && o.issuesAccompanied e) = true)
      (Thread.play serializingConfig .boot serializingRun) := Guarded.play (by decide +kernel)
  have guarded := run.mono fun _ _ ok => Bool.and_eq_true_iff.mp ok
  exact ⟨by decide +kernel,
    (strict_serialization rfl guarded).1 1 2 (by decide +kernel) (by decide +kernel)
      (by decide +kernel) (by decide +kernel) (by decide +kernel) (by decide +kernel),
    by decide +kernel⟩

/-- A serializing instruction that is issued alone. -/
def loneSerializingRun : List Event :=
  Event.firstFetch { fetched := fun addr => if addr = 0x1000 then 3 else 7 }
    ++ Event.served {} 0 2 ++ Event.served {} 1 2 ++ Event.served {} 0 8 ++ Event.served {} 0 8

/-- The second instruction executes although the serializing first one is not committed. -/
theorem lone_serializing_overtaken :
    serializingConfig.strictSerialize = true
      ∧ Reachable serializingConfig .boot (Thread.play serializingConfig .boot loneSerializingRun)
      ∧ ((Thread.play serializingConfig .boot loneSerializingRun).insts 0).staticInst.isSerializing
          = true
      ∧ ((Thread.play serializingConfig .boot loneSerializingRun).insts 0).status = .executing
      ∧ ((Thread.play serializingConfig .boot loneSerializingRun).insts 0).squashed = false
      ∧ ((Thread.play serializingConfig .boot loneSerializingRun).insts 0).issueSeqNum
          < ((Thread.play serializingConfig .boot loneSerializingRun).insts 1).issueSeqNum
      ∧ ((Thread.play serializingConfig .boot loneSerializingRun).insts 1).status = .executing :=
  ⟨rfl, Thread.reachable_play .., by decide +kernel, by decide +kernel, by decide +kernel,
    by decide +kernel, by decide +kernel⟩

end Gem5.FlexCPU
