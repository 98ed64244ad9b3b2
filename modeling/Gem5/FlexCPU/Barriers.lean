import Gem5.FlexCPU.Serialization

/-!
# Memory barriers

A barrier waits for the completion of the memory references and barriers it finds in
the buffer, and later references wait for the barrier that `lastMemBarrier` names.
Stores leave the buffer before they complete, and `markFault` does not rebuild
`lastMemBarrier`, so the guarantees are for runs in which neither is missed.
-/

namespace Gem5.FlexCPU

open Thread

/-- No store outside the buffer is still unanswered when a barrier that is not itself
a memory reference is issued. -/
def Thread.fencesAnswered (o : Thread) : Event → Bool
  | .activate => true
  | .serve k ans => !o.calls.isEmpty || match o.requests[k]? with
    | some (.issue i) => !o.servable k (.issue i) ans || !o.live i
        || !(o.insts i).staticInst.isMemBarrier || (o.insts i).staticInst.isMemRef
        || (List.range o.nextInst).all fun j => o.inflightInsts.contains j
          || (o.insts j).squashed || !(o.insts j).staticInst.isStore
          || (o.insts j).fired .completion != 0
    | _ => true

/-- No memory reference is issued while `lastMemBarrier` names a squashed instruction
and an incomplete barrier is in the buffer. -/
def Thread.barrierKnown (o : Thread) : Event → Bool
  | .activate => true
  | .serve k ans => !o.calls.isEmpty || match o.requests[k]? with
    | some (.issue i) => !o.servable k (.issue i) ans || !o.live i
        || !(o.insts i).staticInst.isMemRef || match o.lastMemBarrier with
          | none => true
          | some q => !(o.insts q).squashed || o.inflightInsts.all fun j => j == i
            || !(o.insts j).staticInst.isMemBarrier || (o.insts j).isComplete
    | _ => true

namespace Order

def FencesAnswered (s : Order) (a : Action) : Prop :=
  ∀ i, a = .issue i → (s.mark i).static.isMemBarrier = true → (s.mark i).static.isMemRef = false →
    ∀ j, j < s.next → j ∉ s.buffer → (s.mark j).squashed = false →
    (s.mark j).static.isStore = true → (s.mark j).fired .completion ≠ 0

def BarrierKnown (s : Order) (a : Action) : Prop :=
  ∀ i, a = .issue i → (s.mark i).static.isMemRef = true → ∀ q, s.barrier = some q →
    (s.mark q).squashed = true → ∀ j ∈ s.buffer, j ≠ i → (s.mark j).static.isMemBarrier = true →
    Status.complete ≤ (s.mark j).status

/-- An incomplete barrier in the buffer. -/
structure Open (s : Order) (i : InstId) : Prop where
  live : s.Live i
  barrier : (s.mark i).static.isMemBarrier = true
  issued : Status.issued ≤ (s.mark i).status
  incomplete : (s.mark i).fired .completion = 0

/-- The counter on which barrier `i` waits. -/
def gate (s : Order) (i : InstId) : Gate := if (s.mark i).static.isMemRef then .mem else .exec

structure Fenced (s : Order) : Prop where
  done : ∀ i, Status.complete ≤ (s.mark i).status → (s.mark i).fired .completion = 1
    ∨ (s.mark i).static.isStore = true ∧ (s.mark i).status = .committed
  ready : ∀ i, (s.mark i).squashed = false → (s.mark i).static.isMemRef = true →
    Status.memorying ≤ (s.mark i).status → ∀ d ∈ (s.mark i).deps .mem, 0 < (s.mark d.2).fired d.1
  pointer : ∀ b, s.Open b → ∃ q, s.barrier = some q ∧ ((s.mark q).squashed = true
    ∨ b ≤ q ∧ s.Live q ∧ (s.mark q).static.isMemBarrier = true)
  chained : ∀ q, s.Live q → (s.mark q).static.isMemBarrier = true →
    Status.issued ≤ (s.mark q).status → ∀ b, s.Open b → b < q →
    (.completion, b) ∈ (s.mark q).deps (s.gate q)
  blocked : ∀ b, s.Open b → ∀ m, s.Live m → (s.mark m).static.isMemRef = true →
    Status.issued ≤ (s.mark m).status → b < m →
    ∃ q, b ≤ q ∧ (.completion, q) ∈ (s.mark m).deps .mem ∧ s.Open q
  older : ∀ b, s.Live b → (s.mark b).static.isMemBarrier = true →
    (s.mark b).static.isMemRef = false → Status.issued ≤ (s.mark b).status →
    ∀ m, m < b → (s.mark m).squashed = false → (s.mark m).static.isMemRef = true →
    (s.mark m).fired .completion = 0 → (.completion, m) ∈ (s.mark b).deps .exec
  begun : ∀ b, (s.mark b).squashed = false → (s.mark b).static.isMemBarrier = true →
    (s.mark b).static.isMemRef = false → Status.executing ≤ (s.mark b).status →
    ∀ m, m < b → (s.mark m).squashed = false → (s.mark m).static.isMemRef = true →
    (s.mark m).fired .completion = 1
  sent : ∀ m ∈ s.sends, Status.issued ≤ (s.mark m).status ∧ ∀ b, b < m →
    (s.mark b).squashed = false → (s.mark b).static.isMemBarrier = true →
    (s.mark b).static.isMemRef = false → (s.mark b).fired .completion = 1

variable {cfg : Config} {s s' : Order} {a : Action}

theorem Open.before (wf : s.Wf) (step : Step cfg s a s') {b : InstId} (h : s'.Open b) :
    s.Open b ∨ a = .issue b := by
  rcases (step.issued_iff wf b).mp h.issued with issued | now
  · left
    have allocated := wf.lt_of_issued issued
    have inside : b ∈ s.buffer := by
      rcases step.mem_buffer h.live.1 with old | ⟨-, rfl⟩
      · exact old
      · exact absurd allocated (Nat.lt_irrefl _)
    refine ⟨⟨inside, step.unsquashed wf b h.live.2⟩, ?_, issued, ?_⟩
    · rw [← (step.static allocated issued).1]
      exact h.barrier
    · have := step.fired_mono wf b .completion
      have := h.incomplete
      omega
  · exact Or.inr now

/-- Between events an instruction of the buffer that has not announced its completion
has not reached it either. -/
theorem Fenced.incomplete (wf : s.Wf) (h : Fenced s) {i : InstId} (live : s.Live i)
    (uncommitted : (s.mark i).fired .commit = 0) (pending : (s.mark i).fired .completion = 0) :
    (s.mark i).status < .complete := by
  refine Nat.lt_of_not_le fun late => ?_
  rcases h.done i late with one | ⟨-, committed⟩
  · omega
  · have := (wf.committed i live.1 live.2).mp committed
    omega

theorem Fenced.in_order (h : Fenced s) (counted : Counted s) {b q : InstId} (open_ : s.Open b)
    (live : s.Live q) (barrier : (s.mark q).static.isMemBarrier = true)
    (issued : Status.issued ≤ (s.mark q).status) (lt : b < q) (late : (s.mark q).static.isMemRef =
    false ∧ Status.executing ≤ (s.mark q).status ∨ (s.mark q).static.isMemRef = true ∧
    Status.memorying ≤ (s.mark q).status) : False := by
  have dep := h.chained q live barrier issued b open_ lt
  have fired : 0 < (s.mark b).fired .completion := by
    rcases late with ⟨plain, late⟩ | ⟨memRef, late⟩
    · simp only [gate, plain] at dep
      exact counted.ready q live.2 late _ dep
    · simp only [gate, memRef] at dep
      exact h.ready q live.2 memRef late _ dep
  have := open_.incomplete
  omega

theorem Fenced.stepDone (wf : s.Wf) (h : Fenced s) (step : Step cfg s a s') (i : InstId)
    (late : Status.complete ≤ (s'.mark i).status) : (s'.mark i).fired .completion = 1
      ∨ (s'.mark i).static.isStore = true ∧ (s'.mark i).status = .committed := by
  have allocated := step.lt_of_status wf (Nat.le_trans (by simp [Status.rank]) late)
  have stays : (s'.mark i).status = (s.mark i).status → (s'.mark i).fired .completion = 1
      ∨ (s'.mark i).static.isStore = true ∧ (s'.mark i).status = .committed := by
    intro same
    rw [same] at late
    have issued : Status.issued ≤ (s.mark i).status := Nat.le_trans (by simp [Status.rank]) late
    rcases h.done i late with one | ⟨store, committed⟩
    · exact Or.inl (step.fired_completion wf one)
    · exact Or.inr ⟨(step.static allocated issued).1 ▸ store, same.trans committed⟩
  have status := step.status allocated
  by_cases target : ∃ st, a.status = some (i, st)
  · obtain ⟨st, target⟩ := target
    rw [target] at status
    rw [status] at late
    cases step with
    | @complete x unsquashed allocated pending was =>
      obtain rfl : x = i := by simp [Action.status] at target; exact target.1
      left
      simp [Mark.pass, pending]
    | @commit x front unsquashed pending was =>
      obtain rfl : x = i := by simp [Action.status] at target; exact target.1
      rcases was with was | ⟨was, store⟩
      · rcases h.done x (by simp [was, Status.le_iff]) with one | ⟨-, committed⟩
        · left
          simpa [Mark.pass] using one
        · rw [was] at committed
          cases committed
      · aesop
    | _ =>
      simp only [Action.status, reduceCtorEq] at target
      try
        obtain ⟨-, rfl⟩ := target
        simp [Status.le_iff, Status.rank] at late
  · grind

theorem Fenced.stepReady (wf : s.Wf) (h : Fenced s) (step : Step cfg s a s') (i : InstId)
    (unsquashed : (s'.mark i).squashed = false) (memRef : (s'.mark i).static.isMemRef = true)
    (late : Status.memorying ≤ (s'.mark i).status) (d : Milestone × InstId)
    (dep : d ∈ (s'.mark i).deps .mem) : 0 < (s'.mark d.2).fired d.1 := by
  refine Nat.lt_of_lt_of_le ?_ (step.fired_mono wf d.2 d.1)
  have open_ := step.unsquashed wf i unsquashed
  have allocated := step.lt_of_status wf (Nat.le_trans (by simp [Status.rank]) late)
  have issued : Status.issued ≤ (s'.mark i).status := Nat.le_trans (by simp [Status.rank]) late
  have status := step.status allocated
  have before : Status.issued ≤ (s.mark i).status := by
    rcases (step.issued_iff wf i).mp issued with before | rfl
    · exact before
    · grind [Action.status, Status.le_iff, Status.rank]
  have memRef : (s.mark i).static.isMemRef = true := (step.static allocated before).1 ▸ memRef
  rcases step.deps wf i .mem with same | ⟨rfl, -⟩ | ⟨other, rfl, -, -⟩
  · rw [same] at dep
    rcases step.memorying wf memRef late with sent | rfl | rfl
    · exact h.ready i open_ memRef sent d dep
    · cases step with
      | send live was memRefX ready =>
        by_contra silent
        have due : 0 < s.due .mem i := Latch.due_pos dep (by
          have := Nat.eq_zero_of_not_pos silent
          rw [this]
          cases d.1 <;> simp [Milestone.announcements])
        omega
    · cases step with
      | sendFault => exact absurd ((flag_squashed _ i).mp unsquashed).2 (by simp)
  · grind [Action.status, Status.le_iff, Status.rank]
  · rw [status] at late
    cases step with
    | overlap unsent =>
      rcases unsent with squashed | ⟨-, early⟩
      · rw [open_] at squashed
        cases squashed
      · exact absurd late (Nat.not_le.mpr early)

theorem Fenced.stepPointer (wf : s.Wf) (h : Fenced s) (step : Step cfg s a s') (b : InstId)
    (now : s'.Open b) : ∃ q, s'.barrier = some q ∧ ((s'.mark q).squashed = true
      ∨ b ≤ q ∧ s'.Live q ∧ (s'.mark q).static.isMemBarrier = true) := by
  rcases now.before wf step with old | rfl
  swap
  · cases step with
    | issue live status last settled waits =>
      have barrier : (s.mark b).static.isMemBarrier = true := by simpa using now.barrier
      exact ⟨b, by simp [barrier], Or.inr ⟨Nat.le_refl _, now.live, now.barrier⟩⟩
  obtain ⟨q, at_, known⟩ := h.pointer b old
  obtain ⟨bound, issued⟩ := wf.barrier q at_
  have stays : s'.barrier = some q → ∃ q, s'.barrier = some q ∧ ((s'.mark q).squashed = true
      ∨ b ≤ q ∧ s'.Live q ∧ (s'.mark q).static.isMemBarrier = true) := by
    intro same
    refine ⟨q, same, ?_⟩
    by_cases gone : (s'.mark q).squashed = true
    · exact Or.inl gone
    right
    have open_ : (s'.mark q).squashed = false := by simpa using gone
    rcases known with squashed | ⟨le, live, barrier⟩
    · exact absurd (step.unsquashed wf q open_) (by simp [squashed])
    · refine ⟨le, step.stays_live live open_ ?_, (step.static bound issued).1 ▸ barrier⟩
      rintro rfl head
      have least := wf.head_le head old.live.1
      obtain rfl : b = q := Nat.le_antisymm le least
      exact step.pop_head wf head now.live
  cases step with
  | @issue x deps live status last settled waits =>
    by_cases barrier : (s.mark x).static.isMemBarrier = true
    · refine ⟨x, by simp [barrier], Or.inr ⟨?_, ⟨live.1, by simpa using live.2⟩, by simpa using barrier⟩⟩
      exact Tails.le_getLast wf.ordered last old.live.1
    · exact stays (by simp [barrier, at_])
  | @squash x front vs buffer unsquashed status control pending =>
    by_cases victim : q ∈ vs
    · have mem : b ∈ front ++ [x] := now.live.1
      have ordered : (front ++ [x]).Pairwise (· < ·) := by
        have := wf.ordered
        rw [buffer, List.append_cons] at this
        exact (List.pairwise_append.mp this).1
      obtain ⟨r, found, kept, above, kind⟩ :=
        find_youngest ordered (fun j => (s.mark j).static.isMemBarrier) mem old.barrier
      have outside : r ∉ vs := by
        simpa using Tails.notMem_of_split wf.ordered (buffer.trans (List.append_cons ..)) kept
      refine ⟨r, ?_, Or.inr ⟨above, ⟨kept, ?_⟩, by simpa using kind⟩⟩
      · change s.rebuild (front ++ [x]) vs s.barrier (·.isMemBarrier) = some r
        rw [rebuild, at_, if_pos (by simpa using victim), found]
        rfl
      · exact (flag_squashed _ r).mpr ⟨wf.kept_unsquashed buffer unsquashed kept, outside⟩
    · refine stays ?_
      change s.rebuild (front ++ [x]) vs s.barrier (·.isMemBarrier) = some q
      rw [rebuild, at_, if_neg (by simpa using victim)]
  | _ => exact stays at_

theorem Fenced.stepChained (wf : s.Wf) (h : Fenced s) (step : Step cfg s a s') (q : InstId)
    (live : s'.Live q) (barrier : (s'.mark q).static.isMemBarrier = true)
    (issued : Status.issued ≤ (s'.mark q).status) (b : InstId) (now : s'.Open b) (lt : b < q) :
    (.completion, b) ∈ (s'.mark q).deps (s'.gate q) := by
  have bound : q < s.next := step.lt_of_status wf (Nat.le_trans (by simp [Status.rank]) issued)
  rcases now.before wf step with old | rfl
  swap
  · have newest := step.issue_newest wf
    exact absurd bound (Nat.not_lt.mpr (newest ▸ lt))
  rcases (step.issued_iff wf q).mp issued with before | rfl
  · have inside : q ∈ s.buffer := by
      rcases step.mem_buffer live.1 with inside | ⟨-, rfl⟩
      · exact inside
      · exact absurd bound (Nat.lt_irrefl _)
    have static := (step.static bound before).1
    have dep := h.chained q ⟨inside, step.unsquashed wf q live.2⟩ (static ▸ barrier) before b old lt
    have same : s'.gate q = s.gate q := by simp only [gate, static]
    rw [same]
    exact step.deps_mono wf dep before
  · cases step with
    | issue qlive status last settled waits =>
      have barrier : (s.mark q).static.isMemBarrier = true := by simpa using barrier
      have early := h.incomplete wf old.live (settled b old.live.1) old.incomplete
      have dep := waits.fence barrier b old.live.1 (Nat.ne_of_lt lt) (Or.inl old.barrier) early
      simpa [gate] using dep

theorem Fenced.stays_open (wf : s.Wf) (h : Fenced s) (counted : Counted s) (step : Step cfg s a s')
    {b q m : InstId} (now : s'.Open b) (old : s.Open b) (le : b ≤ q) (open_ : s.Open q)
    (lt : q < m) (mlive : s.Live m) (munsquashed : (s'.mark m).squashed = false) : s'.Open q := by
  have bound := wf.lt_of_issued open_.issued
  have unsquashed : (s'.mark q).squashed = false := by
    by_contra gone
    have := step.squash_up wf open_.live mlive lt (by simpa using gone)
    rw [munsquashed] at this
    cases this
  refine ⟨step.stays_live open_.live unsquashed ?_, (step.static bound open_.issued).1 ▸ open_.barrier,
    (step.issued_iff wf q).mpr (Or.inl open_.issued), ?_⟩
  · rintro rfl head
    have least := wf.head_le head old.live.1
    obtain rfl : b = q := Nat.le_antisymm le least
    exact step.pop_head wf head now.live
  · rw [step.fired wf, open_.incomplete, Nat.zero_add]
    have other : a.announcement ≠ some (q, .completion) := by
      intro announced
      have : a = .complete q := by cases a <;> simp_all [Action.announcement]
      subst this
      rcases Nat.lt_or_eq_of_le le with below | rfl
      · refine h.in_order counted old open_.live open_.barrier open_.issued below ?_
        cases step with
        | complete _ _ _ status => grind [Status.le_iff, Status.rank]
      · have := now.incomplete
        rw [step.fired wf, open_.incomplete] at this
        simp [Action.announcement] at this
    simp [other]

theorem Fenced.stepBlocked (wf : s.Wf) (h : Fenced s) (counted : Counted s)
    (known : s.BarrierKnown a) (step : Step cfg s a s') (b : InstId) (now : s'.Open b) (m : InstId)
    (live : s'.Live m) (memRef : (s'.mark m).static.isMemRef = true)
    (issued : Status.issued ≤ (s'.mark m).status) (lt : b < m) :
    ∃ q, b ≤ q ∧ (.completion, q) ∈ (s'.mark m).deps .mem ∧ s'.Open q := by
  have bound : m < s.next := step.lt_of_status wf (Nat.le_trans (by simp [Status.rank]) issued)
  have inside : m ∈ s.buffer := by
    rcases step.mem_buffer live.1 with inside | ⟨-, rfl⟩
    · exact inside
    · exact absurd bound (Nat.lt_irrefl _)
  have mlive : s.Live m := ⟨inside, step.unsquashed wf m live.2⟩
  rcases now.before wf step with old | rfl
  swap
  · have newest := step.issue_newest wf
    exact absurd bound (Nat.not_lt.mpr (newest ▸ lt))
  rcases (step.issued_iff wf m).mp issued with before | rfl
  · obtain ⟨q, le, dep, open_⟩ :=
      h.blocked b old m mlive ((step.static bound before).1 ▸ memRef) before lt
    exact ⟨q, le, step.deps_mono wf dep before,
      h.stays_open wf counted step now old le open_ (wf.parents m .mem _ dep) mlive live.2⟩
  · obtain ⟨q, at_, cases_⟩ := h.pointer b old
    have kept : ∀ q, b ≤ q → s.Open q → q < m → s'.Open q := fun q le open_ below =>
      h.stays_open wf counted step now old le open_ below mlive live.2
    cases step with
    | issue ilive status last settled waits =>
      have memRef : (s.mark m).static.isMemRef = true := by simpa using memRef
      have early := h.incomplete wf old.live (settled b old.live.1) old.incomplete
      rcases cases_ with stale | ⟨le, qlive, barrier⟩
      · have := known m rfl memRef q at_ stale b old.live.1 (Nat.ne_of_lt lt) old.barrier
        exact absurd this (Nat.not_le.mpr early)
      · have issuedQ := (wf.barrier q at_).2
        have incomplete : (s.mark q).fired .completion = 0 := by
          by_contra fired
          rcases Nat.lt_or_eq_of_le le with below | rfl
          · have late : Status.complete ≤ (s.mark q).status := by
              by_contra low
              exact fired (wf.fired_zero q .completion qlive.2 (by simp) (Nat.lt_of_not_le low))
            refine h.in_order counted old qlive barrier issuedQ below ?_
            cases kind : (s.mark q).static.isMemRef with
            | false => exact Or.inl ⟨rfl, Nat.le_trans (by simp [Status.rank]) late⟩
            | true => exact Or.inr ⟨rfl, Nat.le_trans (by simp [Status.rank]) late⟩
          · exact fired old.incomplete
        have open_ : s.Open q := ⟨qlive, barrier, issuedQ, incomplete⟩
        have earlyQ := h.incomplete wf qlive (settled q qlive.1) incomplete
        have dep := waits.behind memRef q at_ qlive earlyQ
        exact ⟨q, le, by simpa using dep, kept q le open_ (waits.older .mem _ dep).1⟩

theorem Fenced.stepOlder (wf : s.Wf) (h : Fenced s) (answered : s.FencesAnswered a)
    (step : Step cfg s a s') (b : InstId) (live : s'.Live b)
    (barrier : (s'.mark b).static.isMemBarrier = true) (plain : (s'.mark b).static.isMemRef = false)
    (issued : Status.issued ≤ (s'.mark b).status) (m : InstId) (lt : m < b)
    (open_ : (s'.mark m).squashed = false) (memRef : (s'.mark m).static.isMemRef = true)
    (pending : (s'.mark m).fired .completion = 0) : (.completion, m) ∈ (s'.mark b).deps .exec := by
  have bound : b < s.next := step.lt_of_status wf (Nat.le_trans (by simp [Status.rank]) issued)
  have mopen := step.unsquashed wf m open_
  have missued := wf.older_issued bound lt mopen
  have reference : (s.mark m).static.isMemRef = true :=
    (step.static (Nat.lt_trans lt bound) missued).1 ▸ memRef
  have silent : (s.mark m).fired .completion = 0 := by
    have := step.fired_mono wf m .completion
    omega
  rcases (step.issued_iff wf b).mp issued with before | rfl
  · have inside : b ∈ s.buffer := by
      rcases step.mem_buffer live.1 with inside | ⟨-, rfl⟩
      · exact inside
      · exact absurd bound (Nat.lt_irrefl _)
    have static := (step.static bound before).1
    rw [static] at barrier plain
    exact step.deps_mono wf (h.older b ⟨inside, step.unsquashed wf b live.2⟩ barrier plain before m lt
      mopen reference silent) before
  · cases step with
    | issue blive status last settled waits =>
      have barrier : (s.mark b).static.isMemBarrier = true := by simpa using barrier
      have plain : (s.mark b).static.isMemRef = false := by simpa using plain
      by_cases inside : m ∈ s.buffer
      · have early := h.incomplete wf ⟨inside, mopen⟩ (settled m inside) silent
        have dep := waits.fence barrier m inside (Nat.ne_of_lt lt) (Or.inr reference) early
        simpa [plain] using dep
      · exfalso
        have allocated := Nat.lt_trans lt bound
        obtain ⟨-, status⟩ := wf.left m allocated inside mopen
        have late : Status.complete ≤ (s.mark m).status := by grind [Status.le_iff, Status.rank]
        rcases h.done m late with one | ⟨store, -⟩
        · omega
        · exact answered b rfl barrier plain m allocated inside mopen store silent

theorem Fenced.stepBegun (wf : s.Wf) (h : Fenced s) (counted : Counted s) (step : Step cfg s a s')
    (b : InstId) (unsquashed : (s'.mark b).squashed = false)
    (barrier : (s'.mark b).static.isMemBarrier = true) (plain : (s'.mark b).static.isMemRef = false)
    (late : Status.executing ≤ (s'.mark b).status) (m : InstId) (lt : m < b)
    (open_ : (s'.mark m).squashed = false) (memRef : (s'.mark m).static.isMemRef = true) :
    (s'.mark m).fired .completion = 1 := by
  have bound : b < s.next := step.lt_of_status wf (Nat.le_trans (by simp [Status.rank]) late)
  have mopen := step.unsquashed wf m open_
  have missued := wf.older_issued bound lt mopen
  have reference : (s.mark m).static.isMemRef = true :=
    (step.static (Nat.lt_trans lt bound) missued).1 ▸ memRef
  refine step.fired_completion wf ?_
  rcases (step.executing_iff wf b).mp late with running | rfl
  · have issued : Status.issued ≤ (s.mark b).status := Nat.le_trans (by simp [Status.rank]) running
    rw [(step.static bound issued).1] at barrier plain
    exact h.begun b (step.unsquashed wf b unsquashed) barrier plain running m lt mopen reference
  · cases step with
    | execute live status ready =>
      have barrier : (s.mark b).static.isMemBarrier = true := by simpa [Mark.pass] using barrier
      have plain : (s.mark b).static.isMemRef = false := by simpa [Mark.pass] using plain
      by_contra notOne
      have le := wf.fired_le m .completion
      have silent : (s.mark m).fired .completion = 0 := by grind [Milestone.announcements]
      have dep := h.older b live barrier plain (by simp [status, Status.le_iff, Status.rank]) m lt
        mopen reference silent
      have := counted.all_fired live.2 ready _ dep
      exact absurd silent (Nat.ne_of_gt this)

theorem Fenced.none_open (wf : s.Wf) (h : Fenced s) {m b : InstId} (live : s.Live m)
    (memRef : (s.mark m).static.isMemRef = true) (issued : Status.issued ≤ (s.mark m).status)
    (ready : s.due .mem m = 0) (lt : b < m) (open_ : (s.mark b).squashed = false)
    (barrier : (s.mark b).static.isMemBarrier = true)
    (plain : (s.mark b).static.isMemRef = false) : (s.mark b).fired .completion = 1 := by
  have bound := wf.bounded m live.1
  by_cases inside : b ∈ s.buffer
  · by_contra notOne
    have le := wf.fired_le b .completion
    have silent : (s.mark b).fired .completion = 0 := by
      simp only [Milestone.announcements] at le
      omega
    obtain ⟨q, -, dep, incomplete⟩ := h.blocked b
      ⟨⟨inside, open_⟩, barrier, wf.older_issued bound lt open_, silent⟩ m live memRef issued lt
    have due : 0 < s.due .mem m :=
      Latch.due_pos dep (by simp [incomplete.incomplete, Milestone.announcements])
    omega
  · obtain ⟨-, status⟩ := wf.left b (Nat.lt_trans lt bound) inside open_
    have late : Status.complete ≤ (s.mark b).status := by grind [Status.le_iff, Status.rank]
    rcases h.done b late with one | ⟨store, -⟩
    · exact one
    · have := (s.mark b).static.store_memRef store
      rw [plain] at this
      cases this

theorem Fenced.stepSent (wf : s.Wf) (h : Fenced s) (step : Step cfg s a s') (m : InstId)
    (mem : m ∈ s'.sends) : Status.issued ≤ (s'.mark m).status ∧ ∀ b, b < m →
      (s'.mark b).squashed = false → (s'.mark b).static.isMemBarrier = true →
      (s'.mark b).static.isMemRef = false → (s'.mark b).fired .completion = 1 := by
  have later : Status.issued ≤ (s.mark m).status → (∀ b, b < m → (s.mark b).squashed = false →
      (s.mark b).static.isMemBarrier = true → (s.mark b).static.isMemRef = false →
      (s.mark b).fired .completion = 1) → Status.issued ≤ (s'.mark m).status ∧ ∀ b, b < m →
      (s'.mark b).squashed = false → (s'.mark b).static.isMemBarrier = true →
      (s'.mark b).static.isMemRef = false → (s'.mark b).fired .completion = 1 := by
    intro begun complete
    have bound := wf.lt_of_issued begun
    refine ⟨(step.issued_iff wf m).mpr (Or.inl begun), fun b lt open_ barrier plain => ?_⟩
    have before := step.unsquashed wf b open_
    have issued := wf.older_issued bound lt before
    rw [(step.static (Nat.lt_trans lt bound) issued).1] at barrier plain
    exact step.fired_completion wf (complete b lt before barrier plain)
  rw [step.sends] at mem
  rcases List.mem_append.mp mem with old | added
  · exact later (h.sent m old).1 (h.sent m old).2
  · cases step with
    | send live status memRef ready =>
      obtain rfl : m = _ := by simpa [Action.sent] using added
      have issued : Status.issued ≤ (s.mark m).status := by
        simp [status, Status.le_iff, Status.rank]
      exact later issued fun b lt => h.none_open wf live memRef issued ready lt
    | @sendFault x front vs buffer unsquashed pending status memRef ready =>
      obtain rfl : m = x := by simpa [Action.sent] using added
      have live : s.Live m := ⟨by simp [buffer], unsquashed⟩
      have issued : Status.issued ≤ (s.mark m).status := by
        simp [status, Status.le_iff, Status.rank]
      exact later issued fun b lt => h.none_open wf live memRef issued ready lt
    | _ => simp [Action.sent] at added

theorem Fenced.step (wf : s.Wf) (h : Fenced s) (counted : Counted s) (answered : s.FencesAnswered a)
    (known : s.BarrierKnown a) (step : Step cfg s a s') : Fenced s'  where
  done := h.stepDone wf step
  ready := h.stepReady wf step
  pointer := h.stepPointer wf step
  chained := h.stepChained wf step
  blocked := h.stepBlocked wf counted known step
  older := h.stepOlder wf answered step
  begun := h.stepBegun wf counted step
  sent := h.stepSent wf step

end Order

variable {cfg : Config} {tc : ThreadContext} {guard : Thread → Event → Prop} {t : Thread}

theorem Caused.issue_live {o : Thread} {e : Event} {i : InstId} (caused : Caused o e t (.issue i))
    (step : ∃ s, Order.Step cfg t.order (.issue i) s) : o.live i = true := by
  obtain ⟨s, step⟩ := step
  have live : o.order.Live i := by
    cases step with
    | issue live => exact caused.1 ▸ live
  have alive : o.alive i = true := alive_iff.mpr (Or.inl live.1)
  have open_ : (o.insts i).squashed = false := live.2
  simp [Thread.live, alive, open_]

theorem Thread.fencesAnswered_action {o : Thread} {e : Event} {a : Action}
    (answered : o.fencesAnswered e = true) (caused : Caused o e t a)
    (step : ∃ s, Order.Step cfg t.order a s) : t.order.FencesAnswered a := by
  rintro i rfl
  have live := caused.issue_live step
  obtain ⟨same, ⟨k, ans, rfl, at_, servable⟩, calls⟩ := caused
  rw [← same]
  intro barrier plain j bound outside open_ store silent
  have barrier : (o.insts i).staticInst.isMemBarrier = true := barrier
  have plain : (o.insts i).staticInst.isMemRef = false := plain
  have outside : j ∉ o.inflightInsts := outside
  have open_ : (o.insts j).squashed = false := open_
  have store : (o.insts j).staticInst.isStore = true := store
  have silent : (o.insts j).fired .completion = 0 := silent
  simp [Thread.fencesAnswered, calls, at_, servable, live, barrier, plain] at answered
  simpa [outside, open_, store, silent] using answered j bound

theorem Thread.barrierKnown_action {o : Thread} {e : Event} {a : Action}
    (known : o.barrierKnown e = true) (caused : Caused o e t a)
    (step : ∃ s, Order.Step cfg t.order a s) : t.order.BarrierKnown a := by
  rintro i rfl
  have live := caused.issue_live step
  obtain ⟨same, ⟨k, ans, rfl, at_, servable⟩, calls⟩ := caused
  rw [← same]
  intro memRef q last stale j inside ne barrier
  have memRef : (o.insts i).staticInst.isMemRef = true := memRef
  have last : o.lastMemBarrier = some q := last
  have stale : (o.insts q).squashed = true := stale
  have barrier : (o.insts j).staticInst.isMemBarrier = true := barrier
  simp [Thread.barrierKnown, calls, at_, servable, live, memRef, last, stale] at known
  have := known j inside
  simp only [ne, barrier, false_or, Bool.true_eq_false] at this
  exact of_decide_eq_true this

theorem Guarded.fenced (run : Guarded cfg tc guard t) (ok : ∀ o e, guard o e → o.beginsAlone = true
    ∧ o.fencesAnswered e = true ∧ o.barrierKnown e = true) : t.order.Counted ∧ t.order.Fenced := by
  refine Guarded.ordered (P := fun s => s.Counted ∧ s.Fenced) run ⟨?_, ?_⟩ ?_
  · exact Guarded.counted .refl fun o e h => (ok o e h).1
  · have blank : ∀ i, ¬ Status.issued ≤ ((Thread.init cfg tc).order.mark i).status := fun i => by
      simp [Thread.order, Thread.init, InflightInst.mark, Status.le_iff, Status.rank]
    have late : ∀ (st : Status) i, Status.issued ≤ st →
        ¬ st ≤ ((Thread.init cfg tc).order.mark i).status :=
      fun st i above le => blank i (Nat.le_trans above le)
    exact
      { done := fun i h => absurd h (late _ i (by decide))
        ready := fun i _ _ h => absurd h (late _ i (by decide))
        pointer := fun b h => absurd h.issued (blank b)
        chained := fun q _ _ issued => absurd issued (blank q)
        blocked := fun b h => absurd h.issued (blank b)
        older := fun b _ _ _ issued => absurd issued (blank b)
        begun := fun b _ _ _ h => absurd h (late _ b (by decide))
        sent := fun m mem => by simp [Thread.order, Thread.init] at mem }
  · rintro o e t a s guarded inv caused ⟨counted, fenced⟩ step
    obtain ⟨alone, answered, known⟩ := ok o e guarded
    exact ⟨counted.step inv.wf (Thread.beginsAlone_action alone caused) step,
      fenced.step inv.wf counted (Thread.fencesAnswered_action answered caused ⟨s, step⟩)
        (Thread.barrierKnown_action known caused ⟨s, step⟩) step⟩

theorem Inv.answered (inv : Inv cfg t) {i : InstId} (open_ : (t.insts i).squashed = false)
    (fired : (t.insts i).fired .completion = 1) : t.requests.any (awaitsPacket i) = false := by
  rw [List.any_eq_false]
  intro r mem waits
  have fits := inv.tokens.request_fits r mem
  cases r with
  | mem p =>
    obtain rfl : p.inst = i := by simpa [awaitsPacket] using waits
    have := (fits open_).1
    simp only [Request.inst] at this
    omega
  | memResp p =>
    obtain rfl : p.inst = i := by simpa [awaitsPacket] using waits
    have := (fits open_).1
    simp only [Request.inst] at this
    omega
  | _ => simp [awaitsPacket] at waits

/-- In runs whose executions begin alone, in which no store outside the buffer is
unanswered when a barrier is issued and no reference is issued past a barrier that
`lastMemBarrier` has forgotten: a barrier begins when every older reference is
answered, and nothing issued after it is sent before it is complete. -/
theorem memory_barriers_order
    (run : Guarded cfg tc (fun o e =>
      o.beginsAlone = true ∧ o.fencesAnswered e = true ∧ o.barrierKnown e = true) t)
    {b : InstId} (barrier : (t.insts b).staticInst.isMemBarrier = true)
    (plain : (t.insts b).staticInst.isMemRef = false) (unsquashed : (t.insts b).squashed = false) :
    (Status.executing ≤ (t.insts b).status → ∀ m, m < b → (t.insts m).squashed = false →
      (t.insts m).staticInst.isMemRef = true →
      (t.insts m).fired .completion = 1 ∧ t.requests.any (awaitsPacket m) = false)
    ∧ (Status.issued ≤ (t.insts b).status → ∀ m ∈ t.sends,
      (t.insts b).issueSeqNum < (t.insts m).issueSeqNum → (t.insts b).fired .completion = 1) := by
  have inv := run.inv
  have fenced := (Guarded.fenced run fun _ _ ok => ok).2
  refine ⟨fun late m lt open_ memRef => ?_, fun issued m mem after => ?_⟩
  · have fired := fenced.begun b unsquashed barrier plain late m lt open_ memRef
    exact ⟨fired, inv.answered open_ fired⟩
  · have sentM := fenced.sent m mem
    have lt : b < m := (run.issueOrder.lt_iff issued sentM.1).mp after
    exact sentM.2 b lt unsquashed barrier plain

/-- Instruction word 3 is a store, 11 a barrier, all others have no effect. -/
def fenceConfig : Config := .sample fun word =>
  if word = 3 then .sampleStore else if word = 11 then .sampleBarrier else .nop

/-- A store, a barrier and a second store: the barrier begins after the response to the
first, and the second is sent after the barrier. -/
def fenceRun : List Event :=
  Event.firstFetch { fetched := fun addr => if addr = 0x1004 then 11 else 3 }
    ++ Event.served {} 0 2 ++ Event.served {} 1 2 ++ Event.served {} 2 2 ++ Event.served {} 0 4
    ++ Event.served {} 3 0 ++ Event.served {} 3 0 ++ Event.served {} 3 8 ++ Event.served {} 3 0
    ++ Event.served {} 3 4 ++ Event.served {} 0 8 ++ Event.served {} 2 0 ++ Event.served {} 2 8
    ++ Event.served {} 0 8 ++ Event.served {} 1 0 ++ Event.served {} 1 0 ++ Event.served {} 1 8

theorem memory_barriers_order_stores :
    ((Thread.play fenceConfig .boot fenceRun).insts 0).fired .completion = 1
      ∧ (Thread.play fenceConfig .boot fenceRun).sends = [0, 2]
      ∧ ((Thread.play fenceConfig .boot fenceRun).insts 1).fired .completion = 1 := by
  have run : Guarded fenceConfig .boot
      (fun o e => (o.beginsAlone && (o.fencesAnswered e && o.barrierKnown e)) = true)
      (Thread.play fenceConfig .boot fenceRun) := Guarded.play (by decide +kernel)
  have guarded := run.mono fun o e ok => by
    simpa only [Bool.and_eq_true] using ok
  have ordered := memory_barriers_order guarded (b := 1) (by decide +kernel) (by decide +kernel)
    (by decide +kernel)
  exact ⟨(ordered.1 (by decide +kernel) 0 (by decide) (by decide +kernel) (by decide +kernel)).1,
    by decide +kernel, ordered.2 (by decide +kernel) 2 (by decide +kernel) (by decide +kernel)⟩

/-- The store has left the buffer when the barrier is issued. -/
def lateFenceRun : List Event :=
  Event.firstFetch { fetched := fun addr => if addr = 0x1000 then 3 else 11 }
    ++ Event.served {} 0 2 ++ Event.served {} 0 4 ++ Event.served {} 1 0 ++ Event.served {} 1 0
    ++ Event.served {} 1 8 ++ Event.served {} 1 0 ++ Event.served {} 0 4 ++ Event.served {} 1 8

/-- The barrier executes before the response to the older store is received. -/
theorem barrier_overtakes_store :
    Reachable fenceConfig .boot (Thread.play fenceConfig .boot lateFenceRun)
      ∧ ((Thread.play fenceConfig .boot lateFenceRun).insts 1).staticInst.isMemBarrier = true
      ∧ ((Thread.play fenceConfig .boot lateFenceRun).insts 1).staticInst.isMemRef = false
      ∧ ((Thread.play fenceConfig .boot lateFenceRun).insts 1).status = .executing
      ∧ ((Thread.play fenceConfig .boot lateFenceRun).insts 0).staticInst.isStore = true
      ∧ ((Thread.play fenceConfig .boot lateFenceRun).insts 0).squashed = false
      ∧ ((Thread.play fenceConfig .boot lateFenceRun).insts 0).fired .completion = 0
      ∧ Request.memResp ⟨0, .main, true⟩
          ∈ (Thread.play fenceConfig .boot lateFenceRun).requests :=
  ⟨Thread.reachable_play .., by decide +kernel, by decide +kernel, by decide +kernel,
    by decide +kernel, by decide +kernel, by decide +kernel, by decide +kernel⟩

end Gem5.FlexCPU
