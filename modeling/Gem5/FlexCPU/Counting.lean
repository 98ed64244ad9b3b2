import Gem5.FlexCPU.OrderSteps

/-!
# Exact dependency counters

`executeInstruction` calls `notifyExecuting` twice, so a dependency on the beginning
of an execution is counted down twice. As long as no execution begins while an
instruction in flight waits for exactly that, the execution counter is the number of
dependencies whose event is still to come, and an instruction is executed once and
after all of them.
-/

namespace Gem5.FlexCPU

open Thread

/-- No instruction in flight waits for the execution that this step begins. -/
def Thread.beginsAlone (o : Thread) : Bool :=
  match o.calls with
  | .run (.executeInstruction i) :: _ => !o.live i || o.inflightInsts.all fun c =>
      (o.insts c).squashed || !((o.insts c).deps .exec).contains (.beginExec, i)
  | _ => true

namespace Order

/-- The condition of `beginsAlone` on the ordering machine. -/
def BeginsAlone (s : Order) (a : Action) : Prop :=
  ∀ i, a = .execute i → ∀ c ∈ s.buffer, (s.mark c).squashed = false →
    (.beginExec, i) ∉ (s.mark c).deps .exec

structure Counted (s : Order) : Prop where
  unbegun : ∀ c, (s.mark c).squashed = false → ∀ p, (.beginExec, p) ∈ (s.mark c).deps .exec →
    (s.mark p).fired .beginExec = 0
  ready : ∀ c, (s.mark c).squashed = false → Status.executing ≤ (s.mark c).status →
    ∀ d ∈ (s.mark c).deps .exec, 0 < (s.mark d.2).fired d.1
  once : ∀ c, s.executed.count c = if Status.executing ≤ (s.mark c).status then 1 else 0

variable {cfg : Config} {s s' : Order} {a : Action}

theorem due_exec_eq {i : InstId}
    (unbegun : ∀ p, (.beginExec, p) ∈ (s.mark i).deps .exec → (s.mark p).fired .beginExec = 0) :
    s.due .exec i = s.begins i
      + ((s.mark i).deps .exec).countP fun d => (s.mark d.2).fired d.1 = 0 := by
  refine Latch.due_eq_of_twice
    (p := fun d : Milestone × InstId => decide (d.1 = .beginExec)) ?_ ?_
  · grind [Milestone.announcements]
  · grind

theorem Counted.all_fired {i : InstId} (h : Counted s) (unsquashed : (s.mark i).squashed = false)
    (ready : s.due .exec i ≤ s.begins i) : ∀ d ∈ (s.mark i).deps .exec, 0 < (s.mark d.2).fired d.1 := by
  have eq := due_exec_eq (s := s) (h.unbegun i unsquashed)
  have none : ((s.mark i).deps .exec).countP (fun d => (s.mark d.2).fired d.1 = 0) = 0 := by omega
  intro d mem
  have := List.countP_eq_zero.mp none d mem
  exact Nat.pos_of_ne_zero (by simpa using this)

theorem Counted.stepUnbegun (wf : s.Wf) (h : Counted s) (alone : s.BeginsAlone a)
    (step : Step cfg s a s') (c : InstId) (unsquashed : (s'.mark c).squashed = false) (p : InstId)
    (dep : (.beginExec, p) ∈ (s'.mark c).deps .exec) : (s'.mark p).fired .beginExec = 0 := by
  have before := step.unsquashed wf c unsquashed
  rcases step.deps wf c .exec with same | ⟨rfl, waits⟩ | ⟨other, -, mem, -⟩
  · rw [same] at dep
    have zero := h.unbegun c before p dep
    rw [step.fired wf, zero]
    by_cases announced : a.announcement = some (p, .beginExec)
    · exfalso
      have now : a = .execute p ∨ a = .announce p := by
        cases a <;> simp_all [Action.announcement]
      rcases now with rfl | rfl
      · by_cases inside : c ∈ s.buffer
        · exact alone p rfl c inside before dep
        · have allocated : c < s.next := by
            by_contra old
            simp [wf.fresh c (Nat.le_of_not_lt old)] at dep
          have late : Status.executing ≤ (s.mark c).status := by
            obtain ⟨-, status | ⟨-, status⟩⟩ := wf.left c allocated inside before
            · simp [status, Status.le_iff, Status.rank]
            · simp [status, Status.le_iff, Status.rank]
          have done := h.ready c before late _ dep
          exact absurd zero (Nat.ne_of_gt done)
      · cases step with
        | announce live status once => omega
    · simp [announced]
  · rw [step.fired wf, (waits.older .exec _ dep).2]
    simp [Action.announcement]
  · cases mem

theorem Counted.stepReady (wf : s.Wf) (h : Counted s) (step : Step cfg s a s') (c : InstId)
    (unsquashed : (s'.mark c).squashed = false) (late : Status.executing ≤ (s'.mark c).status)
    (d : Milestone × InstId) (dep : d ∈ (s'.mark c).deps .exec) : 0 < (s'.mark d.2).fired d.1 := by
  have before := step.unsquashed wf c unsquashed
  refine Nat.lt_of_lt_of_le ?_ (step.fired_mono wf d.2 d.1)
  rcases step.deps wf c .exec with same | ⟨rfl, -⟩ | ⟨other, -, mem, -⟩
  · rw [same] at dep
    rcases (step.executing_iff wf c).mp late with running | rfl
    · exact h.ready c before running d dep
    · cases step with
      | execute live status ready => exact h.all_fired before ready d dep
  · rcases (step.executing_iff wf c).mp late with running | begins
    · cases step with
      | issue live status => grind [Status.le_iff, Status.rank]
    · cases begins
  · cases mem

theorem Counted.stepOnce (wf : s.Wf) (h : Counted s) (step : Step cfg s a s') (c : InstId) :
    s'.executed.count c = if Status.executing ≤ (s'.mark c).status then 1 else 0 := by
  rw [step.executed, List.count_append, h.once c]
  have iff := step.executing_iff wf c
  by_cases begins : a = .execute c
  · subst begins
    have early : ¬ Status.executing ≤ (s.mark c).status := by
      cases step with
      | execute live status => simp [status, Status.le_iff, Status.rank]
    have late := iff.mpr (Or.inr rfl)
    simp [early, late, Action.executes]
  · have none : a.executes.count c = 0 := by
      cases a with
      | execute i => grind [Action.executes]
      | _ => rfl
    rw [none]
    by_cases running : Status.executing ≤ (s.mark c).status
    · simp [running, iff.mpr (Or.inl running)]
    · grind

theorem Counted.step (wf : s.Wf) (h : Counted s) (alone : s.BeginsAlone a)
    (step : Step cfg s a s') : Counted s' where
  unbegun := h.stepUnbegun wf alone step
  ready := h.stepReady wf step
  once := h.stepOnce wf step

end Order

variable {cfg : Config} {tc : ThreadContext} {guard : Thread → Event → Prop} {t : Thread}

theorem Thread.beginsAlone_action {o : Thread} {e : Event} {a : Action}
    (alone : o.beginsAlone = true) (caused : Caused o e t a) : t.order.BeginsAlone a := by
  rintro i rfl c mem unsquashed dep
  obtain ⟨same, live, rest, calls⟩ := caused
  rw [← same] at mem unsquashed dep
  have unsquashed : (o.insts c).squashed = false := unsquashed
  have dep : (.beginExec, i) ∈ (o.insts c).deps .exec := dep
  simp only [Thread.beginsAlone, calls, live, Bool.not_true, Bool.false_or, List.all_eq_true]
    at alone
  have := alone c mem
  simp [unsquashed, dep] at this

theorem Guarded.counted (run : Guarded cfg tc guard t)
    (alone : ∀ o e, guard o e → o.beginsAlone = true) : t.order.Counted := by
  refine Guarded.ordered run ?_ ?_
  · exact
      { unbegun := fun c _ p dep => by simp [Thread.order, Thread.init, InflightInst.mark] at dep
        ready := fun c _ _ d dep => by simp [Thread.order, Thread.init, InflightInst.mark] at dep
        once := fun c => by
          simp [Thread.order, Thread.init, InflightInst.mark, Status.le_iff, Status.rank] }
  · intro o e t a s ok inv caused holds step
    exact holds.step inv.wf (Thread.beginsAlone_action (alone o e ok) caused) step

theorem Inv.remaining_exec (inv : Inv cfg t) (counted : t.order.Counted) {i : InstId}
    (alive : t.alive i = true) (unsquashed : (t.insts i).squashed = false) :
    (t.insts i).remaining .exec
      = ((t.insts i).deps .exec).countP (fun d => (t.insts d.2).fired d.1 = 0)
        + t.calls.count (.run (.decrement .exec i)) := by
  have due : due t.insts .exec i = surplus t.insts .exec i
      + ((t.insts i).deps .exec).countP fun d => (t.insts d.2).fired d.1 = 0 :=
    Order.due_exec_eq (s := t.order) (counted.unbegun i unsquashed)
  rcases inv.counters i (alive_iff.mp alive) unsquashed .exec with ⟨-, eq⟩ | ⟨lt, -⟩
  · unfold owed at eq
    omega
  · unfold owed at lt
    omega

/-- The execution counters are exact, and executions happen once and in time. -/
structure Thread.CountersExact (t : Thread) : Prop where
  counter : ∀ i, t.alive i = true → (t.insts i).squashed = false →
    (t.insts i).remaining .exec
      = ((t.insts i).deps .exec).countP (fun d => (t.insts d.2).fired d.1 = 0)
        + t.calls.count (.run (.decrement .exec i))
  settled : t.calls = [] → ∀ i, t.alive i = true → (t.insts i).squashed = false →
    (t.insts i).remaining .exec
      = ((t.insts i).deps .exec).countP fun d => (t.insts d.2).fired d.1 = 0
  nonzero : ∀ i rest, t.calls = .run (.decrement .exec i) :: rest → t.alive i = true →
    (t.insts i).squashed = false → 0 < (t.insts i).remaining .exec
  once : ∀ i, t.executed.count i = if Status.executing ≤ (t.insts i).status then 1 else 0
  ready : ∀ i ∈ t.executed, (t.insts i).squashed = false →
    ∀ d ∈ (t.insts i).deps .exec, 0 < (t.insts d.2).fired d.1

/-- In every run in which executions begin alone the dependency counters are exact. -/
theorem dependency_counters_exact (run : Guarded cfg tc (fun o _ => o.beginsAlone = true) t) :
    t.CountersExact := by
  have inv := run.inv
  have counted := run.counted fun _ _ ok => ok
  have counter := fun i => inv.remaining_exec (i := i) counted
  refine ⟨fun i => counter i, fun settled i alive unsquashed => ?_,
    fun i rest calls alive unsquashed => ?_, counted.once, fun i mem unsquashed => ?_⟩
  · have eq := counter i alive unsquashed
    rw [settled] at eq
    simpa using eq
  · rw [counter i alive unsquashed, calls, List.count_cons_self]
    omega
  · refine counted.ready i unsquashed ?_
    by_contra early
    have none : t.executed.count i = 0 := by
      have := counted.once i
      rwa [if_neg early] at this
    exact List.count_eq_zero.mp none mem

/-- Two instructions, executed in order. -/
def inOrderConfig : Config :=
  { Config.sample fun _ => .nop with inOrderBeginExecute := true }

def inOrderRun : List Event :=
  Event.firstFetch { fetched := fun _ => 7 } ++ Event.served {} 0 2 ++ Event.served {} 0 8 ++ Event.served {} 1 2

/-- The first instruction begins before the second is issued, and the second one's
counter is zero when it is issued. -/
theorem dependency_counters_exact_inOrder :
    (Thread.play inOrderConfig .boot inOrderRun).CountersExact
      ∧ (Thread.play inOrderConfig .boot inOrderRun).executed = [0] := by
  have run : Guarded inOrderConfig .boot (fun o _ => o.beginsAlone = true)
      (Thread.play inOrderConfig .boot inOrderRun) := Guarded.play (by decide +kernel)
  exact ⟨dependency_counters_exact run, by decide +kernel⟩

/-- The second instruction is issued before the first begins to execute. -/
def overtakenRun : List Event :=
  Event.firstFetch { fetched := fun _ => 7 } ++ Event.served {} 0 2 ++ Event.served {} 1 2 ++ Event.served {} 0 8

/-- The counter of the second instruction wraps: its only dependency is counted down twice. -/
theorem dependency_counter_wraps :
    Reachable inOrderConfig .boot (Thread.play inOrderConfig .boot overtakenRun)
      ∧ (Thread.play inOrderConfig .boot overtakenRun).calls = []
      ∧ (Thread.play inOrderConfig .boot overtakenRun).alive 1 = true
      ∧ ((Thread.play inOrderConfig .boot overtakenRun).insts 1).squashed = false
      ∧ ((Thread.play inOrderConfig .boot overtakenRun).insts 1).remaining .exec = 2 ^ 64 - 1
      ∧ (((Thread.play inOrderConfig .boot overtakenRun).insts 1).deps .exec).countP
          (fun d => ((Thread.play inOrderConfig .boot overtakenRun).insts d.2).fired d.1 = 0) = 0 :=
  ⟨Thread.reachable_play .., by decide +kernel, by decide +kernel, by decide +kernel,
    by decide +kernel, by decide +kernel⟩

end Gem5.FlexCPU
