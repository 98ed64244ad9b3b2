import Gem5.FlexCPU.ResourceRuns

/-!
# Latency

One event serves the whole queue. A request that finds the event scheduled rides along
with it, so its latency is kept only if the event is far enough away.
-/

namespace Gem5.FlexCPU

/-- The first tick at which a request may run. -/
def Queued.due {α : Type} (prm : ResourceParams) (q : Queued α) : Nat :=
  q.tick + prm.period * prm.latency

namespace Resource

variable {α : Type} {prm : ResourceParams} {r : Resource α}

/-- Requests are added between events, with no event scheduled before their latency has
passed. -/
def addsInTime (prm : ResourceParams) (r : Resource α) : Event α → Bool
  | .submit _ _ => prm.latency == 0
      || r.stage == .idle && r.attemptAllEvent.all (r.now + prm.period * prm.latency ≤ ·)
  | _ => true

structure Timely (prm : ResourceParams) (r : Resource α) : Prop where
  ahead : ∀ t, r.attemptAllEvent = some t → r.now ≤ t
  waiting : r.stage = .idle → ∀ tid, ∀ q ∈ r.queues tid, ∀ t, r.attemptAllEvent = some t →
    q.due prm ≤ t
  ready : r.stage ≠ .idle → ∀ tid, ∀ q ∈ r.queues tid, q.due prm ≤ r.now
  ran : ∀ d ∈ r.log, ∀ t result, d.outcome = .ran t result → d.request.due prm ≤ t

theorem clockEdge_le (positive : 0 < prm.period) (now : Nat) (cycles : Nat) :
    now + prm.period * cycles ≤ clockEdge prm now cycles := by
  have edge : now ≤ (now + (prm.period - 1)) / prm.period * prm.period := by
    have round := Nat.div_add_mod (now + (prm.period - 1)) prm.period
    have rest := Nat.mod_lt (now + (prm.period - 1)) positive
    rw [Nat.mul_comm] at round
    omega
  exact Nat.add_le_add_right edge _

theorem Timely.init (prm : ResourceParams) : Timely prm ({} : Resource α) := by
  constructor <;> simp

theorem mem_submitted (requests : List (InstId × α)) (tid : Nat) {t : Nat} {q : Queued α}
    (mem : q ∈ (requests.foldl (fun r q => r.addRequest tid q.1 q.2) r).queues t) :
    q ∈ r.queues t ∨ q.tick = r.now := by
  induction requests generalizing r with
  | nil => exact Or.inl mem
  | cons x rest ih =>
    rcases ih mem with old | new
    · by_cases self : t = tid
      · subst self
        simp only [Resource.addRequest, Function.update_self] at old
        rcases List.mem_append.mp old with before | last
        · exact Or.inl before
        · grind
      · simp only [Resource.addRequest, Function.update_of_ne self] at old
        exact Or.inl old
    · exact Or.inr new

theorem Timely.schedule (h : Timely prm r) (positive : 0 < prm.period)
    (armed : r.stage = .idle → r.attemptAllEvent = none → r.thereIsNoAnyRequest prm = true) :
    Timely prm (r.schedule prm) := by
  unfold Resource.schedule
  split
  · rename_i free
    refine ⟨fun t on => ?_, fun idle => ?_, h.ready, h.ran⟩
    · obtain rfl := Option.some.inj on
      exact Nat.le_trans (Nat.le_add_right _ _) (clockEdge_le positive r.now prm.latency)
    · simp_all
  · exact h

theorem Timely.submit (h : Timely prm r) (inv : Inv prm r) (positive : 0 < prm.period) {tid : Nat}
    {requests : List (InstId × α)} (inTime : r.addsInTime prm (.submit tid requests) = true) :
    Timely prm (r.submit prm tid requests) := by
  have inTime' : prm.latency = 0 ∨ r.stage = .idle
      ∧ r.attemptAllEvent.all (r.now + prm.period * prm.latency ≤ ·) = true := by
    simpa [addsInTime] using inTime
  obtain ⟨now, stage, event, log⟩ := submitted_keeps (r := r) requests tid
  have old := fun (t : Nat) (q : Queued α) => mem_submitted (r := r) requests tid (t := t) (q := q)
  unfold Resource.submit
  revert now stage event log old
  generalize requests.foldl (fun r q => r.addRequest tid q.1 q.2) r = s
  intro now stage event log old
  have instant : r.attemptAllEvent.isNone = true → r.stage = .idle →
      ∀ t q, q ∈ s.queues t → q.tick = r.now := by
    intro none idle t q mem
    refine (old t q mem).resolve_left fun before => ?_
    have armed := inv.armed idle ((noRequest_eq_false inv.inside).mpr
      ⟨t, List.ne_nil_of_mem before⟩)
    rw [Option.isNone_iff_eq_none] at none
    simp [none] at armed
  have later := clockEdge_le positive r.now prm.latency
  have fits : ∀ t, s.attemptAllEvent = some t → r.now ≤ t := fun t on => h.ahead t (event ▸ on)
  have waiting : s.stage = .idle → ∀ tid, ∀ q ∈ s.queues tid, ∀ t, s.attemptAllEvent = some t →
      q.due prm ≤ t := by
    intro idle tid q mem t on
    rw [stage] at idle
    rw [event] at on
    rcases old tid q mem with before | new
    · exact h.waiting idle tid q before t on
    · grind [Queued.due]
  have ready : s.stage ≠ .idle → ∀ tid, ∀ q ∈ s.queues tid, q.due prm ≤ s.now := by
    intro busy tid q mem
    rw [stage] at busy
    rw [now]
    rcases old tid q mem with before | new
    · exact h.ready busy tid q before
    · grind [Queued.due]
  unfold Resource.schedule
  split
  · rename_i free
    have none : r.attemptAllEvent.isNone = true := by grind
    refine ⟨fun t on => ?_, fun idle tid q mem t on => ?_, ready, log ▸ h.ran⟩
    · grind
    · obtain rfl := Option.some.inj on
      have tick := instant none (stage ▸ idle) tid q mem
      change q.tick + _ ≤ clockEdge prm s.now prm.latency
      rw [now, tick]
      exact later
  · exact ⟨fun t on => now ▸ fits t on, waiting, ready, log ▸ h.ran⟩

theorem prune_queues (r : Resource α) {tid : Nat} {q : Queued α}
    (mem : q ∈ (r.prune prm).queues tid) : q ∈ r.queues tid := by
  unfold prune at mem
  split at mem
  · grind [Resource.cleanSquashed, List.dropWhile_sublist]
  · exact mem

theorem prune_ran (r : Resource α) {d : Departure α} (mem : d ∈ (r.prune prm).log) {t : Nat}
    {result : Bool} (ran : d.outcome = .ran t result) : d ∈ r.log := by
  unfold prune at mem
  split at mem
  · rcases List.mem_append.mp mem with old | new
    · exact old
    · grind
  · exact mem

theorem Timely.fire (h : Timely prm r) (idle : r.stage = .idle)
    (due : r.attemptAllEvent = some r.now) (rand : BitVec 16) :
    Timely prm (({ r with attemptAllEvent := none }).enter prm rand) := by
  obtain ⟨now, queues, log, event⟩ := newTick_keeps { r with attemptAllEvent := none }
  obtain ⟨now', -, -, event'⟩ := prune_keeps prm ({ r with attemptAllEvent := none }).newTick
  have ready : ∀ tid, ∀ q ∈ (({ r with attemptAllEvent := none }).newTick.prune prm).queues tid,
      q.due prm ≤ (({ r with attemptAllEvent := none }).newTick.prune prm).now := by
    intro tid q mem
    have inside := prune_queues _ mem
    rw [queues] at inside
    rw [now', now]
    exact h.waiting idle tid q inside r.now due
  have ran : ∀ d ∈ (({ r with attemptAllEvent := none }).newTick.prune prm).log, ∀ t result,
      d.outcome = .ran t result → d.request.due prm ≤ t := by
    intro d mem t result eq
    have old := prune_ran _ mem eq
    rw [log] at old
    exact h.ran d old t result eq
  have none := event'.trans event
  unfold Resource.enter
  dsimp only
  split
  · exact ⟨by simp [none], by simp [none], fun _ => ready, ran⟩
  · exact ⟨by simp [none], by simp, fun _ => ready, ran⟩

theorem Timely.leave (h : Timely prm r) (busy : r.stage ≠ .idle)
    (inside : ∀ tid, prm.queues ≤ tid → r.queues tid = []) (positive : 0 < prm.period) :
    Timely prm (r.leave prm) := by
  have later := clockEdge_le positive r.now 1
  have ready := h.ready busy
  unfold Resource.leave
  split
  · rename_i empty
    refine ⟨h.ahead, fun _ tid q mem => ?_, by simp, h.ran⟩
    have full := (noRequest_eq_false inside).mpr ⟨tid, List.ne_nil_of_mem mem⟩
    rw [empty] at full
    cases full
  · refine ⟨fun t on => ?_, fun _ tid q mem t on => ?_, by simp, h.ran⟩
    · obtain rfl := Option.some.inj on
      exact Nat.le_trans (Nat.le_add_right _ _) later
    · obtain rfl := Option.some.inj on
      exact Nat.le_trans (ready tid q mem) (Nat.le_trans (Nat.le_add_right _ _) later)

theorem Timely.iterate (h : Timely prm r) (busy : r.stage ≠ .idle)
    (inside : ∀ tid, prm.queues ≤ tid → r.queues tid = []) (positive : 0 < prm.period)
    (chosen : Option Nat) : Timely prm (r.iterate prm chosen) := by
  cases chosen with
  | none => exact h.leave busy inside positive
  | some =>
    simp only [Resource.iterate]
    split
    · exact ⟨h.ahead, by simp, fun _ => h.ready busy, h.ran⟩
    · exact h.leave busy inside positive

theorem Timely.finish (h : Timely prm r) {tid : Nat} (running : r.stage = .running tid)
    (result : Bool) : Timely prm (r.finish tid result) := by
  have ready := h.ready (by simp [running])
  refine ⟨h.ahead, by simp [Resource.finish], fun _ t q mem => ready t q ?_, fun d mem t b ran => ?_⟩
  · by_cases self : t = tid
    · subst self
      simp only [Resource.finish, Function.update_self] at mem
      exact List.mem_of_mem_tail mem
    · simpa [Resource.finish, self] using mem
  · rcases List.mem_append.mp mem with old | new
    · exact h.ran d old t b ran
    · obtain ⟨q, head, rfl⟩ := List.mem_map.mp new
      have front : q ∈ r.queues tid := List.mem_of_head? (by simpa using head)
      have tick : r.now = t := by
        injection ran
      exact tick ▸ ready tid q front

theorem Timely.step (h : Timely prm r) (inv : Inv prm r) (positive : 0 < prm.period) (e : Event α)
    (inTime : r.addsInTime prm e = true) : Timely prm (r.step prm e) := by
  cases e with
  | advance tick =>
    simp only [Resource.step]
    split
    · rename_i ok
      obtain ⟨idle, later, before⟩ := ok
      refine ⟨fun t on => ?_, h.waiting, fun busy => absurd idle busy, h.ran⟩
      rw [on] at before
      simpa using before
    · exact h
  | fire rand =>
    simp only [Resource.step]
    split
    · rename_i due
      exact h.fire due.1 due.2 rand
    · exact h
  | proceed =>
    simp only [Resource.step]
    split
    · rename_i chosen looping
      exact h.iterate (by simp [looping]) inv.inside positive chosen
    · exact h
  | finish result =>
    simp only [Resource.step]
    split
    · rename_i tid running
      exact h.finish running result
    · exact h
  | submit =>
    simp only [Resource.step]
    split
    · exact h
    · split
      · exact h.submit inv positive inTime
      · exact h
  | observe | block =>
    simp only [Resource.step]
    split
    · exact h
    · exact ⟨h.ahead, h.waiting, h.ready, h.ran⟩
  | retry =>
    simp only [Resource.step]
    split
    · exact h
    · have opened : Timely prm ({ r with portBlocked := false }) :=
        ⟨h.ahead, h.waiting, h.ready, h.ran⟩
      refine opened.schedule positive fun idle none => ?_
      by_contra full
      have armed := inv.armed idle (Bool.not_eq_true _ ▸ full)
      rw [show r.attemptAllEvent = Option.none from none] at armed
      cases armed

/-- If requests are only added in time, none runs before its latency has passed. -/
theorem latency_respected (positive : 0 < prm.period)
    (run : Runs.Reaches (step prm) (fun r e => r.addsInTime prm e = true) {} r) :
    (∀ d ∈ r.log, ∀ t result, d.outcome = .ran t result →
      d.request.tick + prm.period * prm.latency ≤ t)
    ∧ ∀ tid, r.stage = .running tid → ∀ q, (r.queues tid).head? = some q →
      q.tick + prm.period * prm.latency ≤ r.now := by
  have timely : Inv prm r ∧ Timely prm r := by
    refine Runs.Reaches.invariant (P := fun r => Inv prm r ∧ Timely prm r) run
      ⟨Inv.init prm, Timely.init prm⟩ ?_
    rintro s e ⟨inv, timely⟩ inTime
    exact ⟨inv.step e, timely.step inv positive e inTime⟩
  exact ⟨timely.2.ran, fun tid running q head =>
    timely.2.ready (by simp [running]) tid q (List.mem_of_head? head)⟩

/-- A latency of two cycles of 500 ticks. -/
def twoCycles : ResourceParams := ⟨.resource, 2, 0, 1, 500⟩

/-- One request runs when its latency has passed. -/
def aloneRun : List (Event Unit) :=
  [.submit 0 [(0, ())], .advance 1000, .fire 0, .proceed, .finish true]

theorem latency_respected_alone :
    (⟨0, ⟨0, 0, 0, ()⟩, .ran 1000 true⟩ : Departure Unit)
        ∈ (Runs.run (step twoCycles) {} aloneRun).log
      ∧ 0 + 500 * 2 ≤ 1000 := by
  have run : Runs.Reaches (step twoCycles) (fun r e => r.addsInTime twoCycles e = true) {}
      (Runs.run (step twoCycles) {} aloneRun) := Runs.reaches_offered (by decide)
  have ran : (⟨0, ⟨0, 0, 0, ()⟩, .ran 1000 true⟩ : Departure Unit)
      ∈ (Runs.run (step twoCycles) {} aloneRun).log := by decide
  exact ⟨ran, (latency_respected (by decide) run).1 _ ran 1000 true rfl⟩

/-- A second request is added one cycle after the first. -/
def rideAlongRun : List (Event Unit) :=
  [.submit 0 [(0, ())], .advance 500, .submit 0 [(1, ())], .advance 1000, .fire 0, .proceed,
    .finish true, .proceed, .finish true]

/-- It runs with the first, one cycle after its addition. -/
theorem latency_cut_short :
    Reachable twoCycles (Runs.run (step twoCycles) {} rideAlongRun)
      ∧ (⟨0, ⟨1, 500, 1, ()⟩, .ran 1000 true⟩ : Departure Unit)
        ∈ (Runs.run (step twoCycles) {} rideAlongRun).log
      ∧ ¬ 500 + 500 * 2 ≤ 1000 :=
  ⟨Runs.reaches_run .., by decide, by decide⟩

end Resource

end Gem5.FlexCPU
