import Gem5.FlexCPU.Resource

/-!
# Requests are served in order and the event stays armed

Every request that was added has left its queue or is still in it, in the order of
addition; between events a request in a queue has the event scheduled; and the
requests that return `true` in one tick are counted against the bandwidth.
-/

namespace Gem5.FlexCPU

/-- The request ran in the given tick and returned `true`. -/
def Departure.counts {α : Type} (tick : Nat) (d : Departure α) : Bool :=
  d.outcome == .ran tick true

namespace Resource

variable {α : Type} {prm : ResourceParams} {r : Resource α}

/-- The requests that returned `true` in a tick. -/
def served (r : Resource α) (tick : Nat) : Nat := r.log.countP (Departure.counts tick)

/-- The accounts of the queues and of the bandwidth. -/
structure Accounts (prm : ResourceParams) (r : Resource α) : Prop where
  accounted : ∀ tid, r.added tid = r.departed tid ++ r.queues tid
  numbered : ∀ tid, (r.added tid).Pairwise (·.id < ·.id) ∧ ∀ q ∈ r.added tid, q.id < r.nextId
  inside : ∀ tid, prm.queues ≤ tid → r.queues tid = []
  dropped : ∀ d ∈ r.log, d.outcome = .dropped → r.squashed d.request = true
  past : ∀ tick, r.now < tick → r.served tick = 0
  last : ∀ tick, r.lastActiveTick = some tick → tick ≤ r.now
  used : r.lastActiveTick = some r.now → r.served r.now ≤ r.usedBandwidth
  unused : r.lastActiveTick ≠ some r.now → r.served r.now = 0
  limit : 0 < prm.bandwidth → r.usedBandwidth ≤ prm.bandwidth
    ∧ ∀ tick, r.served tick ≤ prm.bandwidth
  active : r.stage ≠ .idle → r.lastActiveTick = some r.now
  running : ∀ tid, r.stage = .running tid → r.queues tid ≠ [] ∧ r.bandwidthLeft prm = true

structure Inv (prm : ResourceParams) (r : Resource α) : Prop extends Accounts prm r where
  armed : r.stage = .idle → r.thereIsNoAnyRequest prm = false → r.attemptAllEvent.isSome = true

theorem Inv.init (prm : ResourceParams) : Inv prm ({} : Resource α) := by
  refine ⟨?_, by simp [thereIsNoAnyRequest]⟩
  constructor <;> simp [departed, served]
  omega

theorem noRequest_eq_false (inside : ∀ tid, prm.queues ≤ tid → r.queues tid = []) :
    r.thereIsNoAnyRequest prm = false ↔ ∃ tid, r.queues tid ≠ [] := by
  rw [thereIsNoAnyRequest, List.all_eq_false]
  constructor
  · grind
  · grind

theorem Accounts.addRequest (h : Accounts prm r) {tid : Nat} (known : tid < prm.queues)
    (inst : InstId) (func : α) : Accounts prm (r.addRequest tid inst func) := by
  have queue : ∀ t, (r.addRequest tid inst func).queues t
      = if t = tid then r.queues tid ++ [⟨r.nextId, r.now, inst, func⟩] else r.queues t := by
    intro t
    by_cases self : t = tid <;> simp [Resource.addRequest, self]
  refine { h with
    accounted := fun t => ?_
    numbered := fun t => ?_
    inside := fun t out => ?_
    running := fun t on => ?_ }
  · have before := h.accounted t
    by_cases self : t = tid
    · subst self
      simp only [Resource.addRequest, departed, Function.update_self, if_true] at before ⊢
      rw [before, List.append_assoc]
    · simp only [Resource.addRequest, Function.update_of_ne self, self]
        at before ⊢
      exact before
  · obtain ⟨sorted, below⟩ := h.numbered t
    by_cases self : t = tid
    · subst self
      simp only [Resource.addRequest, Function.update_self]
      refine ⟨List.pairwise_append.mpr ⟨sorted, List.pairwise_singleton _ _, ?_⟩, fun q mem => ?_⟩
      · grind
      · grind
    · simp only [Resource.addRequest, Function.update_of_ne self]
      exact ⟨sorted, fun q mem => Nat.lt_succ_of_lt (below q mem)⟩
  · have ne : t ≠ tid := by
      rintro rfl
      exact absurd known (Nat.not_lt.mpr out)
    rw [queue, if_neg ne]
    exact h.inside t out
  · obtain ⟨full, left⟩ := h.running t on
    refine ⟨?_, left⟩
    rw [queue]
    split
    · simp
    · exact full

theorem Accounts.schedule (h : Accounts prm r) : Inv prm (r.schedule prm) := by
  unfold Resource.schedule
  split
  · exact ⟨{ h with }, fun _ _ => rfl⟩
  · rename_i other
    refine ⟨h, fun _ full => ?_⟩
    rw [full] at other
    cases event : r.attemptAllEvent with
    | none => simp [event] at other
    | some => rfl

theorem Accounts.submit (h : Accounts prm r) {tid : Nat} (known : tid < prm.queues)
    (requests : List (InstId × α)) : Inv prm (r.submit prm tid requests) := by
  refine Accounts.schedule ?_
  induction requests generalizing r with
  | nil => exact h
  | cons q rest ih => exact ih (h.addRequest known q.1 q.2)

theorem filter_flatMap_range (n : Nat) (f : Nat → List (Queued α)) (tid : Nat) :
    (((List.range n).flatMap fun t => (f t).map fun q => (⟨t, q, .dropped⟩ : Departure α)).filter
      (·.tid = tid)).map (·.request) = if tid < n then f tid else [] := by
  induction n with
  | zero => simp
  | succ n ih =>
    rw [List.range_succ, List.flatMap_append, List.filter_append, List.map_append, ih]
    by_cases self : tid = n
    · subst self
      simp [List.filter_map, Function.comp_def]
    · have other : ¬ n = tid := fun eq => self eq.symm
      have bound : tid < n + 1 ↔ tid < n :=
        ⟨fun lt => Nat.lt_of_le_of_ne (Nat.le_of_lt_succ lt) self, Nat.lt_succ_of_lt⟩
      simp [other, bound]

theorem Accounts.cleanSquashed (h : Accounts prm r) (looping : ∀ tid, r.stage ≠ .running tid) :
    Accounts prm (r.cleanSquashed prm) := by
  have new : ∀ d ∈ (List.range prm.queues).flatMap fun t =>
      ((r.queues t).takeWhile r.squashed).map fun q => (⟨t, q, .dropped⟩ : Departure α),
      d.outcome = .dropped ∧ r.squashed d.request = true := by
    intro d mem
    obtain ⟨t, -, mem⟩ := List.mem_flatMap.mp mem
    obtain ⟨q, inside, rfl⟩ := List.mem_map.mp mem
    exact ⟨rfl, List.all_eq_true.mp List.all_takeWhile q inside⟩
  have served : ∀ tick, (r.cleanSquashed prm).served tick = r.served tick := by
    intro tick
    simp only [Resource.served, Resource.cleanSquashed, List.countP_append, Nat.add_eq_left,
      List.countP_eq_zero]
    intro d mem
    simp [Departure.counts, (new d mem).1]
  refine
    { accounted := fun tid => ?_
      numbered := h.numbered
      inside := fun tid out => ?_
      dropped := fun d mem gone => ?_
      past := fun tick later => (served tick).trans (h.past tick later)
      last := h.last
      used := fun on => served r.now ▸ h.used on
      unused := fun off => (served r.now).trans (h.unused off)
      limit := fun positive => ⟨(h.limit positive).1, fun tick => by
        rw [served]
        exact (h.limit positive).2 tick⟩
      active := h.active
      running := fun tid on => absurd on (looping tid) }
  · have before := h.accounted tid
    simp only [departed, Resource.cleanSquashed, List.filter_append, List.map_append,
      filter_flatMap_range] at before ⊢
    rw [before]
    split
    · rw [List.append_assoc, List.takeWhile_append_dropWhile]
    · simp
  · simp only [Resource.cleanSquashed, if_neg (Nat.not_lt.mpr out)]
    exact h.inside tid out
  · rcases List.mem_append.mp mem with old | fresh
    · exact h.dropped d old gone
    · exact (new d fresh).2

theorem Accounts.newTick (h : Accounts prm r) (idle : r.stage = .idle) :
    Accounts prm r.newTick ∧ r.newTick.stage = .idle
      ∧ r.newTick.lastActiveTick = some r.newTick.now := by
  unfold Resource.newTick
  split
  · exact ⟨h, idle, by assumption⟩
  · rename_i fresh
    refine ⟨{ h with
      last := fun tick on => Nat.le_of_eq (Option.some.inj on).symm
      used := fun _ => Nat.le_of_eq (h.unused fresh)
      unused := fun off => absurd rfl off
      limit := fun positive => ⟨Int.le_of_lt positive, (h.limit positive).2⟩
      active := fun _ => rfl
      running := fun tid on => ?_ }, idle, rfl⟩
    rw [idle] at on
    cases on

theorem prune_keeps (prm : ResourceParams) (r : Resource α) : (r.prune prm).now = r.now
    ∧ (r.prune prm).lastActiveTick = r.lastActiveTick ∧ (r.prune prm).stage = r.stage
    ∧ (r.prune prm).attemptAllEvent = r.attemptAllEvent := by
  unfold prune
  split <;> exact ⟨rfl, rfl, rfl, rfl⟩

theorem Accounts.prune (h : Accounts prm r) (looping : ∀ tid, r.stage ≠ .running tid) :
    Accounts prm (r.prune prm) := by
  unfold Resource.prune
  split
  · exact h.cleanSquashed looping
  · exact h

theorem Accounts.enter (h : Accounts prm r) (idle : r.stage = .idle) (rand : BitVec 16) :
    Inv prm (r.enter prm rand) := by
  obtain ⟨begun, stage, tick⟩ := h.newTick idle
  have accounts := begun.prune (by simp [stage])
  obtain ⟨now, last, -, -⟩ := prune_keeps prm r.newTick
  unfold Resource.enter
  dsimp only
  split
  · rename_i empty
    refine ⟨accounts, fun _ full => ?_⟩
    rw [empty] at full
    cases full
  · exact ⟨{ accounts with active := fun _ => by rw [last, now, tick], running := by simp }, by simp⟩

theorem Accounts.leave (h : Accounts prm r) : Inv prm (r.leave prm) := by
  unfold Resource.leave
  split
  · rename_i empty
    refine ⟨{ h with active := by simp, running := by simp }, fun _ full => ?_⟩
    rw [show ({ r with stage := Stage.idle } : Resource α).thereIsNoAnyRequest prm = true from empty]
      at full
    cases full
  · exact ⟨{ h with active := by simp, running := by simp }, fun _ _ => rfl⟩

theorem Accounts.iterate (h : Accounts prm r) (busy : r.lastActiveTick = some r.now)
    (chosen : Option Nat) : Inv prm (r.iterate prm chosen) := by
  cases chosen with
  | none => exact h.leave
  | some tid =>
    simp only [Resource.iterate]
    split
    · rename_i pass
      refine ⟨{ h with active := fun _ => busy, running := fun t on => ?_ }, by simp⟩
      obtain rfl : tid = t := by simpa using on
      refine ⟨pass.1, ?_⟩
      have available := pass.2
      unfold resourceAvailable at available
      split at available
      · exact available
      · exact (Bool.and_eq_true_iff.mp available).2
      · exact available
      · exact (Bool.and_eq_true_iff.mp available).2
    · exact h.leave

theorem served_finish {tid : Nat} (full : r.queues tid ≠ []) (result : Bool) (tick : Nat) :
    (r.finish tid result).served tick
      = r.served tick + if tick = r.now ∧ result = true then 1 else 0 := by
  obtain ⟨q, rest, queue⟩ := List.exists_cons_of_ne_nil full
  simp only [Resource.served, Resource.finish, queue, List.head?_cons, Option.toList_some,
    List.map_singleton, List.countP_append, List.countP_singleton, Departure.counts]
  by_cases here : tick = r.now
  · subst here
    cases result <;> simp
  · grind

theorem Accounts.finish (h : Accounts prm r) {tid : Nat} (running : r.stage = .running tid)
    (result : Bool) : Inv prm (r.finish tid result) := by
  obtain ⟨full, left⟩ := h.running tid running
  obtain ⟨q, rest, queue⟩ := List.exists_cons_of_ne_nil full
  have busy := h.active (by simp [running])
  have known : tid < prm.queues := by
    by_contra out
    exact full (h.inside tid (Nat.le_of_not_lt out))
  have served := served_finish full result
  have bound : 0 < prm.bandwidth → r.usedBandwidth < prm.bandwidth := by
    simp only [bandwidthLeft, Bool.or_eq_true, beq_iff_eq, decide_eq_true_eq] at left
    omega
  have used := h.used busy
  refine ⟨
    { accounted := fun t => ?_
      numbered := h.numbered
      inside := fun t out => ?_
      dropped := fun d mem gone => ?_
      past := fun tick later => ?_
      last := h.last
      used := fun _ => ?_
      unused := fun off => absurd busy off
      limit := fun positive => ⟨?_, fun tick => ?_⟩
      active := fun _ => busy
      running := by simp [Resource.finish] }, by simp [Resource.finish]⟩
  · have before := h.accounted t
    simp only [departed, Resource.finish] at before ⊢
    rw [before]
    by_cases self : t = tid
    · subst self
      simp [queue]
    · grind
  · have ne : t ≠ tid := by
      rintro rfl
      exact absurd known (Nat.not_lt.mpr out)
    simp only [Resource.finish, Function.update_of_ne ne]
    exact h.inside t out
  · rcases List.mem_append.mp mem with old | fresh
    · exact h.dropped d old gone
    · grind
  · have ne : ¬ tick = r.now := Nat.ne_of_gt later
    rw [served, h.past tick later]
    simp [ne]
  · change (r.finish tid result).served r.now ≤ if result then r.usedBandwidth + 1 else r.usedBandwidth
    rw [served]
    cases result <;> simp <;> omega
  · have := bound positive
    change ((if result then r.usedBandwidth + 1 else r.usedBandwidth : Nat) : Int) ≤ prm.bandwidth
    split <;> omega
  · have := bound positive
    have all := (h.limit positive).2 tick
    rw [served]
    split
    · grind
    · simpa using all

theorem Accounts.advance (h : Accounts prm r) (idle : r.stage = .idle) {tick : Nat}
    (later : r.now ≤ tick) : Accounts prm { r with now := tick } := by
  rcases Nat.eq_or_lt_of_le later with rfl | more
  · exact h
  have fresh : r.lastActiveTick ≠ some tick := by
    intro on
    exact Nat.not_le.mpr more (h.last tick on)
  exact { h with
    past := fun t after => h.past t (Nat.lt_trans more after)
    last := fun t on => Nat.le_trans (h.last t on) later
    used := fun on => absurd on fresh
    unused := fun _ => h.past tick more
    active := fun busy => absurd idle busy }

theorem Inv.step (inv : Inv prm r) (e : Event α) : Inv prm (r.step prm e) := by
  have h := inv.toAccounts
  cases e with
  | advance tick =>
    simp only [Resource.step]
    split
    · rename_i ok
      exact ⟨h.advance ok.1 ok.2.1, inv.armed⟩
    · exact inv
  | fire rand =>
    simp only [Resource.step]
    split
    · rename_i due
      have taken : Accounts prm ({ r with attemptAllEvent := none }) := { h with }
      exact taken.enter due.1 rand
    · exact inv
  | proceed =>
    simp only [Resource.step]
    split
    · rename_i chosen looping
      exact h.iterate (h.active (by simp [looping])) chosen
    · exact inv
  | finish result =>
    simp only [Resource.step]
    split
    · rename_i tid running
      exact h.finish running result
    · exact inv
  | submit tid requests =>
    simp only [Resource.step]
    split
    · exact inv
    · split
      · rename_i known
        exact h.submit known requests
      · exact inv
  | observe =>
    simp only [Resource.step]
    split
    · exact inv
    · refine ⟨{ h with dropped := fun d mem gone => ?_ }, inv.armed⟩
      have before := h.dropped d mem gone
      simp only [Resource.squashed] at before ⊢
      rw [before, Bool.or_true]
  | block =>
    simp only [Resource.step]
    split
    · exact inv
    · exact ⟨{ h with }, inv.armed⟩
  | retry =>
    simp only [Resource.step]
    split
    · exact inv
    · have opened : Accounts prm ({ r with portBlocked := false }) := { h with }
      exact opened.schedule

theorem newTick_keeps (r : Resource α) : r.newTick.now = r.now ∧ r.newTick.queues = r.queues
    ∧ r.newTick.log = r.log ∧ r.newTick.attemptAllEvent = r.attemptAllEvent := by
  unfold newTick
  split <;> exact ⟨rfl, rfl, rfl, rfl⟩

theorem submitted_keeps (requests : List (InstId × α)) (tid : Nat) :
    let s := requests.foldl (fun r q => r.addRequest tid q.1 q.2) r
    s.now = r.now ∧ s.stage = r.stage ∧ s.attemptAllEvent = r.attemptAllEvent ∧ s.log = r.log := by
  induction requests generalizing r with
  | nil => exact ⟨rfl, rfl, rfl, rfl⟩
  | cons x rest ih => exact ih (r := r.addRequest tid x.1 x.2)

theorem log_step (prm : ResourceParams) (r : Resource α) (e : Event α) : ∃ more, (r.step prm e).log = r.log ++ more := by
  have schedule : ∀ s : Resource α, (s.schedule prm).log = s.log := fun s => by
    unfold Resource.schedule
    split <;> rfl
  have leave : ∀ s : Resource α, (s.leave prm).log = s.log := fun s => by
    unfold Resource.leave
    split <;> rfl
  cases e with
  | advance | observe | block =>
    simp only [Resource.step]
    split <;> simp
  | fire =>
    simp only [Resource.step]
    split
    · have log := (newTick_keeps { r with attemptAllEvent := none }).2.2.1
      have pruned : ∃ more, (({ r with attemptAllEvent := none }).newTick.prune prm).log
          = r.log ++ more := by
        unfold Resource.prune
        split
        · exact ⟨_, congrArg (· ++ _) log⟩
        · exact ⟨[], by rw [log, List.append_nil]⟩
      obtain ⟨more, eq⟩ := pruned
      refine ⟨more, ?_⟩
      unfold Resource.enter
      dsimp only
      split <;> exact eq
    · exact ⟨[], by simp⟩
  | proceed =>
    refine ⟨[], ?_⟩
    simp only [Resource.step]
    split
    · unfold Resource.iterate
      split
      · grind
      · rw [leave, List.append_nil]
    · simp
  | finish =>
    simp only [Resource.step]
    split
    · exact ⟨_, rfl⟩
    · exact ⟨[], by simp⟩
  | submit tid requests =>
    refine ⟨[], ?_⟩
    simp only [Resource.step]
    split
    · simp
    · split
      · rw [Resource.submit, schedule, (submitted_keeps requests tid).2.2.2, List.append_nil]
      · simp
  | retry =>
    refine ⟨[], ?_⟩
    simp only [Resource.step]
    split
    · simp
    · rw [schedule, List.append_nil]

theorem served_le_step (r : Resource α) (e : Event α) (tick : Nat) :
    r.served tick ≤ (r.step prm e).served tick := by
  obtain ⟨more, eq⟩ := log_step prm r e
  rw [Resource.served, Resource.served, eq, List.countP_append]
  exact Nat.le_add_right _ _

theorem Reachable.inv (run : Reachable prm r) : Inv prm r :=
  Runs.Reaches.invariant run (Inv.init prm) fun _ e inv _ => inv.step e

/-- Between events a request has the event scheduled. Requests leave their queue in the
order of addition and once, without running only when they are squashed, and no more
return `true` in a tick than the bandwidth allows. -/
theorem requests_served_in_order (run : Reachable prm r) :
    (r.stage = .idle → (∃ tid, r.queues tid ≠ []) → r.attemptAllEvent.isSome = true)
      ∧ (∀ tid, r.added tid = r.departed tid ++ r.queues tid
        ∧ (r.added tid).Pairwise (·.id < ·.id))
      ∧ (∀ d ∈ r.log, d.outcome = .dropped → (r.view d.request.inst).isSquashed = true)
      ∧ (0 < prm.bandwidth → ∀ tick, r.served tick ≤ prm.bandwidth) := by
  have inv := run.inv
  exact ⟨fun idle some => inv.armed idle ((noRequest_eq_false inv.inside).mpr some),
    fun tid => ⟨inv.accounted tid, (inv.numbered tid).1⟩, inv.dropped,
    fun positive => (inv.limit positive).2⟩

/-- A resource that serves one request a cycle. -/
def oneACycle : ResourceParams := ⟨.resource, 1, 1, 1, 500⟩

/-- Two requests are added and the first is served. -/
def twoRequests : Resource Unit :=
  Runs.run (step oneACycle) {}
    [.submit 0 [(0, ()), (1, ())], .advance 500, .fire 0, .proceed, .finish true, .proceed]

theorem requests_served_in_order_two :
    (twoRequests.queues 0).length = 1 ∧ twoRequests.attemptAllEvent.isSome = true
      ∧ twoRequests.served 500 ≤ 1 := by
  have run : Reachable oneACycle twoRequests := Runs.reaches_run ..
  have all := requests_served_in_order run
  refine ⟨by decide, all.1 (by decide) ⟨0, by decide⟩, ?_⟩
  exact Int.ofNat_le.mp (all.2.2.2 (by decide) 500)

end Resource

end Gem5.FlexCPU
