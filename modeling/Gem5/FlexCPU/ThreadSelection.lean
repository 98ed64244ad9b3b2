import Gem5.FlexCPU.Resource
import Mathlib.Data.List.TakeWhile

/-!
# Which thread a resource serves

The selection functions go once around the threads from some offset, or keep the best thread so
far. What they return is read off the queues, and the round robin gets to every waiting thread.
-/

namespace Gem5.FlexCPU

open List

namespace FlexPolicy

variable {tid : Nat}

variable {threads : Nat} {front : Nat → Option FrontView} {priority : Nat}

/-- All threads, from an offset on. -/
def offsets (threads base : Nat) : List Nat :=
  (List.range threads).map fun i => (base + i) % threads

theorem turn_eq (threads priority : Nat) : turn threads priority = offsets threads (priority + 1) := by
  refine map_congr_left fun i _ => ?_
  rw [Nat.add_assoc, Nat.add_comm 1 i]

theorem turn_comes (known : tid < threads) (base : Nat) :
    ∃ i, i < threads ∧ (base + i) % threads = tid := by
  have pos : 0 < threads := Nat.lt_of_le_of_lt (Nat.zero_le _) known
  have below := Nat.mod_lt base pos
  refine ⟨(tid + (threads - base % threads)) % threads, Nat.mod_lt _ pos, ?_⟩
  have total : base + (tid + (threads - base % threads))
      = tid + threads * (base / threads + 1) := by
    have split := Nat.div_add_mod base threads
    rw [Nat.mul_add, Nat.mul_one]
    omega
  rw [Nat.add_mod_mod, total, Nat.add_mul_mod_self_left, Nat.mod_eq_of_lt known]

theorem mem_offsets (pos : 0 < threads) (base tid : Nat) :
    tid ∈ offsets threads base ↔ tid < threads := by
  rw [offsets, List.mem_map]
  constructor
  · rintro ⟨i, -, rfl⟩
    exact Nat.mod_lt _ pos
  · intro known
    obtain ⟨i, hi, eq⟩ := turn_comes known base
    exact ⟨i, List.mem_range.mpr hi, eq⟩

theorem find_offsets {pass : Nat → Bool} {base i : Nat} (hi : i < threads)
    (passes : pass ((base + i) % threads) = true) :
    ∃ k, k ≤ i ∧ (offsets threads base).find? pass = some ((base + k) % threads) := by
  rw [offsets, List.find?_map]
  cases found : (List.range threads).find? (pass ∘ fun i => (base + i) % threads) with
  | none => grind
  | some k =>
    refine ⟨k, ?_, rfl⟩
    by_contra later
    have before := (List.find?_range_eq_some.mp found).2.2 i (Nat.lt_of_not_le later)
    simp [passes] at before

/-- A thread whose front is ready. -/
def AnyReady (threads : Nat) (front : Nat → Option FrontView) : Prop :=
  ∃ tid, tid < threads ∧ frontReady front tid = true

theorem choose_offsets (priority : Nat) (pos : 0 < threads) (base : Nat) (pass : Nat → Bool) :
    (∃ tid, choose priority (offsets threads base) pass = (some tid, tid) ∧ tid < threads
      ∧ pass tid = true)
    ∨ (choose priority (offsets threads base) pass = (none, priority)
      ∧ ∀ tid, tid < threads → pass tid = false) := by
  rw [choose]
  cases found : (offsets threads base).find? pass with
  | some tid => grind [mem_offsets]
  | none => grind [mem_offsets]

/-- A ready thread if there is one, and none otherwise. -/
def Serves (threads : Nat) (front : Nat → Option FrontView) (chosen : Option Nat) : Prop :=
  (AnyReady threads front → ∃ tid, chosen = some tid ∧ tid < threads
    ∧ frontReady front tid = true)
  ∧ (¬ AnyReady threads front → chosen = none)

theorem Serves.of_found {chosen : Option Nat} (found : (∃ tid, chosen = some tid ∧ tid < threads ∧
    frontReady front tid = true) ∨ (chosen = none ∧ ∀ tid, tid < threads → frontReady front tid =
    false)) : Serves threads front chosen := by
  rcases found with ⟨tid, eq, known, ready⟩ | ⟨eq, idle⟩
  · exact ⟨fun _ => ⟨tid, eq, known, ready⟩, fun none => absurd ⟨tid, known, ready⟩ none⟩
  · refine ⟨?_, fun _ => eq⟩
    rintro ⟨tid, known, ready⟩
    rw [idle tid known] at ready
    cases ready

theorem roundRobinPriority_serves (pos : 0 < threads) (front : Nat → Option FrontView)
    (priority : Nat) : Serves threads front (roundRobinPriority threads front priority).1 := by
  rw [roundRobinPriority, turn_eq]
  apply Serves.of_found
  rcases choose_offsets _ pos (priority + 1) (frontReady front) with ⟨tid, eq, found⟩ | ⟨eq, idle⟩
  · exact .inl ⟨tid, congrArg Prod.fst eq, found⟩
  · exact .inr ⟨congrArg Prod.fst eq, idle⟩

theorem corsePriority_serves (pos : 0 < threads) (front : Nat → Option FrontView)
    (priority : Nat) : Serves threads front (corsePriority threads front priority).1 := by
  apply Serves.of_found
  rcases choose_offsets priority pos priority (frontReady front)
    with ⟨tid, eq, found⟩ | ⟨eq, idle⟩
  · exact .inl ⟨tid, congrArg Prod.fst eq, found⟩
  · exact .inr ⟨congrArg Prod.fst eq, idle⟩

theorem frontReady_of_urgent (urgent : frontUrgent front tid = true) :
    frontReady front tid = true := by
  rw [frontUrgent, Option.any_eq_true] at urgent
  obtain ⟨view, eq, both⟩ := urgent
  rw [frontReady, eq]
  exact (Bool.and_eq_true_iff.mp both).1

theorem eventPriority_serves (pos : 0 < threads) (front : Nat → Option FrontView) (priority : Nat) :
    Serves threads front (eventPriority threads front priority).1 ∧
      ((∃ tid, tid < threads ∧ frontUrgent front tid = true) →
        ∃ tid, (eventPriority threads front priority).1 = some tid
          ∧ frontUrgent front tid = true) := by
  rw [eventPriority, turn_eq]
  rcases choose_offsets priority pos (priority + 1) (frontUrgent front)
    with ⟨tid, eq, known, urgent⟩ | ⟨eq, idle⟩
  · rw [eq]
    exact ⟨.of_found (.inl ⟨tid, rfl, known, frontReady_of_urgent urgent⟩),
      fun _ => ⟨tid, rfl, urgent⟩⟩
  · grind [roundRobinPriority_serves]

theorem randomPriority_serves (pos : 0 < threads) (front : Nat → Option FrontView)
    (rand : BitVec 16) :
    Serves threads front (randomPriority threads front rand) ↔ AnyReady threads front := by
  rw [randomPriority]
  generalize ((rand.toInt + 1) % 2 ^ 64).toNat % threads = first
  change Serves threads front (((offsets threads first).find? (frontReady front)).or
    (offsets threads first).getLast?) ↔ _
  constructor
  · intro serves
    by_contra idle
    have nothing := serves.2 idle
    rw [Option.or_eq_none_iff, List.getLast?_eq_none_iff] at nothing
    have mem := (mem_offsets pos first 0).mpr pos
    rw [nothing.2] at mem
    cases mem
  · rintro ⟨tid, known, ready⟩
    cases found : (offsets threads first).find? (frontReady front) with
    | none => grind [mem_offsets]
    | some tid =>
      have mem := List.mem_of_find?_eq_some found
      exact .of_found (.inl ⟨tid, rfl, (mem_offsets pos first tid).mp mem, List.find?_some found⟩)

theorem maxPriority_fold (size : Nat → Nat) (front : Nat → Option FrontView) (threads : Nat) :
    let best := (List.range threads).foldl (fun best tid =>
      if best.2 < size tid && frontReady front tid then (some tid, size tid) else best)
      ((none, 0) : Option Nat × Nat)
    (best = (none, 0) ∧ ∀ tid, tid < threads → frontReady front tid = true → size tid = 0)
    ∨ ∃ tid, best = (some tid, size tid) ∧ tid < threads ∧ frontReady front tid = true
      ∧ ∀ s, s < threads → frontReady front s = true → size s ≤ size tid := by
  induction threads with
  | zero => exact .inl ⟨rfl, fun _ known => absurd known (Nat.not_lt_zero _)⟩
  | succ n ih =>
    rw [List.range_succ, foldl_append, List.foldl_cons, foldl_nil]
    generalize (List.range n).foldl _ _ = best at ih ⊢
    by_cases better : (best.2 < size n && frontReady front n) = true
    · grind
    · rw [if_neg better]
      rcases ih with ⟨rfl, empty⟩ | ⟨tid, rfl, known, ready, most⟩
      · grind
      · grind

/-- What `qid_select` owes: a ready thread, of the longest queue under `FlxMax` and with a
control or memory instruction, if there is one, under `FlxEvent`. -/
structure Selects (threads : Nat) (policy : FlexPolicy) (queues : Nat → List FrontView)
    (chosen : Option Nat) : Prop where
  serves : Serves threads (fun tid => (queues tid).head?) chosen
  longest : policy = .max → ∀ tid, chosen = some tid → ∀ s, s < threads →
    frontReady (fun tid => (queues tid).head?) s = true →
      (queues s).length ≤ (queues tid).length
  urgent : policy = .event →
    (∃ tid, tid < threads ∧ frontUrgent (fun tid => (queues tid).head?) tid = true) →
      ∃ tid, chosen = some tid ∧ frontUrgent (fun tid => (queues tid).head?) tid = true

theorem maxPriority_selects (threads : Nat) (queues : Nat → List FrontView) :
    Selects threads .max queues (maxPriority threads (fun tid => (queues tid).length)
      fun tid => (queues tid).head?) := by
  have best := maxPriority_fold (fun tid => (queues tid).length) (fun tid => (queues tid).head?)
    threads
  rw [maxPriority]
  rcases best with ⟨eq, empty⟩ | ⟨tid, eq, known, ready, most⟩
  · rw [eq]
    refine ⟨.of_found (.inr ⟨rfl, fun tid known => ?_⟩), fun _ _ none => (by cases none), by simp⟩
    by_contra ready
    have ready : frontReady (fun tid => (queues tid).head?) tid = true := by simpa using ready
    have gone := List.length_eq_zero_iff.mp (empty tid known ready)
    simp [frontReady, gone] at ready
  · rw [eq]
    refine ⟨.of_found (.inl ⟨tid, rfl, known, ready⟩), fun _ _ same => ?_, by simp⟩
    cases same
    exact most

/-- Every policy for several threads selects as it should, except that the random one returns
a thread also when none is ready. -/
theorem qidSelect_selects (pos : 1 ≤ threads) {policy : FlexPolicy}
    (several : policy ≠ .singleThreaded) (queues : Nat → List FrontView) (rand : BitVec 16)
    (priority : Nat) :
    Selects threads policy queues (qidSelect threads (fun tid => (queues tid).length)
        (fun tid => (queues tid).head?) policy rand priority).1
      ↔ (policy = .random → AnyReady threads fun tid => (queues tid).head?) := by
  cases policy with
  | singleThreaded => exact absurd rfl several
  | random =>
    have serves := randomPriority_serves pos (fun tid => (queues tid).head?) rand
    exact ⟨fun selects _ => serves.mp selects.serves,
      fun ready => ⟨serves.mpr (ready rfl), by simp, by simp⟩⟩
  | roundRobin =>
    refine iff_of_true ⟨roundRobinPriority_serves pos _ priority, ?_, ?_⟩ ?_ <;> simp
  | corse => refine iff_of_true ⟨corsePriority_serves pos _ priority, ?_, ?_⟩ ?_ <;> simp
  | max => exact iff_of_true (maxPriority_selects threads queues) (by simp)
  | event =>
    obtain ⟨serves, urgent⟩ := eventPriority_serves pos (fun tid => (queues tid).head?) priority
    exact iff_of_true ⟨serves, by simp, fun _ => urgent⟩ (by simp)

/-- A front that waits for its operands. -/
def waiting : FrontView := ⟨false, false, false, false⟩

/-- The random policy returns a thread whose front is not ready. -/
theorem random_selects_waiting :
    ¬ Selects 2 .random (fun _ => [waiting]) (qidSelect 2 (fun _ => 1) (fun _ => some waiting)
      .random 0 0).1 := by
  intro selects
  have idle : ¬ AnyReady 2 fun _ => some waiting := by
    rintro ⟨_, _, ready⟩
    cases ready
  have none := selects.serves.2 idle
  revert none
  decide

/-- Under `FlxMax` the longer of two queues is served. -/
theorem qidSelect_selects_two :
    Selects 2 .max (fun tid => List.replicate (tid + 1) ⟨false, true, false, false⟩) (some 1) :=
  (qidSelect_selects (by decide) (by decide)
    (fun tid => List.replicate (tid + 1) ⟨false, true, false, false⟩) 0 0).mpr (by simp)

/-- The priority before each of the calls that see the given fronts. -/
def priorityAt (threads : Nat) (fronts : Nat → Nat → Option FrontView) (start : Nat) : Nat → Nat
  | 0 => start
  | k + 1 => (roundRobinPriority threads (fronts k) (priorityAt threads fronts start k)).2

/-- A waiting thread whose turn comes at step `i` is served within `i + 1` calls: a call that
serves another thread brings the turn nearer. -/
theorem served_within (fronts : Nat → Nat → Option FrontView) (start : Nat) {i : Nat}
    (hi : i < threads) {first : Nat}
    (turn : (priorityAt threads fronts start first + 1 + i) % threads = tid)
    (ready : ∀ k, first ≤ k → k < first + (i + 1) → frontReady (fronts k) tid = true) :
    ∃ k, first ≤ k ∧ k < first + (i + 1) ∧
      (roundRobinPriority threads (fronts k) (priorityAt threads fronts start k)).1 = some tid := by
  induction i using Nat.strongRecOn generalizing first with
  | ind i ih =>
    have now : frontReady (fronts first) ((priorityAt threads fronts start first + 1 + i) % threads)
        = true := turn ▸ ready first (Nat.le_refl _) (by omega)
    obtain ⟨j, hj, found⟩ := find_offsets hi now
    have call : roundRobinPriority threads (fronts first) (priorityAt threads fronts start first)
        = (some ((priorityAt threads fronts start first + 1 + j) % threads),
          (priorityAt threads fronts start first + 1 + j) % threads) := by
      rw [roundRobinPriority, turn_eq, choose, found]
    rcases Nat.lt_or_eq_of_le hj with before | rfl
    · have next : priorityAt threads fronts start (first + 1)
          = (priorityAt threads fronts start first + 1 + j) % threads := congrArg Prod.snd call
      have nearer : (priorityAt threads fronts start (first + 1) + 1 + (i - j - 1)) % threads
          = tid := by
        have sum : priorityAt threads fronts start first + 1 + j + (1 + (i - j - 1))
            = priorityAt threads fronts start first + 1 + i := by omega
        rw [next, Nat.add_assoc, Nat.mod_add_mod, sum, turn]
      obtain ⟨k, from_, until_, served⟩ := ih (i - j - 1) (by omega) (by omega) nearer
        fun k from_ until_ => ready k (by omega) (by omega)
      exact ⟨k, by omega, by omega, served⟩
    · exact ⟨first, Nat.le_refl _, by omega, by rw [call, turn]⟩

/-- A thread that waits during as many calls as there are threads is served. -/
theorem roundRobin_no_bypass (fronts : Nat → Nat → Option FrontView) (start first : Nat) {tid : Nat}
    (known : tid < threads)
    (ready : ∀ k, first ≤ k → k < first + threads → frontReady (fronts k) tid = true) :
    ∃ k, first ≤ k ∧ k < first + threads ∧
      (roundRobinPriority threads (fronts k) (priorityAt threads fronts start k)).1 = some tid := by
  obtain ⟨i, hi, turn⟩ := turn_comes known (priorityAt threads fronts start first + 1)
  obtain ⟨k, from_, until_, served⟩ := served_within fronts start hi turn
    fun k from_ until_ => ready k from_ (by omega)
  exact ⟨k, from_, by omega, served⟩

/-- Of three waiting threads the last is served by the third call. -/
theorem roundRobin_no_bypass_three :
    ∃ k, 0 ≤ k ∧ k < 0 + 3 ∧ (roundRobinPriority 3 (fun _ => some ⟨false, true, false, false⟩)
      (priorityAt 3 (fun _ _ => some ⟨false, true, false, false⟩) 0 k)).1 = some 0 :=
  roundRobin_no_bypass (fun _ _ => some ⟨false, true, false, false⟩) 0 0 (by decide)
    fun _ _ _ => rfl

end FlexPolicy

theorem getMinQid_fold (issueSize size : Nat → Nat) (bound threads : Nat) :
    let best := (List.range threads).foldl (fun best tid =>
      if issueSize tid < best.2 && size tid != 0 then (some tid, issueSize tid) else best)
      ((none, bound) : Option Nat × Nat)
    (best = (none, bound) ∧ ∀ tid, tid < threads → size tid ≠ 0 → bound ≤ issueSize tid)
    ∨ ∃ tid, best = (some tid, issueSize tid) ∧ tid < threads ∧ size tid ≠ 0
      ∧ issueSize tid < bound
      ∧ (∀ s, s < threads → size s ≠ 0 → issueSize tid ≤ issueSize s)
      ∧ ∀ s, s < tid → size s ≠ 0 → issueSize tid < issueSize s := by
  induction threads with
  | zero => exact .inl ⟨rfl, fun _ known => absurd known (Nat.not_lt_zero _)⟩
  | succ n ih =>
    rw [List.range_succ, foldl_append, List.foldl_cons, foldl_nil]
    generalize (List.range n).foldl _ _ = best at ih ⊢
    by_cases better : (issueSize n < best.2 && size n != 0) = true
    · rw [if_pos better]
      obtain ⟨shorter, pending⟩ := Bool.and_eq_true_iff.mp better
      have shorter := of_decide_eq_true shorter
      have pending : size n ≠ 0 := by simpa using pending
      have least : issueSize n < bound ∧ ∀ s, s < n → size s ≠ 0 → issueSize n < issueSize s := by
        rcases ih with ⟨rfl, far⟩ | ⟨tid, rfl, -, -, short, most, -⟩
        · exact ⟨shorter, fun s known also => Nat.lt_of_lt_of_le shorter (far s known also)⟩
        · grind
      refine .inr ⟨n, rfl, Nat.lt_succ_self n, pending, least.1, fun s known also => ?_, least.2⟩
      rcases Nat.lt_succ_iff_lt_or_eq.mp known with before | rfl
      · exact Nat.le_of_lt (least.2 s before also)
      · exact Nat.le_refl _
    · rw [if_neg better]
      rcases ih with ⟨rfl, far⟩ | ⟨tid, rfl, known, pending, short, most, first⟩
      · grind
      · grind

/-- The first thread with a fetch request and the shortest issue queue, unless all those queues
are longer than an `int` counts. -/
structure IsMinQid (threads : Nat) (issueSize size : Nat → Nat) (qid : Option Nat) : Prop where
  least : ∀ tid, qid = some tid → tid < threads ∧ size tid ≠ 0
    ∧ (∀ s, s < threads → size s ≠ 0 → issueSize tid ≤ issueSize s)
    ∧ ∀ s, s < tid → size s ≠ 0 → issueSize tid < issueSize s
  none : qid = none ↔ ∀ s, s < threads → size s ≠ 0 → 2 ^ 31 - 1 ≤ issueSize s

/-- A queue that an `int` cannot count leaves a pending fetch unchosen. -/
theorem getMinQid_misses_long_queue :
    ¬(getMinQid 1 (fun _ => 2 ^ 31 - 1) (fun _ => 1) = none ↔
      ∀ tid, tid < 1 → (fun _ : Nat => 1) tid = 0) := by
  intro same
  have chosen : getMinQid 1 (fun _ => 2 ^ 31 - 1) (fun _ => 1) = none := by decide
  exact absurd (same.mp chosen 0 Nat.zero_lt_one) (by decide)

theorem getMinQid_isMinQid (threads : Nat) (issueSize size : Nat → Nat) :
    IsMinQid threads issueSize size (getMinQid threads issueSize size) := by
  have best := getMinQid_fold issueSize size (2 ^ 31 - 1) threads
  rw [getMinQid]
  rcases best with ⟨eq, far⟩ | ⟨tid, eq, known, pending, short, least⟩
  · rw [eq]
    exact ⟨fun _ none => (by cases none), iff_of_true rfl far⟩
  · rw [eq]
    refine ⟨fun _ same => ?_, iff_of_false (by simp) fun far => ?_⟩
    · cases same
      exact ⟨known, pending, least⟩
    · exact absurd (far tid known pending) (Nat.not_le.mpr short)

namespace Resource

variable {α : Type} {prm : ResourceParams}

/-- `attemptAllRequests` up to its first request. -/
def attempt (prm : ResourceParams) (r : Resource α) (rand : BitVec 16) : Resource α :=
  match (r.enter prm rand).stage with
  | .loop chosen => (r.enter prm rand).iterate prm chosen
  | _ => r.enter prm rand

theorem cleanSquashed_ne_nil {r : Resource α} (known : tid < prm.queues)
    {q : Queued α} (mem : q ∈ r.queues tid) (live : r.squashed q = false) :
    (r.cleanSquashed prm).queues tid ≠ [] := by
  intro gone
  change (if tid < prm.queues then (r.queues tid).dropWhile r.squashed else r.queues tid) = [] at gone
  rw [if_pos known] at gone
  have all := List.dropWhile_eq_nil_iff.mp gone q mem
  rw [live] at all
  cases all

theorem issueSize_cleaned (r : Resource α) :
    (r.newTick.cleanSquashed prm).issueSize = r.issueSize := by
  rw [cleanSquashed, newTick]
  split <;> rfl

theorem portBlocked_cleaned (r : Resource α) :
    (r.newTick.cleanSquashed prm).portBlocked = r.portBlocked := by
  rw [cleanSquashed, newTick]
  split <;> rfl

theorem fetch_unavailable (fetch : prm.cls = .resourceFetchDecision) {r : Resource α}
    (unavailable : (r.newTick.cleanSquashed prm).resourceAvailable prm tid = false) :
    r.portBlocked = true ∨ r.newTick.bandwidthLeft prm = false ∨ 20 < r.issueSize tid := by
  rw [resourceAvailable, fetch] at unavailable
  rw [portBlocked_cleaned, issueSize_cleaned] at unavailable
  cases blocked : r.portBlocked with
  | true => exact .inl rfl
  | false =>
    right
    cases left : r.newTick.bandwidthLeft prm with
    | false => exact .inl rfl
    | true =>
      have same : (r.newTick.cleanSquashed prm).bandwidthLeft prm = true := left
      rw [blocked, same] at unavailable
      exact .inr (by simpa using unavailable)

theorem enter_fetch (fetch : prm.cls = .resourceFetchDecision) (r : Resource α)
    (rand : BitVec 16) (known : tid < prm.threads)
    (pending : (r.newTick.cleanSquashed prm).queues tid ≠ []) :
    r.enter prm rand = { r.newTick.cleanSquashed prm with
      stage := .loop (getMinQid prm.threads r.issueSize fun tid =>
        ((r.newTick.cleanSquashed prm).queues tid).length) } := by
  have queues : prm.queues = prm.threads := by
    rw [ResourceParams.queues, fetch]
  have pruned : r.newTick.prune prm = r.newTick.cleanSquashed prm := by
    rw [prune, cleans, fetch]
    rfl
  have some_ : (r.newTick.cleanSquashed prm).thereIsNoAnyRequest prm = false := by
    rw [thereIsNoAnyRequest, List.all_eq_false]
    exact ⟨tid, List.mem_range.mpr (queues ▸ known), by simpa using pending⟩
  rw [enter, pruned]
  dsimp only
  rw [some_, select, fetch, issueSize_cleaned]
  rfl

/-- The fetch decision takes the thread with the least to issue, and an attempt that runs nothing
has a reason. -/
theorem fetch_decision (fetch : prm.cls = .resourceFetchDecision) (r : Resource α)
    (rand : BitVec 16) :
    IsMinQid prm.threads r.issueSize (fun tid => (r.queues tid).length)
        (getMinQid prm.threads r.issueSize fun tid => (r.queues tid).length) ∧
      ((∃ tid, tid < prm.threads ∧ ∃ q ∈ r.queues tid, r.squashed q = false) →
        (∀ tid, (r.attempt prm rand).stage ≠ .running tid) →
          r.portBlocked = true ∨ r.newTick.bandwidthLeft prm = false ∨
            ∀ tid, tid < prm.threads → (r.newTick.cleanSquashed prm).queues tid ≠ [] →
              20 < r.issueSize tid) := by
  refine ⟨getMinQid_isMinQid _ _ _, ?_⟩
  rintro ⟨tid, known, q, mem, live⟩ nothing
  have mem' : q ∈ r.newTick.queues tid := by
    rw [newTick]
    split <;> exact mem
  have live' : r.newTick.squashed q = false := by
    rw [newTick]
    split <;> exact live
  have pending : (r.newTick.cleanSquashed prm).queues tid ≠ [] :=
    cleanSquashed_ne_nil (by rw [ResourceParams.queues, fetch]; exact known) mem' live'
  have entered := enter_fetch fetch r rand known pending
  have least := getMinQid_isMinQid prm.threads r.issueSize fun tid =>
    ((r.newTick.cleanSquashed prm).queues tid).length
  rw [attempt, entered] at nothing
  dsimp only at nothing
  cases chosen : getMinQid prm.threads r.issueSize fun tid =>
      ((r.newTick.cleanSquashed prm).queues tid).length with
  | none =>
    refine .inr (.inr fun s below full => ?_)
    have far := least.none.mp chosen s below (by simpa using full)
    omega
  | some t =>
    obtain ⟨-, full, most, -⟩ := least.least t chosen
    rw [chosen] at nothing
    have unavailable : (r.newTick.cleanSquashed prm).resourceAvailable prm t = false := by
      by_contra available
      refine nothing t ?_
      have runs : (r.newTick.cleanSquashed prm).queues t ≠ [] ∧
          (r.newTick.cleanSquashed prm).resourceAvailable prm t = true :=
        ⟨by simpa using full, by simpa using available⟩
      rw [iterate]
      exact congrArg stage (if_pos runs)
    refine (fetch_unavailable fetch unavailable).imp_right (Or.imp_right fun long => ?_)
    intro s below pendingS
    exact Nat.lt_of_lt_of_le long (most s below (by simpa using pendingS))

/-- Two fetches are waiting behind a blocked port. -/
def blockedFetches : Resource Unit where
  queues tid := if tid < 2 then [⟨tid, 0, tid, ()⟩] else []
  portBlocked := true
  issueSize tid := if tid = 0 then 3 else 1

theorem fetch_decision_blocked :
    getMinQid 2 blockedFetches.issueSize (fun tid => (blockedFetches.queues tid).length) = some 1 ∧
      (blockedFetches.portBlocked = true ∨
        blockedFetches.newTick.bandwidthLeft ⟨.resourceFetchDecision, 1, 1, 2, 1⟩ = false ∨
          ∀ tid, tid < 2 →
            (blockedFetches.newTick.cleanSquashed ⟨.resourceFetchDecision, 1, 1, 2, 1⟩).queues tid ≠ []
              → 20 < blockedFetches.issueSize tid) := by
  have fetch : ResourceParams.cls ⟨.resourceFetchDecision, 1, 1, 2, 1⟩ = .resourceFetchDecision := rfl
  have decision := fetch_decision fetch blockedFetches 0
  refine ⟨by decide, decision.2 ⟨0, by decide, ⟨0, 0, 0, ()⟩, by decide, by decide⟩ ?_⟩
  intro tid
  have stays : (blockedFetches.attempt ⟨.resourceFetchDecision, 1, 1, 2, 1⟩ 0).stage = .idle := by
    decide
  rw [stays]
  simp

end Resource

end Gem5.FlexCPU
