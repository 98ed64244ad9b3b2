import Gem5.Minor.Execute
import Gem5.Lib.Loops

/-!
# The scan for interrupts

`Execute::checkInterrupts` goes around the threads from the one that was served last. A thread
for which an interrupt is signalled, and which is between instructions, is asked for it; only
another thread is passed over.
-/

namespace Gem5.Minor

open List Option

open Loops (Returns)

/-- What an interrupt controller answers: `checkInterrupts`, and whether `getInterrupt` gives
a fault. -/
structure IntrAnswer where
  signalled : Bool
  fault : Bool

/-- The threads, those with an interrupt controller in a full system, and the answers of the
controllers: `answers tid k` is what they are after `k` looks at the thread. -/
structure IntrSystem where
  numThreads : Nat
  controller : Nat → Bool
  answers : Nat → Nat → IntrAnswer

/-- A round of the scan: the thread it looks at, how often it has just looked at it, and what it
has found. `examined` records every look. -/
structure IntrScan where
  tid : Nat
  again : Nat := 0
  interrupted : Bool := false
  examined : List (Nat × Nat) := []

/-- The results of `checkInterrupts`; `none` is `InvalidThreadID`. -/
structure IntrResult where
  tid : Option Nat
  interrupted : Bool
  interruptPriority : Nat
  examined : List (Nat × Nat)

namespace Execute

variable (sys : IntrSystem) (s : Execute) (interruptPriority : Nat)

def threadInterrupted (tid k : Nat) : Bool :=
  sys.controller tid
    && (decide ((s.threads tid).drainState = .notDraining) && (sys.answers tid k).signalled)

/-- The thread is asked for its interrupt. -/
def intrReady (tid k : Nat) : Bool := s.threadInterrupted sys tid k && s.isInbetweenInsts tid

/-- One turn of the `do` loop of `checkInterrupts`. -/
def checkInterruptsRound (scan : IntrScan) : IntrScan ⊕ IntrResult :=
  let interrupted := scan.interrupted || s.threadInterrupted sys scan.tid scan.again
  let examined := scan.examined ++ [(scan.tid, scan.again)]
  let ready := s.intrReady sys scan.tid scan.again
  if ready && (sys.answers scan.tid scan.again).fault then
    .inr ⟨some scan.tid, interrupted, scan.tid, examined⟩
  else
    let tid := if ready then scan.tid else (scan.tid + 1) % sys.numThreads
    if tid = interruptPriority then .inr ⟨none, interrupted, interruptPriority, examined⟩
    else .inl ⟨tid, if ready then scan.again + 1 else 0, interrupted, examined⟩

/-- `checkInterrupts` ends with the result. -/
def ChecksInterrupts (result : IntrResult) : Prop :=
  Returns (s.checkInterruptsRound sys interruptPriority) { tid := interruptPriority } result

end Execute

section Looks

variable {sys : IntrSystem} {s : Execute} {interruptPriority : Nat}

namespace Execute

/-- An interrupt can be taken. -/
def IntrTaken (sys : IntrSystem) (s : Execute) (tid k : Nat) : Prop :=
  s.intrReady sys tid k = true ∧ (sys.answers tid k).fault = true

/-- An interrupt is signalled and the thread is asked for it, but there is none. -/
def IntrRefused (sys : IntrSystem) (s : Execute) (tid k : Nat) : Prop :=
  s.intrReady sys tid k = true ∧ (sys.answers tid k).fault = false

theorem look_cases (sys : IntrSystem) (s : Execute) (tid k : Nat) :
    s.IntrTaken sys tid k ∨ s.IntrRefused sys tid k ∨ s.intrReady sys tid k = false := by
  unfold IntrTaken IntrRefused
  cases s.intrReady sys tid k <;> cases (sys.answers tid k).fault <;> simp

variable (scan : IntrScan)

theorem round_taken (taken : s.IntrTaken sys scan.tid scan.again) :
    s.checkInterruptsRound sys interruptPriority scan
      = .inr ⟨some scan.tid, scan.interrupted || s.threadInterrupted sys scan.tid scan.again,
          scan.tid, scan.examined ++ [(scan.tid, scan.again)]⟩ := by
  simp [checkInterruptsRound, taken.1, taken.2]

theorem round_refused (refused : s.IntrRefused sys scan.tid scan.again) :
    s.checkInterruptsRound sys interruptPriority scan
      = if scan.tid = interruptPriority then
          .inr ⟨none, scan.interrupted || s.threadInterrupted sys scan.tid scan.again,
            interruptPriority, scan.examined ++ [(scan.tid, scan.again)]⟩
        else
          .inl ⟨scan.tid, scan.again + 1,
            scan.interrupted || s.threadInterrupted sys scan.tid scan.again,
            scan.examined ++ [(scan.tid, scan.again)]⟩ := by
  simp [checkInterruptsRound, refused.1, refused.2]

theorem round_quiet (quiet : s.intrReady sys scan.tid scan.again = false) :
    s.checkInterruptsRound sys interruptPriority scan
      = if (scan.tid + 1) % sys.numThreads = interruptPriority then
          .inr ⟨none, scan.interrupted || s.threadInterrupted sys scan.tid scan.again,
            interruptPriority, scan.examined ++ [(scan.tid, scan.again)]⟩
        else
          .inl ⟨(scan.tid + 1) % sys.numThreads, 0,
            scan.interrupted || s.threadInterrupted sys scan.tid scan.again,
            scan.examined ++ [(scan.tid, scan.again)]⟩ := by
  simp [checkInterruptsRound, quiet]

end Execute

end Looks

/-- The thread that the scan comes to after `i` others. -/
def IntrSystem.turn (sys : IntrSystem) (interruptPriority i : Nat) : Nat :=
  (interruptPriority + i) % sys.numThreads

/-- Every thread was examined, and none could take an interrupt. -/
structure Covers (sys : IntrSystem) (s : Execute) (examined : List (Nat × Nat)) : Prop where
  all : ∀ tid, tid < sys.numThreads → ∃ k, (tid, k) ∈ examined
  clean : ∀ tid k, (tid, k) ∈ examined → ¬s.IntrTaken sys tid k

/-- `checkInterrupts` ends, and has covered all threads if it returns none. -/
def ScanEnds (sys : IntrSystem) (s : Execute) (interruptPriority : Nat) : Prop :=
  ∃ result, s.ChecksInterrupts sys interruptPriority result ∧
    (result.tid = none → Covers sys s result.examined)

/-- The scan goes past the thread: when it is not refused an interrupt, it has none. -/
def PassesThread (sys : IntrSystem) (s : Execute) (tid : Nat) : Prop :=
  ∃ k, (∀ j, j < k → s.IntrRefused sys tid j) ∧ s.intrReady sys tid k = false

/-- The scan is about to look at the thread after `i` others, which it has covered. -/
structure Arrived (sys : IntrSystem) (s : Execute) (interruptPriority i : Nat)
    (scan : IntrScan) : Prop where
  tid : scan.tid = sys.turn interruptPriority i
  again : scan.again = 0
  before : ∀ j, j < i → ∃ k, (sys.turn interruptPriority j, k) ∈ scan.examined
  clean : ∀ tid k, (tid, k) ∈ scan.examined → ¬s.IntrTaken sys tid k

/-- The scan has done with the thread after `i` others: it arrives at the next one, or ends. -/
structure Leaves (sys : IntrSystem) (s : Execute) (interruptPriority i : Nat)
    (scan : IntrScan) : Prop where
  next : i + 1 < sys.numThreads → ∃ scan', Arrived sys s interruptPriority (i + 1) scan'
    ∧ ∀ r, Returns (s.checkInterruptsRound sys interruptPriority) scan r
      ↔ Returns (s.checkInterruptsRound sys interruptPriority) scan' r
  last : i + 1 = sys.numThreads → ∃ r,
    Returns (s.checkInterruptsRound sys interruptPriority) scan r
      ∧ (r.tid = none → Covers sys s r.examined)

section Around

variable {sys : IntrSystem} {s : Execute} {interruptPriority : Nat}

theorem turn_zero (valid : interruptPriority < sys.numThreads) :
    sys.turn interruptPriority 0 = interruptPriority := Nat.mod_eq_of_lt valid

theorem turn_succ (i : Nat) :
    (sys.turn interruptPriority i + 1) % sys.numThreads = sys.turn interruptPriority (i + 1) := by
  rw [IntrSystem.turn, Nat.mod_add_mod]
  rfl

theorem turn_last (valid : interruptPriority < sys.numThreads) :
    sys.turn interruptPriority sys.numThreads = interruptPriority := by
  rw [IntrSystem.turn, Nat.add_mod_right]
  exact Nat.mod_eq_of_lt valid

theorem turn_ne (valid : interruptPriority < sys.numThreads) {i : Nat} (later : 0 < i)
    (inside : i < sys.numThreads) : sys.turn interruptPriority i ≠ interruptPriority := by
  unfold IntrSystem.turn
  by_cases wraps : interruptPriority + i < sys.numThreads
  · rw [Nat.mod_eq_of_lt wraps]
    omega
  · rw [Nat.mod_eq_sub_mod (by omega), Nat.mod_eq_of_lt (by omega)]
    omega

theorem turn_comes (valid : interruptPriority < sys.numThreads) {tid : Nat}
    (known : tid < sys.numThreads) :
    ∃ i, i < sys.numThreads ∧ sys.turn interruptPriority i = tid := by
  unfold IntrSystem.turn
  by_cases after : interruptPriority ≤ tid
  · refine ⟨tid - interruptPriority, by omega, ?_⟩
    rw [Nat.add_sub_cancel' after]
    exact Nat.mod_eq_of_lt known
  · refine ⟨tid + sys.numThreads - interruptPriority, by omega, ?_⟩
    rw [Nat.add_sub_cancel' (by omega), Nat.add_mod_right]
    exact Nat.mod_eq_of_lt known

theorem looks_again {scan : IntrScan} {tid k : Nat} (here : scan.tid = tid) (first : scan.again = 0)
    (other : tid ≠ interruptPriority) (refused : ∀ j, j < k → s.IntrRefused sys tid j) :
    ∃ scan' : IntrScan, scan'.tid = tid ∧ scan'.again = k
      ∧ (∀ look, look ∈ scan.examined → look ∈ scan'.examined)
      ∧ (∀ t j, (t, j) ∈ scan'.examined → (t, j) ∈ scan.examined ∨ s.IntrRefused sys t j)
      ∧ ∀ r, Returns (s.checkInterruptsRound sys interruptPriority) scan r
          ↔ Returns (s.checkInterruptsRound sys interruptPriority) scan' r := by
  induction k with
  | zero => exact ⟨scan, here, first, fun _ mem => mem, fun _ _ mem => .inl mem, fun _ => Iff.rfl⟩
  | succ k ih =>
    obtain ⟨mid, hereMid, again, kept, looks, same⟩ :=
      ih fun j lt => refused j (Nat.lt_succ_of_lt lt)
    have turned : s.IntrRefused sys mid.tid mid.again := by grind
    have goes := @Execute.round_refused sys s interruptPriority mid turned
    rw [if_neg (hereMid ▸ other)] at goes
    refine ⟨⟨mid.tid, mid.again + 1, mid.interrupted || s.threadInterrupted sys mid.tid mid.again,
      mid.examined ++ [(mid.tid, mid.again)]⟩, hereMid, congrArg (· + 1) again,
      fun look mem => ?_, fun t j mem => ?_,
      fun r => (same r).trans (Loops.returns_continue_iff goes)⟩
    · exact mem_append_left _ (kept look mem)
    · grind

theorem covered_after {i : Nat} {examined : List (Nat × Nat)} {k : Nat}
    (before : ∀ j, j < i → ∃ k, (sys.turn interruptPriority j, k) ∈ examined) :
    ∀ j, j < i + 1 → ∃ l, (sys.turn interruptPriority j, l)
      ∈ examined ++ [(sys.turn interruptPriority i, k)] := by
  intro j lt
  rcases Nat.lt_succ_iff_lt_or_eq.mp lt with earlier | rfl
  · grind
  · exact ⟨k, mem_append_right _ (List.mem_singleton.mpr rfl)⟩

theorem Covers.of_turns (valid : interruptPriority < sys.numThreads) {examined : List (Nat × Nat)}
    (before : ∀ j, j < sys.numThreads → ∃ k, (sys.turn interruptPriority j, k) ∈ examined)
    (clean : ∀ tid k, (tid, k) ∈ examined → ¬s.IntrTaken sys tid k) : Covers sys s examined := by
  refine ⟨fun tid known => ?_, clean⟩
  obtain ⟨i, inside, rfl⟩ := turn_comes valid known
  exact before i inside

/-- From a thread that has no interrupt, the scan goes on to the next thread, or ends when
that is the first. -/
theorem leaves {i : Nat} (valid : interruptPriority < sys.numThreads) {scan : IntrScan}
    (here : scan.tid = sys.turn interruptPriority i)
    (before : ∀ j, j < i → ∃ k, (sys.turn interruptPriority j, k) ∈ scan.examined)
    (clean : ∀ tid k, (tid, k) ∈ scan.examined → ¬s.IntrTaken sys tid k)
    (quiet : s.intrReady sys scan.tid scan.again = false) :
    Leaves sys s interruptPriority i scan := by
  have covered := @covered_after sys interruptPriority i scan.examined scan.again before
  rw [← here] at covered
  have cleanAfter : ∀ tid k, (tid, k) ∈ scan.examined ++ [(scan.tid, scan.again)] →
      ¬s.IntrTaken sys tid k := by
    intro tid k mem
    rcases List.mem_append.mp mem with old | new
    · exact clean tid k old
    · cases List.mem_singleton.mp new
      exact fun taken => Bool.false_ne_true (quiet.symm.trans taken.1)
  have goes := @Execute.round_quiet sys s interruptPriority scan quiet
  rw [here, turn_succ, ← here] at goes
  constructor
  · intro more
    rw [if_neg (turn_ne valid (Nat.succ_pos i) more)] at goes
    exact ⟨_, ⟨rfl, rfl, covered, cleanAfter⟩, fun r => Loops.returns_continue_iff goes⟩
  · intro last
    rw [last, turn_last valid, if_pos rfl] at goes
    refine ⟨_, Loops.returns_of_exit goes, fun _ => .of_turns valid ?_ cleanAfter⟩
    rw [← last]
    exact covered

theorem Arrived.leaves {i : Nat} (valid : interruptPriority < sys.numThreads) {scan : IntrScan}
    (arrived : Arrived sys s interruptPriority i scan) (later : 0 < i) (inside : i < sys.numThreads)
    (passes : PassesThread sys s (sys.turn interruptPriority i)) :
    Leaves sys s interruptPriority i scan := by
  obtain ⟨k, refused, quiet⟩ := passes
  obtain ⟨scan', here, again, kept, looks, same⟩ :=
    looks_again arrived.tid arrived.again (turn_ne valid later inside) refused
  rw [← here, ← again] at quiet
  have left := Gem5.Minor.leaves valid here
    (fun j lt => (arrived.before j lt).imp fun l mem => kept _ mem)
    (fun tid l mem taken => by
      rcases looks tid l mem with old | refused
      · exact arrived.clean tid l old taken
      · exact Bool.false_ne_true (refused.2.symm.trans taken.2))
    quiet
  constructor
  · intro more
    obtain ⟨next, arrived, goes⟩ := left.next more
    exact ⟨next, arrived, fun r => (same r).trans (goes r)⟩
  · intro last
    obtain ⟨r, ends, covers⟩ := left.last last
    exact ⟨r, (same r).mpr ends, covers⟩

theorem Arrived.stuck {i : Nat} (valid : interruptPriority < sys.numThreads) {scan : IntrScan}
    (arrived : Arrived sys s interruptPriority i scan) (later : 0 < i) (inside : i < sys.numThreads)
    (refused : ∀ k, s.IntrRefused sys (sys.turn interruptPriority i) k) (r : IntrResult) :
    ¬Returns (s.checkInterruptsRound sys interruptPriority) scan r := by
  refine Loops.not_returns_of_invariant (I := fun scan => scan.tid = sys.turn interruptPriority i)
    arrived.tid fun scan here => ?_
  have turned : s.IntrRefused sys scan.tid scan.again := here ▸ refused scan.again
  have goes := @Execute.round_refused sys s interruptPriority scan turned
  rw [if_neg (here ▸ turn_ne valid later inside)] at goes
  exact ⟨_, goes, here⟩

theorem Arrived.taken {i k : Nat} (valid : interruptPriority < sys.numThreads) {scan : IntrScan}
    (arrived : Arrived sys s interruptPriority i scan) (later : 0 < i) (inside : i < sys.numThreads)
    (refused : ∀ j, j < k → s.IntrRefused sys (sys.turn interruptPriority i) j)
    (taken : s.IntrTaken sys (sys.turn interruptPriority i) k) :
    ∃ r, Returns (s.checkInterruptsRound sys interruptPriority) scan r ∧ r.tid ≠ none := by
  obtain ⟨scan', here, again, -, -, same⟩ :=
    looks_again arrived.tid arrived.again (turn_ne valid later inside) refused
  rw [← here, ← again] at taken
  have ends := @Execute.round_taken sys s interruptPriority scan' taken
  exact ⟨_, (same _).mpr (Loops.returns_of_exit ends), some_ne_none _⟩

theorem first_look {tid : Nat} (settles : ∃ k, ¬s.IntrRefused sys tid k) :
    PassesThread sys s tid
      ∨ ∃ k, (∀ j, j < k → s.IntrRefused sys tid j) ∧ s.IntrTaken sys tid k := by
  classical
  have first := Nat.find_spec settles
  have before : ∀ j, j < Nat.find settles → s.IntrRefused sys tid j :=
    fun j lt => not_not.mp (Nat.find_min settles lt)
  rcases Execute.look_cases sys s tid (Nat.find settles) with taken | refused | quiet
  · exact .inr ⟨_, before, taken⟩
  · exact absurd refused first
  · exact .inl ⟨_, before, quiet⟩

theorem Arrived.ends (valid : interruptPriority < sys.numThreads) {i : Nat} {scan : IntrScan}
    (arrived : Arrived sys s interruptPriority i scan) (later : 0 < i) (inside : i < sys.numThreads)
    (settles : ∀ l, i ≤ l → l < sys.numThreads → (∀ j, i ≤ j → j < l → PassesThread sys s (sys.turn
    interruptPriority j)) → ∃ k, ¬s.IntrRefused sys (sys.turn interruptPriority l) k) :
    ∃ r, Returns (s.checkInterruptsRound sys interruptPriority) scan r
      ∧ (r.tid = none → Covers sys s r.examined) := by
  have here := settles i le_rfl inside fun j low high => absurd high (Nat.not_lt.mpr low)
  rcases first_look here with passes | ⟨k, refused, taken⟩
  · have left := arrived.leaves valid later inside passes
    rcases Nat.eq_or_lt_of_le (Nat.succ_le_of_lt inside) with last | more
    · exact left.last last
    · obtain ⟨scan', arrived', same⟩ := left.next more
      obtain ⟨r, ends, covers⟩ := arrived'.ends valid (Nat.succ_pos i) more
        fun l low high before => settles l (Nat.le_of_succ_le low) high fun j lowj highj => by
          rcases Nat.eq_or_lt_of_le lowj with rfl | above
          · exact passes
          · exact before j above highj
      exact ⟨r, (same r).mpr ends, covers⟩
  · obtain ⟨r, ends, some⟩ := arrived.taken valid later inside refused taken
    exact ⟨r, ends, fun none => absurd none some⟩
termination_by sys.numThreads - i

theorem refused_first (refused : s.IntrRefused sys interruptPriority 0) (r : IntrResult) :
    s.ChecksInterrupts sys interruptPriority r ↔
      r = ⟨none, s.threadInterrupted sys interruptPriority 0, interruptPriority,
        [(interruptPriority, 0)]⟩ := by
  have exit := @Execute.round_refused sys s interruptPriority { tid := interruptPriority } refused
  rw [if_pos rfl] at exit
  exact Loops.returns_exit_iff exit

theorem taken_first (taken : s.IntrTaken sys interruptPriority 0) :
    ∃ r, s.ChecksInterrupts sys interruptPriority r ∧ r.tid ≠ none := by
  have exit := @Execute.round_taken sys s interruptPriority { tid := interruptPriority } taken
  exact ⟨_, Loops.returns_of_exit exit, some_ne_none _⟩

theorem quiet_first (valid : interruptPriority < sys.numThreads)
    (quiet : s.intrReady sys interruptPriority 0 = false) :
    Leaves sys s interruptPriority 0 { tid := interruptPriority } :=
  leaves valid (turn_zero valid).symm (fun j lt => absurd lt (Nat.not_lt_zero j))
    (fun _ _ mem => absurd mem not_mem_nil) quiet

theorem arrives (valid : interruptPriority < sys.numThreads) {i : Nat} (later : 0 < i)
    (inside : i < sys.numThreads) (quiet : s.intrReady sys interruptPriority 0 = false)
    (before : ∀ j, 0 < j → j < i → PassesThread sys s (sys.turn interruptPriority j)) :
    ∃ scan, Arrived sys s interruptPriority i scan ∧ ∀ r,
      s.ChecksInterrupts sys interruptPriority r ↔
        Returns (s.checkInterruptsRound sys interruptPriority) scan r := by
  induction i with
  | zero => exact absurd later (Nat.lt_irrefl 0)
  | succ i ih =>
    rcases Nat.eq_zero_or_pos i with rfl | more
    · exact (quiet_first valid quiet).next inside
    · obtain ⟨scan, arrived, same⟩ :=
        ih more (Nat.lt_of_succ_lt inside) fun j low high => before j low (Nat.lt_succ_of_lt high)
      have left := arrived.leaves valid more (Nat.lt_of_succ_lt inside)
        (before i more (Nat.lt_succ_self i))
      obtain ⟨scan', arrived', goes⟩ := left.next inside
      exact ⟨scan', arrived', fun r => (same r).trans (goes r)⟩

theorem covers_single (single : sys.numThreads = 1) (valid : interruptPriority < sys.numThreads)
    (refused : s.IntrRefused sys interruptPriority 0) : Covers sys s [(interruptPriority, 0)] := by
  refine ⟨fun tid known => ⟨0, ?_⟩, fun tid k mem taken => ?_⟩
  · rw [List.mem_singleton, Prod.mk.injEq]
    omega
  · cases List.mem_singleton.mp mem
    exact Bool.false_ne_true (refused.2.symm.trans taken.2)

end Around

/-- The first thread is not refused an interrupt at once, and each thread that the scan gets
to is not refused its interrupt for ever. -/
structure NotHeldUp (sys : IntrSystem) (s : Execute) (interruptPriority : Nat) : Prop where
  first : ¬s.IntrRefused sys interruptPriority 0
  others : s.intrReady sys interruptPriority 0 = false → ∀ i, 0 < i → i < sys.numThreads →
    (∀ j, 0 < j → j < i → PassesThread sys s (sys.turn interruptPriority j)) →
      ∃ k, ¬s.IntrRefused sys (sys.turn interruptPriority i) k

/-- A scan ends and covers the threads unless it is held up; one thread alone cannot hold it
up. -/
theorem scanEnds_iff {sys : IntrSystem} {s : Execute} {interruptPriority : Nat}
    (valid : interruptPriority < sys.numThreads) :
    ScanEnds sys s interruptPriority ↔
      sys.numThreads = 1 ∨ NotHeldUp sys s interruptPriority := by
  constructor
  · rintro ⟨r, ends, covers⟩
    rw [or_iff_not_imp_left]
    intro several
    have more : 1 < sys.numThreads := by omega
    constructor
    · intro refused
      have exit := (refused_first refused r).mp ends
      obtain ⟨k, mem⟩ := (covers (congrArg IntrResult.tid exit)).all
        (sys.turn interruptPriority 1) (Nat.mod_lt _ (by omega))
      rw [exit, List.mem_singleton, Prod.mk.injEq] at mem
      exact turn_ne valid Nat.one_pos more mem.1
    · intro quiet i later inside before
      obtain ⟨scan, arrived, same⟩ := arrives valid later inside quiet before
      by_contra held
      exact arrived.stuck valid later inside (fun k => not_not.mp (not_exists.mp held k)) r
        ((same r).mp ends)
  · intro cond
    rcases Execute.look_cases sys s interruptPriority 0 with taken | refused | quiet
    · obtain ⟨r, ends, some⟩ := taken_first taken
      exact ⟨r, ends, fun none => absurd none some⟩
    · have single : sys.numThreads = 1 := cond.resolve_right fun free => free.first refused
      exact ⟨_, (refused_first refused _).mpr rfl, fun _ => covers_single single valid refused⟩
    · have left := quiet_first valid quiet
      rcases cond with single | free
      · exact left.last single.symm
      · rcases Nat.eq_or_lt_of_le (Nat.succ_le_of_lt (Nat.zero_lt_of_lt valid)) with
          single | more
        · exact left.last single
        · obtain ⟨scan, arrived, same⟩ := left.next more
          obtain ⟨r, ends, covers⟩ := arrived.ends valid Nat.one_pos more
            fun l low high before => free.others quiet l low high before
          exact ⟨r, (same r).mpr ends, covers⟩

/-- The second of two threads is signalled an interrupt that its controller does not give. -/
def maskedSystem : IntrSystem where
  numThreads := 2
  controller := fun _ => true
  answers := fun tid _ => ⟨tid == 1, false⟩

theorem scanEnds_iff_masked :
    ScanEnds maskedSystem { funcUnits := [] } 1 ↔
      maskedSystem.numThreads = 1 ∨ NotHeldUp maskedSystem { funcUnits := [] } 1 :=
  scanEnds_iff (by decide)

/-- The scan stays at the second thread. -/
theorem scan_held_up : ¬ScanEnds maskedSystem { funcUnits := [] } 0 := by
  rintro ⟨r, ends, -⟩
  have valid : 0 < maskedSystem.numThreads := by decide
  have inside : 1 < maskedSystem.numThreads := by decide
  obtain ⟨scan, arrived, same⟩ :=
    arrives (s := { funcUnits := [] }) valid Nat.one_pos inside (by decide)
      fun j low high => by omega
  exact arrived.stuck valid Nat.one_pos inside (fun _ => ⟨rfl, rfl⟩) r ((same r).mp ends)

end Gem5.Minor
