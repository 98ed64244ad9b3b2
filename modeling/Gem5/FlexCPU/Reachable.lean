import Gem5.FlexCPU.DecomposeCalls

/-!
# Properties of all runs

A property of a fresh thread that moves and panics keep holds after every run. A
guard restricts the runs to those whose steps satisfy it, and the moves of a step
may use it.
-/

namespace Gem5.FlexCPU

open Thread

variable {cfg : Config} {tc : ThreadContext} {t : Thread}

theorem Core.init (cfg : Config) (tc : ThreadContext) : Core cfg (Thread.init cfg tc) where
  heap :=
    { ordered := List.Pairwise.nil
      bounded := by simp [Thread.init]
      fresh := fun _ _ => rfl
      allocated := fun _ lt => absurd lt (Nat.not_lt_zero _)
      requests_lt := by simp [Thread.init]
      calls_lt := by simp [Thread.init]
      callbacks_lt := by simp [Thread.init]
      parents_lt := by simp [Thread.init]
      newest := by simp [Thread.init] }
  callbacks :=
    { registered := fun _ _ _ _ => rfl
      plain := by simp [Thread.init]
      effAddr := by simp [Thread.init]
      overlapFirst := fun _ => trivial
      ready := fun _ _ => Or.inl rfl
      mem_kind := by simp [Thread.init]
      exec_kind := by simp [Thread.init]
      surplus_le := fun _ => Nat.zero_le 1 }
  counters := by
    rintro c (mem | ⟨r, mem, -⟩)
    · simp [Thread.init] at mem
    · simp [Thread.init] at mem
  milestones :=
    { fired_le := fun _ _ => Nat.zero_le _
      fired_zero := fun _ _ _ _ _ => rfl
      committed_iff := by simp [Thread.init]
      left := fun _ lt => absurd lt (Nat.not_lt_zero _)
      unissued := fun _ _ => ⟨fun _ => rfl, rfl⟩
      decoded := fun _ => by simp [Thread.init, Status.le_iff, Status.rank] }
  tokens :=
    { single := fun _ _ => Nat.zero_le 1
      request_fits := by simp [Thread.init]
      call_fits := by simp [Thread.init]
      waiting_exec := by simp [Thread.init]
      waiting_mem := by simp [Thread.init] }
  stack :=
    { above := List.Pairwise.nil
      needs := trivial
      protects := by simp [Thread.init]
      resolving := by simp [Thread.init] }
  buffer :=
    { issued := by simp [Thread.init]
      squashed := by simp [Thread.init]
      size := by simp [Thread.init]
      numbered := by simp [Thread.init]
      active := fun _ => rfl
      popping := by simp [Thread.init]
      uncommitted := by simp [Thread.init] }
  control :=
    { followed := by simp [Thread.init]
      asked := by simp [Thread.init]
      predicted := by simp [Thread.init, Predicted]
      squashCallbacks := by simp [Thread.init]
      waiting := by simp [Thread.init]
      retrying := by simp [Thread.init] }
  stores := by simp [Thread.init, Stores]
  lasts :=
    { serializing := by simp [Thread.init]
      barrier := by simp [Thread.init]
      uses := by simp [Thread.init] }
  noMacroOp := rfl

theorem Inv.init (cfg : Config) (tc : ThreadContext) : Inv cfg (Thread.init cfg tc) where
  toCore := Core.init cfg tc
  faults := by simp [Thread.init, Faults]
  writes := by simp [Thread.init, Writes]
  settled := by simp [Thread.init, Settled]

/-- The states that runs with guarded steps reach. -/
abbrev Guarded (cfg : Config) (tc : ThreadContext) (guard : Thread → Event → Prop) :
    Thread → Prop :=
  Runs.Reaches (Thread.step cfg) guard (Thread.init cfg tc)

variable {guard : Thread → Event → Prop}

theorem Guarded.inv (run : Guarded cfg tc guard t) : Inv cfg t :=
  Runs.Reaches.invariant run (Inv.init cfg tc) fun _ e inv _ => inv.stepped e

/-- What holds in a state of the invariant and is kept by panics and by the moves of
guarded steps holds after every guarded run from there. -/
theorem Inv.invariant {P : Thread → Prop} {start : Thread} (inv : Inv cfg start)
    (run : Runs.Reaches (Thread.step cfg) guard start t) (holds : P start)
    (fail : ∀ t p, P t → P (t.fail p))
    (move : ∀ o e t t', Inv cfg o → P o → guard o e → Inv cfg t → P t → Move cfg o e t t' → P t') :
    P t := by
  have both : Inv cfg t ∧ P t := by
    refine Runs.Reaches.invariant (P := fun t => Inv cfg t ∧ P t) run ⟨inv, holds⟩ ?_
    rintro o e ⟨inv, holds⟩ ok
    refine ⟨inv.stepped e, ?_⟩
    rcases inv.step e with ⟨p, eq, -⟩ | moves
    · rw [eq]
      exact fail o p holds
    · have along : ∀ u, Moves cfg o e o u → Inv cfg u ∧ P u := by
        intro u moves
        induction moves with
        | refl => exact ⟨inv, holds⟩
        | tail _ last ih => exact ⟨ih.1.move last, move o e _ _ inv holds ok ih.1 ih.2 last⟩
      exact (along _ moves).2
  exact both.2

theorem Guarded.invariant {P : Thread → Prop} (run : Guarded cfg tc guard t)
    (start : P (Thread.init cfg tc)) (fail : ∀ t p, P t → P (t.fail p))
    (move : ∀ o e t t', Inv cfg o → P o → guard o e → Inv cfg t → P t → Move cfg o e t t' → P t') :
    P t :=
  (Inv.init cfg tc).invariant run start fail move

/-- The state after the given events. -/
def Thread.play (cfg : Config) (tc : ThreadContext) (events : List Event) : Thread :=
  Runs.run (Thread.step cfg) (Thread.init cfg tc) events

theorem Thread.reachable_play (cfg : Config) (tc : ThreadContext) (events : List Event) :
    Reachable cfg tc (Thread.play cfg tc events) := Runs.reaches_run ..

theorem Guarded.play {guard : Thread → Event → Bool} {events : List Event}
    (pass : Runs.offered (Thread.step cfg) guard (Thread.init cfg tc) events = true) :
    Guarded cfg tc (fun o e => guard o e = true) (Thread.play cfg tc events) :=
  Runs.reaches_offered pass

section Samples

/-- A configuration for concrete runs. -/
def Config.sample (decodeInst : ExtMachInst → StaticInst) : Config where
  inOrderBeginExecute := false
  inOrderExecute := false
  strictSerialize := false
  hasBranchPredictor := false
  inflightInstsMaxSize := 0
  branchPredMaxDepth := 1
  fetchBufSize := 64
  cacheLineSize := 64
  decodeInst := decodeInst
  fetchMicroop := fun macroOp _ => macroOp
  invoke := fun _ _ tc => tc

/-- A suspended context that will start at `0x1000`. -/
def ThreadContext.boot : ThreadContext := ⟨.suspended, .ofAddr 0x1000, fun _ => 0⟩

/-- An activation has no effect on an active thread, so it passes the time until the
pending calls are done. -/
def Event.ticks (n : Nat) : List Event := List.replicate n .activate

/-- Serve request `k` and let `n` calls run. -/
def Event.served (ans : Answer) (k n : Nat) : List Event := .serve k ans :: ticks n

/-- From the activation to the request to issue the first instruction. -/
def Event.firstFetch (ans : Answer) : List Event :=
  ticks 2 ++ served ans 0 0 ++ served ans 0 0 ++ served ans 0 2

end Samples

end Gem5.FlexCPU
