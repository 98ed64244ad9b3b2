import Gem5.FlexCPU.Moves

/-!
# Frame lemmas

Each group of the invariant reads a few fields of the instruction objects. A
change that keeps these fields keeps the group.
-/

namespace Gem5.FlexCPU

variable {x : InflightInst} {g : Gate} {c : InstId}

theorem keep {β : Sort*} (φ : InflightInst → β) {s : Insts} {i : InstId}
    (same : φ x = φ (s i)) (j : InstId) : φ (Function.update s i x j) = φ (s j) := by
  by_cases at_i : j = i
  · subst at_i
    simpa using same
  · simp [at_i]

section Views

variable {insts insts' : Insts} {calls calls' : List Call}

theorem due_congr (deps : (insts' c).deps = (insts c).deps)
    (fired : ∀ j, (insts' j).fired = (insts j).fired) : due insts' g c = due insts g c := by
  simp [due, deps, fired]

theorem owed_congr (deps : (insts' c).deps = (insts c).deps)
    (fired : ∀ j, (insts' j).fired = (insts j).fired)
    (count : calls'.count (.run (.decrement g c)) = calls.count (.run (.decrement g c))) :
    owed insts' calls' g c = owed insts calls g c := by
  simp [owed, due_congr deps fired, count]

theorem surplus_congr (deps : (insts' c).deps = (insts c).deps) :
    surplus insts' g c = surplus insts g c := by
  simp [surplus, deps]

end Views

section Groups

variable {insts insts' : Insts} {buf : List InstId} {reqs : List Request}
  {calls calls' : List Call} {next : InstId}

theorem Heap.congr (h : Heap insts buf reqs calls next)
    (status : ∀ j, (insts' j).status = (insts j).status)
    (callbacks : ∀ j, (insts' j).callbacks = (insts j).callbacks)
    (deps : ∀ j, (insts' j).deps = (insts j).deps)
    (fresh : ∀ j, next ≤ j → insts' j = insts j) : Heap insts' buf reqs calls next where
  ordered := h.ordered
  bounded := h.bounded
  fresh j old := (fresh j old).trans (h.fresh j old)
  allocated j new := by simpa only [status] using h.allocated j new
  requests_lt := h.requests_lt
  calls_lt := h.calls_lt
  callbacks_lt p m := by simpa only [callbacks] using h.callbacks_lt p m
  parents_lt c g := by simpa only [deps] using h.parents_lt c g
  newest i mem := by simpa only [status] using h.newest i mem

theorem Callbacks.withReady (h : Callbacks insts)
    (callbacks : ∀ j, (insts' j).callbacks = (insts j).callbacks)
    (deps : ∀ j, (insts' j).deps = (insts j).deps)
    (ready : ∀ i g, (insts' i).onReady g = [] ∨ (insts' i).onReady g = [readyCallback g i]) :
    Callbacks insts' where
  registered := by simpa only [callbacks, deps] using h.registered
  plain := by simpa only [callbacks] using h.plain
  effAddr := by simpa only [callbacks] using h.effAddr
  overlapFirst := by simpa only [callbacks] using h.overlapFirst
  ready := ready
  mem_kind := by simpa only [deps] using h.mem_kind
  exec_kind := by simpa only [deps] using h.exec_kind
  surplus_le c := by simpa only [surplus, deps] using h.surplus_le c

theorem Callbacks.congr (h : Callbacks insts)
    (callbacks : ∀ j, (insts' j).callbacks = (insts j).callbacks)
    (deps : ∀ j, (insts' j).deps = (insts j).deps)
    (onReady : ∀ j, (insts' j).onReady = (insts j).onReady) : Callbacks insts' :=
  h.withReady callbacks deps (by simpa only [onReady] using h.ready)

theorem Exact.congr (h : Exact insts calls g c) (deps : (insts' c).deps = (insts c).deps)
    (remaining : (insts' c).remaining = (insts c).remaining)
    (fired : ∀ j, (insts' j).fired = (insts j).fired)
    (count : calls'.count (.run (.decrement g c)) = calls.count (.run (.decrement g c))) :
    Exact insts' calls' g c := by
  unfold Exact at h ⊢
  rwa [owed_congr deps fired count, surplus_congr deps, remaining]

theorem Counters.congr (h : Counters insts buf reqs calls)
    (squashed : ∀ j, (insts' j).squashed = (insts j).squashed)
    (deps : ∀ j, (insts' j).deps = (insts j).deps)
    (remaining : ∀ j, (insts' j).remaining = (insts j).remaining)
    (fired : ∀ j, (insts' j).fired = (insts j).fired)
    (count : ∀ g c, calls'.count (.run (.decrement g c)) = calls.count (.run (.decrement g c))) :
    Counters insts' buf reqs calls' :=
  fun c mem unsquashed g =>
    (h c mem (squashed c ▸ unsquashed) g).congr (deps c) (remaining c) fired (count g c)

theorem Counters.mono {buf' : List InstId} {reqs' : List Request}
    (h : Counters insts buf reqs calls)
    (fewer : ∀ c, Held buf' reqs' c → (insts c).squashed = false → Held buf reqs c) :
    Counters insts buf' reqs' calls :=
  fun c held unsquashed => h c (fewer c held unsquashed) unsquashed

theorem Milestones.congr (h : Milestones insts buf next)
    (squashed : ∀ j, (insts' j).squashed = (insts j).squashed)
    (status : ∀ j, (insts' j).status = (insts j).status)
    (fired : ∀ j, (insts' j).fired = (insts j).fired)
    (instRef : ∀ j, (insts' j).instRef = (insts j).instRef)
    (deps : ∀ j, (insts' j).deps = (insts j).deps) (squashCallbacks : ∀ j, (insts' j).status <
    .issued → (insts' j).squashCallbacks = (insts j).squashCallbacks) : Milestones insts' buf next  where
  fired_le := by simpa only [fired] using h.fired_le
  fired_zero := by simpa only [fired, squashed, status] using h.fired_zero
  committed_iff := by simpa only [fired, squashed, status] using h.committed_iff
  left := by
    simpa only [fired, squashed, status, InflightInst.staticInst, instRef] using h.left
  unissued i early := by
    have before := h.unissued i (by simpa only [status] using early)
    rw [squashCallbacks i early, deps i]
    exact before
  decoded := by simpa only [instRef, status] using h.decoded

theorem Request.Fits.congr {r : Request} {y : InflightInst} (h : r.Fits x)
    (status : y.status = x.status) (fired : y.fired = x.fired)
    (instRef : y.instRef = x.instRef) : r.Fits y := by
  cases r <;> simp only [Request.Fits, status, fired, InflightInst.staticInst, instRef] at h ⊢ <;>
    exact h

theorem Call.Fits.congr {c : Call} {y : InflightInst} (h : c.Fits x)
    (status : y.status = x.status) (fired : y.fired = x.fired)
    (instRef : y.instRef = x.instRef) (onReady : y.onReady = x.onReady) : c.Fits y := by
  unfold Call.Fits at h ⊢
  split at h <;> simp only [status, fired, InflightInst.staticInst, instRef, onReady] at h ⊢ <;>
    exact h

theorem Tokens.congr (h : Tokens insts reqs calls)
    (squashed : ∀ j, (insts' j).squashed = (insts j).squashed)
    (status : ∀ j, (insts' j).status = (insts j).status)
    (fired : ∀ j, (insts' j).fired = (insts j).fired)
    (instRef : ∀ j, (insts' j).instRef = (insts j).instRef)
    (deps : ∀ j, (insts' j).deps = (insts j).deps)
    (onReady : ∀ j, (insts' j).onReady = (insts j).onReady) : Tokens insts' reqs calls where
  single i := by simpa only [squashed] using h.single i
  request_fits r mem unsquashed :=
    (h.request_fits r mem (by simpa only [squashed] using unsquashed)).congr
      (status _) (fired _) (instRef _)
  call_fits c mem i inst unsquashed :=
    (h.call_fits c mem i inst (by simpa only [squashed] using unsquashed)).congr
      (status _) (fired _) (instRef _) (onReady _)
  waiting_exec i := by
    rw [owed_congr (deps i) fired rfl, surplus_congr (deps i), squashed, status, onReady]
    exact h.waiting_exec i
  waiting_mem i := by
    have kind : (insts' i).staticInst = (insts i).staticInst := by
      simp [InflightInst.staticInst, instRef]
    rw [owed_congr (deps i) fired rfl, squashed, status, onReady, kind]
    exact h.waiting_mem i

theorem Stack.congr (h : Stack insts buf calls)
    (squashed : ∀ j, (insts' j).squashed = (insts j).squashed)
    (status : ∀ j, (insts' j).status = (insts j).status)
    (instRef : ∀ j, (insts' j).instRef = (insts j).instRef) : Stack insts' buf calls where
  above := h.above
  needs := h.needs
  protects := by simpa only [squashed] using h.protects
  resolving := by
    simpa only [status, InflightInst.staticInst, instRef] using h.resolving

theorem Buffer.congr {lastCommitted max : Nat} {tcStatus : TCStatus}
    (h : Buffer insts buf calls lastCommitted max tcStatus)
    (squashed : ∀ j, (insts' j).squashed = (insts j).squashed)
    (status : ∀ j, (insts' j).status = (insts j).status)
    (fault : ∀ j, (insts' j).fault = (insts j).fault)
    (seqNum : ∀ j, (insts' j).seqNum = (insts j).seqNum)
    (fired : ∀ j, (insts' j).fired .commit = (insts j).fired .commit)
    (pop : Call.commitPop ∈ calls' ↔ Call.commitPop ∈ calls) :
    Buffer insts' buf calls' lastCommitted max tcStatus where
  issued := by simpa only [status] using h.issued
  squashed := by simpa only [squashed, fault, fired] using h.squashed
  size := h.size
  numbered := by simpa only [seqNum, pop] using h.numbered
  active := h.active
  popping := by simpa only [fired, pop] using h.popping
  uncommitted := by simpa only [fired] using h.uncommitted

theorem Control.congr {retry hasPredictor : Bool} {unpredicted : Option InstId}
    (h : Control insts buf reqs calls retry unpredicted hasPredictor)
    (squashed : ∀ j, (insts' j).squashed = (insts j).squashed)
    (status : ∀ j, (insts' j).status = (insts j).status)
    (instRef : ∀ j, (insts' j).instRef = (insts j).instRef)
    (squashCallbacks : ∀ j, (insts' j).squashCallbacks = (insts j).squashCallbacks)
    (resolve : ∀ i, Call.resolveControl i ∈ calls' → Call.resolveControl i ∈ calls) :
    Control insts' buf reqs calls' retry unpredicted hasPredictor where
  followed i mem unsquashed control issued pending := by
    simp only [squashed, status, InflightInst.staticInst, instRef, Predicted, squashCallbacks]
      at unsquashed control issued pending ⊢
    exact h.followed i mem unsquashed control issued (pending.imp_right (resolve i))
  asked := by
    simpa only [squashed, status, InflightInst.staticInst, instRef, Predicted, squashCallbacks]
      using h.asked
  predicted := by simpa only [Predicted, squashCallbacks] using h.predicted
  squashCallbacks := by simpa only [squashCallbacks] using h.squashCallbacks
  waiting := by
    simpa only [squashed, status, InflightInst.staticInst, instRef, Predicted, squashCallbacks]
      using h.waiting
  retrying := by simpa only [squashed, status] using h.retrying

theorem Stores.congr (h : Stores insts buf)
    (squashed : ∀ j, (insts' j).squashed = (insts j).squashed)
    (status : ∀ j, (insts' j).status = (insts j).status)
    (instRef : ∀ j, (insts' j).instRef = (insts j).instRef)
    (deps : ∀ j, (insts' j).deps = (insts j).deps)
    (fired : ∀ j, (insts' j).fired .commit = (insts j).fired .commit) : Stores insts' buf := by
  simpa only [Stores, squashed, status, InflightInst.staticInst, instRef, deps, fired] using h

theorem Lasts.congr {serializing barrier : Option InstId} {uses : RegId → DataSource}
    (h : Lasts insts serializing barrier uses next)
    (status : ∀ j, Status.issued ≤ (insts j).status → Status.issued ≤ (insts' j).status) :
    Lasts insts' serializing barrier uses next where
  serializing j ptr := (h.serializing j ptr).imp_right (status j)
  barrier j ptr := (h.barrier j ptr).imp_right (status j)
  uses r j ptr := (h.uses r j ptr).imp_right (status j)

end Groups

end Gem5.FlexCPU
