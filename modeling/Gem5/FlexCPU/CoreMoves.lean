import Gem5.FlexCPU.CoreFetch

/-!
# Every move keeps the invariant

The remaining moves: the decrement of a counter, which may call the waiting
instruction, and the dependency that an overlap of two accesses adds. The
invariant then holds along every sequence of moves.
-/

namespace Gem5.FlexCPU

open Thread List Function

section Decrement

variable {cfg : Config} {t : Thread} {g : Gate} {c : InstId} {rest : List Call}

theorem owed_cons_decrement {insts : Insts} (q : Gate) (j : InstId) :
    owed insts (.run (.decrement g c) :: rest) q j
      = owed insts rest q j + if g = q ∧ c = j then 1 else 0 := by
  unfold owed
  rw [List.count_cons]
  by_cases same : g = q ∧ c = j <;> simp [Nat.add_assoc]

theorem Tokens.popDecrement {insts : Insts} {reqs : List Request}
    (h : Tokens insts reqs (.run (.decrement g c) :: rest)) : Tokens insts reqs rest := by
  have same : ∀ j, stage reqs (.run (.decrement g c) :: rest) j = stage reqs rest j := fun j => by
    rw [stage_cons, if_neg (by simp [Call.isToken, Call.carries]), Nat.add_zero]
  exact
    { single := fun j unsquashed => same j ▸ h.single j unsquashed
      request_fits := h.request_fits
      call_fits := fun d mem => h.call_fits d (List.mem_cons_of_mem _ mem)
      waiting_exec := fun j unsquashed waits => by
        have old := h.waiting_exec j unsquashed waits
        rw [same, owed_cons_decrement] at old
        exact ⟨old.1, fun more => old.2 (Nat.lt_add_right _ more)⟩
      waiting_mem := fun j unsquashed waits => by
        have old := h.waiting_mem j unsquashed waits
        rw [same, owed_cons_decrement] at old
        exact ⟨old.1, fun more => old.2 (Nat.lt_add_right _ more)⟩ }

theorem Core.popDecrement (inv : Core cfg t) (calls : t.calls = .run (.decrement g c) :: rest)
    {n : Gate → Nat}
    (counter : Held t.inflightInsts t.requests c → (t.insts c).squashed = false → ∀ q,
      Exact (Function.update t.insts c { t.insts c with remaining := n }) rest q c) :
    Core cfg { t with
      calls := rest
      insts := Function.update t.insts c { t.insts c with remaining := n } } := by
  let x := { t.insts c with remaining := n }
  have squashed := keep (x := x) (s := t.insts) (·.squashed) rfl
  have status := keep (x := x) (s := t.insts) (·.status) rfl
  have fired := keep (x := x) (s := t.insts) (·.fired) rfl
  have instRef := keep (x := x) (s := t.insts) (·.instRef) rfl
  have deps := keep (x := x) (s := t.insts) (·.deps) rfl
  have callbacks := keep (x := x) (s := t.insts) (·.callbacks) rfl
  have onReady := keep (x := x) (s := t.insts) (·.onReady) rfl
  have squashCallbacks := keep (x := x) (s := t.insts) (·.squashCallbacks) rfl
  have lt : c < t.nextInst := inv.heap.calls_lt (.run (.decrement g c)) (by simp [calls]) c rfl
  have tokens : Tokens t.insts t.requests rest := (calls ▸ inv.tokens).popDecrement
  have pop : Call.commitPop ∈ rest ↔ Call.commitPop ∈ t.calls := by simp [calls]
  have resolve : ∀ i, Call.resolveControl i ∈ rest → Call.resolveControl i ∈ t.calls := by
    simp [calls]
  have counters : Counters (Function.update t.insts c x) t.inflightInsts t.requests rest := by
    intro j held unsquashed q
    rw [squashed] at unsquashed
    by_cases self : j = c
    · subst self
      exact counter held unsquashed q
    · refine (inv.counters j held unsquashed q).congr (deps j) (by simp [self]) fired ?_
      rw [calls, List.count_cons_of_ne (by simp [Ne.symm self])]
  exact
    { heap := (inv.heap.congr status callbacks deps fun j old => by
        simp [(Nat.lt_of_lt_of_le lt old).ne']).withCalls
          fun d mem => inv.heap.calls_lt d (by simp [calls, mem])
      callbacks := inv.callbacks.congr callbacks deps onReady
      counters := counters
      milestones := inv.milestones.congr squashed status fired instRef deps
        fun j _ => squashCallbacks j
      tokens := tokens.congr squashed status fired instRef deps onReady
      stack := (calls ▸ inv.stack).pop.congr squashed status instRef
      buffer := inv.buffer.congr squashed status (keep (x := x) (·.fault) rfl)
        (keep (x := x) (·.seqNum) rfl) (fun j => congrFun (fired j) _) pop
      control := inv.control.congr squashed status instRef squashCallbacks resolve
      stores := inv.stores.congr squashed status instRef deps fun j => congrFun (fired j) _
      lasts := inv.lasts.congr fun j issued => (status j).symm ▸ issued
      noMacroOp := inv.noMacroOp }

theorem Core.surplus_le (inv : Core cfg t) (q : Gate) (j : InstId) : surplus t.insts q j ≤ 1 := by
  cases q with
  | exec => exact inv.callbacks.surplus_le j
  | mem => exact Nat.le_trans (Nat.le_of_eq (inv.surplus_mem j)) (Nat.zero_le 1)

theorem Core.exact_decrement (inv : Core cfg t) (calls : t.calls = .run (.decrement g c) :: rest)
    (held : Held t.inflightInsts t.requests c) (unsquashed : (t.insts c).squashed = false)
    (q : Gate) : Exact (Function.update t.insts c ((t.insts c).decrement g)) rest q c := by
  have deps := keep (x := (t.insts c).decrement g) (s := t.insts) (i := c) (·.deps) rfl
  have fired := keep (x := (t.insts c).decrement g) (s := t.insts) (i := c) (·.fired) rfl
  have old := inv.counters c held unsquashed q
  have bound := inv.surplus_le q c
  unfold Exact at old ⊢
  rw [owed_congr (deps c) fired rfl, surplus_congr (deps c), update_self]
  rw [calls, owed_cons_decrement] at old
  simp only [InflightInst.decrement]
  by_cases same : g = q
  · subst same
    simp only [and_self, if_true, InflightInst.predSize] at old ⊢
    split
    · omega
    · omega
  · rw [if_neg (Ne.symm same)]
    simpa [same] using old

theorem Core.last_decrement (inv : Core cfg t) (calls : t.calls = .run (.decrement g c) :: rest)
    (held : Held t.inflightInsts t.requests c) (unsquashed : (t.insts c).squashed = false)
    (zero : ((t.insts c).decrement g).remaining g = 0) :
    owed (Function.update t.insts c ((t.insts c).decrement g)) rest g c
        = surplus (Function.update t.insts c ((t.insts c).decrement g)) g c
      ∧ surplus t.insts g c < owed t.insts t.calls g c := by
  have deps := keep (x := (t.insts c).decrement g) (s := t.insts) (i := c) (·.deps) rfl
  have fired := keep (x := (t.insts c).decrement g) (s := t.insts) (i := c) (·.fired) rfl
  have now := inv.exact_decrement calls held unsquashed g
  have bound := inv.surplus_le g c
  unfold Exact at now
  rw [update_self, zero] at now
  rw [owed_congr (deps c) fired rfl, surplus_congr (deps c)] at now ⊢
  have before : owed t.insts t.calls g c = owed t.insts rest g c + 1 := by
    rw [calls, owed_cons_decrement, if_pos ⟨rfl, rfl⟩]
  omega

theorem readyCallback_above {b : Call} (above : Call.Above (.run (.decrement g c)) b) :
    Call.Above (.run (readyCallback g c)) b := by
  cases g <;> cases b <;> simp_all [Call.Above, readyCallback]

theorem Core.decrement (inv : Core cfg t) (calls : t.calls = .run (.decrement g c) :: rest) :
    Core cfg (({ t with calls := rest }).decrement g c) := by
  have lt : c < t.nextInst := inv.heap.calls_lt (.run (.decrement g c)) (by simp [calls]) c rfl
  unfold Thread.decrement
  split
  · rename_i alive
    have held : Held t.inflightInsts t.requests c := alive_iff.mp alive
    have lower : Core cfg { t with
        calls := rest, insts := Function.update t.insts c ((t.insts c).decrement g) } :=
      inv.popDecrement calls fun held unsquashed =>
        inv.exact_decrement calls held unsquashed
    have deps := keep (x := (t.insts c).decrement g) (s := t.insts) (i := c) (·.deps) rfl
    have fired := keep (x := (t.insts c).decrement g) (s := t.insts) (i := c) (·.fired) rfl
    simp only [Thread.update, update_self]
    split
    · rename_i zero
      have ready : ((t.insts c).decrement g).onReady g = (t.insts c).onReady g := rfl
      rcases inv.callbacks.ready c g with none | one
      · rw [ready, none]
        exact lower
      · rw [ready, one]
        have above : ∀ b ∈ rest, Call.Above (.run (.decrement g c)) b := by
          have := inv.stack.above
          rw [calls] at this
          exact (List.pairwise_cons.mp this).1
        refine lower.pushReady g lt ?_ fun b mem => readyCallback_above (above b mem)
        by_cases squashed : (t.insts c).squashed = true
        · grind [InflightInst.decrement]
        right
        have unsquashed : (t.insts c).squashed = false := by simpa using squashed
        obtain ⟨spent, open_⟩ := inv.last_decrement calls held unsquashed zero
        have waits : (t.insts c).onReady g ≠ [] := by simp [one]
        have fewer : stage t.requests rest c = stage t.requests t.calls c := by
          rw [calls, stage_cons, if_neg (by simp [Call.isToken, Call.carries]), Nat.add_zero]
        simp only [update_self, fewer]
        cases g with
        | exec =>
          obtain ⟨status, idle⟩ := (inv.tokens.waiting_exec c unsquashed waits).2 open_
          refine ⟨idle, status, fun _ => Nat.le_of_eq spent, fun waits => ?_⟩
          have late := (inv.tokens.waiting_mem c unsquashed waits).1
          rw [status] at late
          simp [Status.le_iff, Status.rank] at late
        | mem =>
          have due : 0 < owed t.insts t.calls .mem c := Nat.lt_of_le_of_lt (Nat.zero_le _) open_
          obtain ⟨status, idle, memRef⟩ := (inv.tokens.waiting_mem c unsquashed waits).2 due
          refine ⟨idle, ⟨status, memRef, waits⟩, fun waits => ?_, fun _ => ?_⟩
          · refine Nat.le_of_not_lt fun more => ?_
            have := ((inv.tokens.waiting_exec c unsquashed waits).2 ?_).1
            · rw [status] at this
              cases this
            · rw [calls, owed_cons_decrement]
              rwa [owed_congr (deps c) fired rfl, surplus_congr (deps c)] at more
          · rw [spent, surplus_congr (deps c)]
            exact inv.surplus_mem c
    · exact lower
  · rename_i dead
    have same : Function.update t.insts c { t.insts c with remaining := (t.insts c).remaining }
        = t.insts := update_eq_self c t.insts
    have := inv.popDecrement calls (n := (t.insts c).remaining)
      fun held => absurd (alive_iff.mpr held) dead
    rwa [same] at this

end Decrement

section Overlap

variable {cfg : Config} {t : Thread} {i other : InstId} {cb : Callback} {rest : List Call}

theorem Core.addMemDependency (inv : Core cfg t) (older : other < i) (lt : i < t.nextInst)
    (issued : Status.issued ≤ (t.insts i).status) (unspent : (t.insts i).squashed = false → (t.insts
    i).onReady .mem ≠ [] → 0 < owed t.insts t.calls .mem i) :
    Core cfg (t.addDependency i .mem .completion other) := by
  have form := register_eq t i (.depend .mem .completion other)
  change t.addDependency i .mem .completion other = _ at form
  rw [form]
  by_cases accepted : Registration.accepted t.insts (.depend .mem .completion other) = true
  · rw [List.filter_cons_of_pos accepted, filter_nil]
    have open_ : (t.insts other).squashed = false ∧ (t.insts other).reached .completion = false := by
      simpa [Registration.accepted] using accepted
    have silent : (t.insts other).fired .completion = 0 := by
      refine inv.milestones.fired_zero other .completion open_.1 (by simp) ?_
      have := open_.2
      simp only [InflightInst.reached, decide_eq_false_iff_not] at this
      exact Nat.lt_of_not_le this
    have enlists : Enlists t.insts i [.depend .mem .completion other] :=
      { depends := fun g m p mem => by
          obtain ⟨rfl, rfl, rfl⟩ : g = .mem ∧ m = .completion ∧ p = other := by simpa using mem
          exact ⟨older, silent, by simp, by simp⟩
        overlaps := by simp
        once := by
          have bound := inv.callbacks.surplus_le i
          unfold surplus at bound
          simpa [Registration.dependency] using bound
        order := ⟨trivial, trivial⟩ }
    exact
      { heap := inv.heap.enrolled enlists lt
        callbacks := inv.callbacks.enrolled enlists
        counters := inv.counters.enrolled enlists fun g => by
          cases g with
          | exec => exact Or.inr rfl
          | mem => exact Or.inl (by rw [inv.surplus_mem]; exact Nat.zero_le _)
        milestones := inv.milestones.enrolled issued
        tokens := inv.tokens.enrolled enlists (fun _ _ => rfl) unspent
        stack := inv.stack.congr (fun _ => rfl) (fun _ => rfl) (fun _ => rfl)
        buffer := inv.buffer.congr (fun _ => rfl) (fun _ => rfl) (fun _ => rfl) (fun _ => rfl)
          (fun _ => rfl) Iff.rfl
        control := inv.control.congr (fun _ => rfl) (fun _ => rfl) (fun _ => rfl) (fun _ => rfl)
          fun _ mem => mem
        stores := inv.stores.enrolled
        lasts := inv.lasts.congr fun _ issued => issued
        noMacroOp := inv.noMacroOp }
  · rw [List.filter_cons_of_neg accepted, filter_nil, enrolled_nil]
    exact inv

theorem dependOnOverlap_cases (t : Thread) (i other : InstId)
    (fine : (t.dependOnOverlap i other).panicked = none) :
    t.dependOnOverlap i other = t
      ∨ t.dependOnOverlap i other = t.addDependency i .mem .completion other := by
  unfold Thread.dependOnOverlap at fine ⊢
  split
  · split
    · exact Or.inr rfl
    · exact Or.inl rfl
  · grind [Thread.fail]

theorem runOverlap_cases (t : Thread)
    (kind : cb = .overlapKnown i other ∨ cb = .overlapOurs i other ∨ cb = .overlapTheirs i other)
    (fine : (t.runCallback cfg cb).panicked = none) :
    t.runCallback cfg cb = t ∨ t.runCallback cfg cb = t.addDependency i .mem .completion other := by
  rcases kind with rfl | rfl | rfl
  all_goals
    simp only [Thread.runCallback] at fine ⊢
    split
    · rename_i go
      rw [if_pos go] at fine
      exact dependOnOverlap_cases t i other fine
    · exact Or.inl rfl

theorem Core.overlap (inv : Core cfg t) (calls : t.calls = .run cb :: rest)
    (kind : cb = .overlapKnown i other ∨ cb = .overlapOurs i other ∨ cb = .overlapTheirs i other)
    (fine : (({ t with calls := rest }).runCallback cfg cb).panicked = none) :
    Core cfg (({ t with calls := rest }).runCallback cfg cb) := by
  have target : cb.inst = some i := by rcases kind with rfl | rfl | rfl <;> rfl
  have popped : Core cfg { t with calls := rest } := by
    refine inv.pop calls ?_ (by simp)
    rcases kind with rfl | rfl | rfl <;> rfl
  have lt : i < t.nextInst := inv.heap.calls_lt (.run cb) (by simp [calls]) i target
  have needs : Call.Needs (.run cb) rest := by
    have := inv.stack.needs
    rw [calls] at this
    exact this.1
  have waiting : ∀ old < i, .afterEffAddr i ∈ rest →
      Core cfg (({ t with calls := rest }).addDependency i .mem .completion old) := by
    intro old older below
    have inside : Call.afterEffAddr i ∈ t.calls := by simp [calls, below]
    obtain ⟨-, unsquashed⟩ := inv.stack.protects _ inside rfl i rfl
    have fits := inv.tokens.call_fits _ inside i rfl unsquashed
    refine popped.addMemDependency older lt ?_ fun _ waits => absurd fits.2.2 waits
    rw [show ({ t with calls := rest } : Thread).insts i = t.insts i from rfl, fits.1]
    simp [Status.le_iff, Status.rank]
  have outcome (added : Core cfg (({ t with calls := rest }).addDependency i .mem .completion
      other)) : Core cfg (({ t with calls := rest }).runCallback cfg cb) := by
    rcases runOverlap_cases _ kind fine with same | new
    · rwa [same]
    · rwa [new]
  rcases kind with rfl | rfl | rfl
  · exact outcome (waiting other needs.2 needs.1)
  · exact outcome (waiting other needs.2 needs.1)
  · simp only [Thread.runCallback] at fine ⊢
    split
    · rename_i go
      rw [if_pos go] at fine
      rcases dependOnOverlap_cases _ i other fine with same | new
      · rwa [same]
      · rw [new]
        refine popped.addMemDependency needs.2 lt ?_ fun _ _ => ?_
        · have late := (Bool.and_eq_true_iff.mp go).2
          simp only [InflightInst.isEffAddred, InflightInst.reached, decide_eq_true_eq] at late
          exact Nat.le_trans (by simp [Status.rank, Milestone.status]) late
        · have pending : 0 < rest.count (.run (.decrement .mem i)) :=
            List.count_pos_iff.mpr needs.1
          exact Nat.lt_of_lt_of_le pending (Nat.le_add_left _ _)
    · exact popped

end Overlap

section Move

variable {cfg : Config} {o : Thread} {e : Event} {t t' : Thread} {i : InstId}

theorem Thread.Unpredicted.canAdvance (can : t.Unpredicted cfg i) (calls : t.calls = []) :
    (t.holdSlot i).CanAdvance where
  quiet := by
    intro c mem
    have none : c ∈ t.calls := mem
    simp [calls] at none
  settled := fun pop => by
    have none : Call.commitPop ∈ t.calls := pop
    simp [calls] at none
  issued := fun l last => by
    obtain rfl : i = l := Option.some.inj (can.back.symm.trans last)
    simpa [holdSlot, Thread.update] using can.issued
  unsquashed := fun l last => by
    obtain rfl : i = l := Option.some.inj (can.back.symm.trans last)
    simpa [holdSlot, Thread.update] using can.unsquashed
  control := fun l last _ => by
    obtain rfl : i = l := Option.some.inj (can.back.symm.trans last)
    right
    simp [Predicted, holdSlot, Thread.update]

theorem Core.unawaited (inv : Core cfg t) (asked : .bpred i ∈ t.requests)
    (unsquashed : (t.insts i).squashed = false) : t.unpredictedBranch ≠ some i :=
  fun eq => ((inv.control.waiting i eq).2.2.2 unsquashed).2 asked

theorem Core.lt_of_idle {s : Status} (inv : Core cfg t)
    (idle : (t.insts i).squashed = true ∨ t.Idle i s) : i < t.nextInst :=
  idle.elim inv.heap.lt_of_squashed fun idle => inv.heap.bounded i idle.mem

theorem Core.resolve_quiet (inv : Core cfg t) {rest : List Call}
    (calls : t.calls = .resolveControl i :: rest) : ∀ c ∈ rest, c.protects = false := by
  have stack := inv.stack
  rw [calls] at stack
  refine stack.quiet_below fun b kind => ?_
  cases b <;> simp_all [Call.protects, Call.Above]

theorem Thread.Idle.enterMemory (idle : t.Idle i .effAddred) : (t.enterMemory i).Idle i .memorying :=
  have moved := idle.setStatus .memorying
  ⟨moved.mem, moved.unsquashed, moved.stage, moved.status⟩

theorem Call.decrements_of_carries {c : Call} (carries : c.carries = true) :
    c.decrements = false := by
  cases c with
  | run cb => cases cb <;> simp_all [Call.carries, Call.decrements]
  | _ => rfl

theorem freeBranchPredDepth_keeps (t : Thread) (i : InstId) :
    t.freeBranchPredDepth.calls = t.calls
      ∧ t.freeBranchPredDepth.inflightInsts = t.inflightInsts
      ∧ (t.freeBranchPredDepth.insts i).status = (t.insts i).status
      ∧ (t.freeBranchPredDepth.insts i).fired = (t.insts i).fired := by
  rcases t.freeBranchPredDepth_cases with ⟨u, -, -, -, -, eq⟩ | ⟨waiting, -, eq⟩
  · rw [eq]
    exact ⟨rfl, rfl, setSquash_status .., setSquash_fired ..⟩
  · rw [eq]
    exact ⟨rfl, rfl, rfl, rfl⟩

theorem Core.move (inv : Core cfg t) (move : Move cfg o e t t') : Core cfg t' := by
  cases move with
  | drop serves _ _ => exact inv.removeRequest serves.split
  | enqueue token fits unit => exact inv.enqueue token fits
  | fill => exact { inv with }
  | refetch idle calls => exact inv.pushFetch idle (by simp [Quiet, calls])
  | fetchWord idle quiet word => exact { inv.pushFetch idle quiet with }
  | @decode i decoder si pc idle word hit origin =>
    have known : Decodes (t.insts i)
        { (t.insts i).setStaticInst si with pcState := pc, status := .decoded } :=
      ⟨rfl, rfl, rfl, rfl, rfl, rfl, rfl, rfl, rfl, rfl, rfl⟩
    exact { inv.decode idle known with }
  | issue idle back calls served origin => exact inv.issue idle back calls
  | stall can full active next => exact inv.stall can
  | extend can room active next => exact inv.extend can room active
  | reserve can depth other calls =>
    have fewer : Core cfg { t with
        remainingBranchPredDepth := t.remainingBranchPredDepth - 1 } := { inv with }
    exact fewer.predictCtrlInst can.predictor can.control can.issued
      (fun _ => ⟨can.unpredicted, can.unasked⟩) other
  | defer can depth calls => exact inv.defer can
  | release serves calls => exact (inv.removeRequest serves.split).freeBranchPredDepth
  | @predictStall i before after pc serves can calls full active micro =>
    have asked : .bpred i ∈ t.requests := by simp [serves.split]
    have fewer := (inv.removeRequest serves.split).holdSlot can.predictor can.issued can.unasked
      (inv.unawaited asked can.unsquashed)
    exact fewer.stall (can.canAdvance calls)
  | @predictExtend i before after pc serves can calls room active micro =>
    have asked : .bpred i ∈ t.requests := by simp [serves.split]
    have fewer := (inv.removeRequest serves.split).holdSlot can.predictor can.issued can.unasked
      (inv.unawaited asked can.unsquashed)
    exact fewer.extend (can.canAdvance calls) room active
  | enterTid idle calls ready => exact inv.enterTid idle calls
  | waitTid idle calls unready => exact inv.waitTid idle
  | execute idle ready below origin => exact inv.execute idle ready below
  | requestExecution idle once below => exact inv.requestExecution idle once below
  | setAccess idle => exact inv.data (inv.lt_of_idle idle) rfl
  | execResult idle plain operands value => exact inv.data (inv.lt_of_idle idle) rfl
  | loadResult serves read calls =>
    have lt := inv.heap.requests_lt _ (serves.split ▸ mem_append_right _ (List.mem_cons_self ..))
    exact (inv.removeRequest serves.split).data lt rfl
  | complete unsquashed allocated stage pending packets status calls served =>
    exact inv.complete unsquashed allocated stage pending packets status calls
  | setPAddrs idle memRef calls =>
    refine inv.data (inv.heap.bounded _ idle.mem) ?_
    split <;> rfl
  | effAddr idle twice memRef calls => exact inv.effAddr idle memRef calls
  | awaitMem idle memRef unready unused => exact inv.awaitMem idle memRef unused
  | sendLoad can load =>
    exact (inv.enterMemory can.toIdle can.ready).requestMem can.toIdle.enterMemory
      ((congrArg _ (restatus_staticInst ..)).trans can.memRef)
  | @sendStore i vals can store =>
    have sending := inv.enterMemory can.toIdle can.ready
    have idle := can.toIdle.enterMemory
    have stored : Core cfg ((t.enterMemory i).update i (·.setResults vals)) :=
      sending.data (inv.heap.bounded i can.mem) rfl
    have idleStored : ((t.enterMemory i).update i (·.setResults vals)).Idle i .memorying :=
      { mem := idle.mem
        unsquashed := (keep (x := InflightInst.setResults _ vals) (·.squashed) rfl i).trans
          idle.unsquashed
        stage := idle.stage
        status := (keep (x := InflightInst.setResults _ vals) (·.status) rfl i).trans idle.status }
    have memRef : (((t.enterMemory i).update i (·.setResults vals)).insts i).staticInst.isMemRef
        = true := by
      simpa [Thread.update, Thread.enterMemory, Thread.setStatus, InflightInst.setResults,
        InflightInst.staticInst] using can.memRef
    have asked := stored.requestMem idleStored memRef
    refine asked.pushCommitAll ?_
    have same : (((t.enterMemory i).update i (·.setResults vals)).requestMem i).calls = t.calls := by
      unfold Thread.requestMem
      split
      · rfl
      · split <;> rfl
    intro c mem
    rw [same] at mem
    exact can.quiet store c mem
  | @sendFault i f can store =>
    have sending := inv.enterMemory can.toIdle can.ready
    have idle := can.toIdle.enterMemory
    exact sending.markFault idle.mem idle.unsquashed
      (sending.uncommitted idle.mem idle.unsquashed (by simp [idle.status])) (can.quiet store) f
  | @fault i f idle kind packets calls cause =>
    refine inv.markFault idle.mem idle.unsquashed
      (inv.uncommitted idle.mem idle.unsquashed fun done => ?_) (by simp [Quiet, calls]) f
    simp [done] at kind
  | transmit serves alive calls => exact inv.transmit serves.split
  | decrement calls => exact inv.decrement calls
  | overlap calls kind fine => exact inv.overlap calls kind fine
  | pop calls kind =>
    refine inv.pop calls ?_ ?_
    · rcases kind with carries | ⟨shrunk, rfl⟩ | ⟨cb, rfl, ⟨n, rfl⟩ | ⟨j, rfl⟩⟩
      · exact Call.decrements_of_carries carries
      · rfl
      · rfl
      · rfl
    · rintro rfl
      simp [Call.carries] at kind
  | resolveCorrect calls predictor followed correct =>
    exact (inv.pop calls rfl (by simp)).freeBranchPredDepth
  | @resolveWrong i rest calls predictor followed =>
    have resolving : Call.resolveControl i ∈ t.calls := by simp [calls]
    have freed := (inv.pop calls rfl (by simp)).freeBranchPredDepth
    have kept := freeBranchPredDepth_keeps { t with calls := rest } i
    have status := (inv.stack.resolving i resolving).1
    refine freed.resolveWrong ?_ ?_ ?_
    · intro c mem
      rw [kept.1] at mem
      exact inv.resolve_quiet calls c mem
    · rw [kept.2.1]
      exact (inv.stack.protects _ resolving rfl i rfl).1
    · rw [kept.2.2.1, status]
      simp [Status.le_iff, Status.rank]
  | resolveUnpredicted calls back retry => exact inv.pop calls rfl (by simp)
  | commit front unsquashed status quiet => exact inv.commit front unsquashed status quiet
  | popFront calls => exact inv.popFront calls
  | reset buffer squashed fault quiet => exact inv.reset buffer squashed quiet
  | wake => exact inv.wake

end Move

end Gem5.FlexCPU
