import Gem5.FlexCPU.Order

/-!
# The thread refines the ordering machine

Every move of a thread is a step of the ordering machine. The steps that guards speak
about, the beginning of an execution, an issue and a completion, are traced back to
the state in which the thread's step began.
-/

namespace Gem5.FlexCPU

open Thread List Function

/-- What an action says about the state `o` and the event in which it takes place. -/
def Caused (o : Thread) (e : Event) (t : Thread) : Action → Prop
  | .execute i => o.order = t.order ∧ o.live i = true
      ∧ ∃ rest, o.calls = .run (.executeInstruction i) :: rest
  | .issue i => o.order = t.order ∧ e.Serves o (.issue i) ∧ o.calls = []
  | .complete i => e.Serves o (.delayedCall i) ∧ (t.insts i).status = .executing
      ∨ ∃ p, e.Serves o (.memResp p) ∧ p.inst = i ∧ o.calls = []
        ∧ o.requests.countP (awaitsPacket i) = 1 ∧ (o.insts i).status = (t.insts i).status
  | _ => True

section Views

variable {cfg : Config} {t : Thread} {i : InstId}

theorem marks_update (insts : Insts) (i : InstId) (x : InflightInst) :
    (fun j => (Function.update insts i x j).mark)
      = Function.update (fun j => (insts j).mark) i x.mark := by
  funext j
  exact apply_update (fun _ y => InflightInst.mark y) insts i x j

theorem marks_keep {insts : Insts} {x : InflightInst} (same : x.mark = (insts i).mark) :
    (fun j => (Function.update insts i x j).mark) = fun j => (insts j).mark := by
  rw [marks_update, same]
  exact update_eq_self i _

theorem order_of_marks {u : Thread} (marks : (fun j => (u.insts j).mark) = fun j => (t.insts j).mark)
    (buffer : u.inflightInsts = t.inflightInsts) (next : u.nextInst = t.nextInst)
    (issues : u.nextIssueNum = t.nextIssueNum)
    (serializing : u.lastSerializingInstruction = t.lastSerializingInstruction)
    (barrier : u.lastMemBarrier = t.lastMemBarrier) (executed : u.executed = t.executed)
    (sends : u.sends = t.sends) : u.order = t.order := by
  simp [Thread.order, marks, buffer, next, issues, serializing, barrier, executed, sends]

theorem order_freeBranchPredDepth (t : Thread) : t.freeBranchPredDepth.order = t.order := by
  rcases t.freeBranchPredDepth_cases with ⟨u, -, -, -, -, eq⟩ | ⟨waiting, -, eq⟩
  · rw [eq]
    exact order_of_marks (marks_keep rfl) rfl rfl rfl rfl rfl rfl rfl
  · rw [eq]
    rfl

theorem order_requestMem (t : Thread) (i : InstId) : (t.requestMem i).order = t.order := by
  obtain ⟨new, eq, -⟩ := requestMem_packets t i
  rw [eq]
  rfl

theorem marks_flaggedAll (insts : Insts) (vs : List InstId) (s : Order)
    (same : s.mark = fun j => (insts j).mark) :
    (fun j => (flaggedAll insts vs j).mark) = s.flag vs := by
  funext j
  simp only [Order.flag, same, flaggedAll]
  split <;> rfl

end Views

section Issue

variable {cfg : Config} {t : Thread} {i : InstId}

theorem mem_issuedDeps (none : ∀ g, (t.insts i).deps g = []) (g : Gate) (d : Milestone × InstId) :
    d ∈ (issuedInst cfg t i).deps g ↔ .depend g d.1 d.2 ∈ t.dependencyRules cfg i
      ∧ Registration.accepted t.insts (.depend g d.1 d.2) = true := by
  have form : (issuedInst cfg t i).deps g = ((t.dependencyRules cfg i).filter
      (Registration.accepted t.insts)).filterMap (Registration.dependency g) := by
    simp [issuedInst, issuedInsts, enrolled, none]
  rw [form, mem_dependency, List.mem_filter]

theorem accepted_of {g : Gate} {m : Milestone} {p : InstId}
    (unsquashed : (t.insts p).squashed = false) (early : (t.insts p).status < m.status) :
    Registration.accepted t.insts (.depend g m p) = true := by
  have before : (t.insts p).reached m = false := by
    simp only [InflightInst.reached, decide_eq_false_iff_not]
    exact Nat.not_le.mpr early
  simp [Registration.accepted, unsquashed, before]

theorem locked_of_mem {w : Option InstId} {q : InstId} (at_ : w = some q)
    (inside : q ∈ t.inflightInsts) : t.lock w = some q := by
  refine Option.filter_eq_some_iff.mpr ⟨at_, ?_⟩
  exact alive_iff.mpr (Or.inl inside)

theorem Inv.waits (inv : Inv cfg t) (idle : t.Idle i .decoded) (back : t.back = some i) :
    t.order.Waits cfg i (issuedInst cfg t i).deps := by
  have none := (inv.milestones.unissued i (by simp [idle.status, Status.lt_iff, Status.rank])).1
  have enlists := inv.toCore.enlists idle back
  have others : ∀ j ∈ t.inflightInsts, j ≠ i → (t.insts j).squashed = false := by
    intro j mem ne
    by_contra squashed
    have last := (inv.buffer.squashed j mem (by simpa using squashed)).1
    exact ne (Option.some.inj (last.symm.trans back))
  have open_ : ∀ j ∈ t.inflightInsts, (t.insts j).squashed = false →
      (t.insts j).fired .commit = 0 → (t.insts j).status < .committed := by
    intro j mem unsquashed uncommitted
    refine Nat.lt_of_le_of_ne ?_ fun same => ?_
    · cases (t.insts j).status <;> simp [Status.rank]
    · have := (inv.milestones.committed_iff j mem unsquashed).mp (Status.rank_inj same)
      omega
  refine ⟨fun g d mem => ?_, fun q at_ live pending => ?_, fun strict serializing p before pending => ?_,
    fun memRef q at_ live early => ?_, fun fence j inside ne kind early => ?_⟩
  · obtain ⟨rule, accepted⟩ := (mem_issuedDeps none g d).mp mem
    obtain ⟨lt, silent, -⟩ := enlists.depends g d.1 d.2 (List.mem_filter.mpr ⟨rule, accepted⟩)
    exact ⟨lt, silent⟩
  · refine (mem_issuedDeps none _ _).mpr ⟨?_, accepted_of live.2 (open_ q live.1 live.2 pending)⟩
    have locked : t.lock t.lastSerializingInstruction = some q := locked_of_mem at_ live.1
    simp [dependencyRules, serializationRules, locked]
  · obtain ⟨-, inside, unsquashed⟩ := inv.toCore.beforeBack_fits back before
    refine (mem_issuedDeps none _ _).mpr ⟨?_, accepted_of unsquashed (open_ p inside unsquashed pending)⟩
    have rule : .depend .exec .commit p ∈ t.serializationRules cfg (t.insts i).staticInst := by
      refine mem_append_right _ (mem_onPrevious.mpr ⟨?_, p, before, rfl⟩)
      rw [if_pos strict]
      exact serializing
    simp [dependencyRules, rule]
  · refine (mem_issuedDeps none _ _).mpr ⟨?_, accepted_of live.2 early⟩
    have rule : .depend .mem .completion q ∈ t.barrierRules i (t.insts i).staticInst := by
      refine mem_append_left _ ?_
      have locked : t.lock t.lastMemBarrier = some q := locked_of_mem at_ live.1
      have memRef : (t.insts i).staticInst.isMemRef = true := memRef
      simp [memRef, locked]
    simp [dependencyRules, rule]
  · refine (mem_issuedDeps none _ _).mpr ⟨?_, accepted_of (others j inside ne) early⟩
    have rule : .depend (if (t.insts i).staticInst.isMemRef then .mem else .exec) .completion j
        ∈ t.barrierRules i (t.insts i).staticInst := by
      refine mem_append_right _ ?_
      have fence : (t.insts i).staticInst.isMemBarrier = true := fence
      rw [if_pos fence]
      have kind : (t.insts j).staticInst.isMemBarrier = true
          ∨ (t.insts j).staticInst.isMemRef = true := kind
      refine List.mem_map.mpr ⟨j, List.mem_filter.mpr ⟨List.mem_reverse.mpr inside, ?_⟩, rfl⟩
      simpa [ne] using kind
    simp only [dependencyRules, mem_append]
    exact Or.inl (Or.inl (Or.inl (Or.inl (Or.inr rule))))

theorem order_enterIssue (cfg : Config) (t : Thread) (i : InstId) :
    (t.enterIssue cfg i).order = { t.order with
      mark := Function.update t.order.mark i { t.order.mark i with
        status := .issued, number := t.order.issues, deps := (issuedInst cfg t i).deps }
      issues := t.order.issues + 1
      serializing := if t.order.records cfg (t.order.mark i).static then some i
        else t.order.serializing
      barrier := if (t.order.mark i).static.isMemBarrier then some i else t.order.barrier } := by
  rw [Thread.enterIssue_eq]
  have marks : (fun j => (Function.update (issuedInsts cfg t i) i (issuedInst cfg t i) j).mark)
      = Function.update t.order.mark i { t.order.mark i with
        status := .issued, number := t.order.issues, deps := (issuedInst cfg t i).deps } := by
    funext j
    by_cases self : j = i
    · subst self
      simp [InflightInst.mark, issuedInst, issuedInsts, Thread.order, enrolled,
        InflightInst.staticInst]
    · simp [self, InflightInst.mark, issuedInsts, Thread.order, enrolled, restatus,
        InflightInst.staticInst]
  simp only [Thread.order, Thread.request] at marks ⊢
  rw [marks]
  rfl

end Issue

section Moves

variable {cfg : Config} {o : Thread} {e : Event} {t t' : Thread} {i : InstId}

/-- The move is a step of the ordering machine with a cause. -/
def Refines (cfg : Config) (o : Thread) (e : Event) (t t' : Thread) : Prop :=
  ∃ a, Caused o e t a ∧ Order.Step cfg t.order a t'.order

theorem Refines.unseen (same : t'.order = t.order) : Refines cfg o e t t' :=
  ⟨.idle, trivial, same ▸ .idle⟩

theorem Refines.idle (marks : (fun j => (t'.insts j).mark) = fun j => (t.insts j).mark)
    (buffer : t'.inflightInsts = t.inflightInsts) (next : t'.nextInst = t.nextInst)
    (issues : t'.nextIssueNum = t.nextIssueNum)
    (serializing : t'.lastSerializingInstruction = t.lastSerializingInstruction)
    (barrier : t'.lastMemBarrier = t.lastMemBarrier) (executed : t'.executed = t.executed)
    (sends : t'.sends = t.sends) : Refines cfg o e t t' :=
  .unseen (order_of_marks marks buffer next issues serializing barrier executed sends)

theorem Thread.Idle.order_live {s : Status} (idle : t.Idle i s) : t.order.Live i :=
  ⟨idle.mem, idle.unsquashed⟩

theorem order_extend (t : Thread) (pc : PCState) :
    (t.extend pc).order = { t.order with
      mark := Function.update t.order.mark t.order.next { status := .empty }
      buffer := t.order.buffer ++ [t.order.next]
      next := t.order.next + 1 } := by
  have marks : (fun j => (allocated t pc j).mark)
      = Function.update t.order.mark t.nextInst { status := .empty } := marks_update ..
  simp only [Thread.order, allocated] at marks ⊢
  simp [Thread.extend, Thread.allocate, marks]

theorem Inv.all_open (inv : Inv cfg t) (last : ∀ l, t.back = some l → Status.issued ≤ (t.insts
    l).status ∧ (t.insts l).squashed = false) :
    (∀ i ∈ t.inflightInsts, Status.issued ≤ (t.insts i).status)
      ∧ ∀ i ∈ t.inflightInsts, (t.insts i).squashed = false := by
  refine ⟨fun i mem => ?_, fun i mem => ?_⟩
  · by_cases back : t.back = some i
    · exact (last i back).1
    · exact inv.buffer.issued i mem back
  · by_contra squashed
    have squashed : (t.insts i).squashed = true := by simpa using squashed
    have := (last i (inv.buffer.squashed i mem squashed).1).2
    rw [squashed] at this
    cases this

theorem Inv.refines_extend (inv : Inv cfg t) (can : t.CanAdvance) (pc : PCState) :
    Refines cfg o e t (t.extend pc) := by
  obtain ⟨issued, unsquashed⟩ := inv.all_open fun l last =>
    ⟨can.issued l last, can.unsquashed l last⟩
  refine ⟨.fetch, trivial, ?_⟩
  rw [order_extend]
  exact .fetch issued unsquashed

theorem order_markFault (inv : Core cfg t) (mem : i ∈ t.inflightInsts)
    (unsquashed : (t.insts i).squashed = false) (quiet : t.Quiet) (f : Fault) :
    ∃ a vs, t.inflightInsts = a ++ i :: vs.reverse
      ∧ (t.markFault cfg i f).order = { t.order with
          mark := t.order.flag (vs ++ [i]), buffer := a ++ [i] } := by
  obtain ⟨a, vs, w, buffer, -, eq⟩ := markFault_spec inv mem unsquashed quiet f
  refine ⟨a, vs, buffer, ?_⟩
  rw [eq]
  have faultless : (fun j => ((faulty t i f).insts j).mark) = t.order.mark := marks_keep rfl
  have marks := marks_flaggedAll (faulty t i f).insts (vs ++ [i]) t.order faultless.symm
  simp only [Thread.order, squashed, faulty, Thread.update] at marks ⊢
  rw [marks]

theorem order_resolveWrong (inv : Core cfg t) {rest : List Call}
    (calls : t.calls = .resolveControl i :: rest) :
    ∃ a vs, t.inflightInsts = a ++ i :: vs.reverse
      ∧ ((({ t with calls := rest }).freeBranchPredDepth).squashUpTo cfg i true).order
        = { t.order with
          mark := t.order.flag vs
          buffer := a ++ [i]
          serializing := t.order.rebuild (a ++ [i]) vs t.order.serializing (serializes cfg)
          barrier := t.order.rebuild (a ++ [i]) vs t.order.barrier (·.isMemBarrier) } := by
  obtain ⟨u, a, vs, w, defU, -, buffer, -, -, -, eq⟩ := resolveWrong_spec inv calls
  refine ⟨a, vs, buffer, ?_⟩
  have same : u.order = t.order := by
    rw [defU]
    exact order_freeBranchPredDepth { t with calls := rest }
  rw [← defU, eq]
  have marks := marks_flaggedAll u.insts vs u.order rfl
  have statics : ∀ j, (flaggedAll u.insts vs j).staticInst = (u.insts j).staticInst := by
    intro j
    unfold flaggedAll
    split <;> rfl
  have last : ∀ (l : Option InstId) (kind : StaticInst → Bool),
      (squashed u vs (a ++ [i]) w).rebuildLast vs l kind
        = u.order.rebuild (a ++ [i]) vs l kind := by
    intro l kind
    simp only [rebuildLast, squashed, statics]
    rfl
  rw [← same]
  rw [last, last]
  simp only [Thread.order, squashed] at marks ⊢
  rw [marks]

theorem Refines.set {a : Action} {x : InflightInst} (caused : Caused o e t a)
    (step : Order.Step cfg t.order a (t.order.set i x.mark)) :
    Refines cfg o e t { t with insts := Function.update t.insts i x } := by
  refine ⟨a, caused, ?_⟩
  have marks : (fun j => (Function.update t.insts i x j).mark)
      = Function.update t.order.mark i x.mark := marks_update ..
  simp only [Thread.order] at step marks ⊢
  rwa [marks]

theorem Inv.due_exec (inv : Inv cfg t) (mem : i ∈ t.inflightInsts)
    (unsquashed : (t.insts i).squashed = false) (ready : (t.insts i).remaining .exec = 0) :
    t.order.due .exec i ≤ t.order.begins i := by
  have bound := inv.callbacks.surplus_le i
  change due t.insts .exec i ≤ surplus t.insts .exec i
  rcases inv.counters i (Or.inl mem) unsquashed .exec with ⟨-, eq⟩ | ⟨lt, eq⟩
  · rw [ready] at eq
    unfold owed at eq
    omega
  · rw [ready] at eq
    omega

theorem Inv.due_mem (inv : Inv cfg t) (can : t.CanSend i) : t.order.due .mem i = 0 := by
  have paid := (inv.toCore.owed_mem can.mem can.unsquashed).symm.trans can.ready
  change due t.insts .mem i = 0
  unfold owed at paid
  omega

theorem order_enterMemory (t : Thread) (i : InstId) :
    (t.enterMemory i).order = { t.order.set i { t.order.mark i with status := .memorying } with
      sends := t.order.sends ++ [i] } := by
  have marks : (fun j => ((t.enterMemory i).insts j).mark)
      = Function.update t.order.mark i { t.order.mark i with status := .memorying } :=
    marks_update ..
  simp only [Thread.order, Order.set, Thread.enterMemory, Thread.setStatus, Thread.update]
    at marks ⊢
  rw [marks]

theorem Inv.refines_send (inv : Inv cfg t) (can : t.CanSend i)
    (same : t'.order = (t.enterMemory i).order) : Refines cfg o e t t' := by
  refine ⟨.send i, trivial, ?_⟩
  rw [same, order_enterMemory]
  exact .send can.toIdle.order_live can.status can.memRef (inv.due_mem can)

theorem Inv.refines_overlap (inv : Inv cfg t) {cb : Callback} {rest : List Call} {other : InstId}
    (calls : t.calls = .run cb :: rest)
    (kind : cb = .overlapKnown i other ∨ cb = .overlapOurs i other ∨ cb = .overlapTheirs i other)
    (fine : (({ t with calls := rest }).runCallback cfg cb).panicked = none) :
    Refines cfg o e t (({ t with calls := rest }).runCallback cfg cb) := by
  by_cases changed : ({ t with calls := rest }).runCallback cfg cb = { t with calls := rest }
  · rw [changed]
    exact .unseen rfl
  have unsent := inv.overlap_unsent calls kind changed
  have needs := inv.stack.needs
  rw [calls] at needs
  have older : other < i := by
    rcases kind with rfl | rfl | rfl
    · exact needs.1.2
    · exact needs.1.2
    · exact needs.1.2
  have pending : Call.run cb ∈ t.calls := by simp [calls]
  have target : cb.inst = some i := by rcases kind with rfl | rfl | rfl <;> rfl
  have allocated : i < t.nextInst := inv.heap.calls_lt _ pending i target
  have issued : Status.issued ≤ (t.insts i).status := by
    rcases kind with rfl | rfl | rfl
    · have inside : Call.afterEffAddr i ∈ t.calls := by simp [calls, needs.1.1]
      have open_ := (inv.stack.protects _ inside rfl i rfl).2
      have status := (inv.tokens.call_fits _ inside i rfl open_).1
      simp [status, Status.le_iff, Status.rank]
    · have inside : Call.afterEffAddr i ∈ t.calls := by simp [calls, needs.1.1]
      have open_ := (inv.stack.protects _ inside rfl i rfl).2
      have status := (inv.tokens.call_fits _ inside i rfl open_).1
      simp [status, Status.le_iff, Status.rank]
    · have known : (t.insts i).isEffAddred = true := by
        by_contra early
        exact changed (by simp [Thread.runCallback, early])
      have := of_decide_eq_true known
      simp only [Milestone.status, Status.le_iff, Status.rank] at this ⊢
      omega
  rcases runOverlap_cases { t with calls := rest } kind fine with same | new
  · exact absurd same changed
  have accepted : ((t.insts other).squashed || (t.insts other).reached .completion) = false := by
    by_contra refused
    apply changed
    rw [new, Thread.addDependency, if_pos ((Bool.not_eq_false _).mp refused)]
  obtain ⟨open_, early⟩ := Bool.or_eq_false_iff.mp accepted
  have silent : (t.insts other).fired .completion = 0 := by
    refine inv.milestones.fired_zero other .completion open_ (by simp) ?_
    exact Nat.lt_of_not_le (of_decide_eq_false early)
  rw [new, Thread.addDependency, if_neg (by simp [accepted])]
  have ne : other ≠ i := Nat.ne_of_lt older
  have marks : (fun j => (Function.update (Function.update t.insts i
        ((t.insts i).awaits .mem .completion other)) other
        ((t.insts other).addCallback .completion (.decrement .mem i)) j).mark)
      = Function.update t.order.mark i ((t.insts i).awaits .mem .completion other).mark := by
    rw [marks_keep, marks_update]
    · rfl
    · simp only [update_of_ne ne]
      rfl
  have deps : ((t.insts i).awaits .mem .completion other).mark = { t.order.mark i with
      deps := fun g => (t.order.mark i).deps g ++ if g = .mem then [(.completion, other)] else [] } := by
    simp only [InflightInst.mark, InflightInst.awaits, Thread.order, InflightInst.staticInst,
      Mark.mk.injEq, true_and]
    funext g
    cases g <;> simp
  refine ⟨.overlap i other, trivial, ?_⟩
  have step : Order.Step cfg t.order (.overlap i other) _ := .overlap (by
    by_cases squashed : (t.insts i).squashed = true
    · exact Or.inl squashed
    · exact Or.inr (unsent (by simpa using squashed))) older issued allocated silent
  rw [← deps] at step
  simp only [Thread.order, Thread.update, update_of_ne ne] at marks step ⊢
  rw [marks]
  exact step

theorem Inv.refines (inv : Inv cfg t) (move : Move cfg o e t t') : Refines cfg o e t t' := by
  have core := inv.toCore
  cases move with
  | drop | enqueue | fill | refetch | fetchWord | stall | defer | transmit | pop
  | resolveUnpredicted | wake => exact .unseen rfl
  | decode idle word hit origin =>
    exact .set (t := { t with decoder := _, decodes := _ }) (a := .decode _) trivial
      (.decode idle.order_live idle.status)
  | @issue i before after idle back calls served origin =>
    refine ⟨.issue i, ⟨?_, served, ?_⟩, ?_⟩
    · rw [origin]
      rfl
    · rw [← calls, origin]
    · rw [order_enterIssue]
      refine .issue idle.order_live idle.status back (fun j mem => ?_) (inv.waits idle back)
      have none : Call.commitPop ∉ t.calls := by simp [calls]
      by_cases head : t.inflightInsts.head? = some j
      · have le := core.milestones.fired_le j .commit
        by_contra some
        refine none (core.buffer.popping.mpr ⟨j, head, ?_⟩)
        have nonzero : (t.insts j).fired .commit ≠ 0 := some
        simp only [Milestone.announcements] at le
        omega
      · exact core.buffer.uncommitted j mem head
  | extend can room active next => exact inv.refines_extend can _
  | reserve | predictStall | setAccess | execResult | loadResult | awaitMem =>
    exact .idle (marks_keep rfl) rfl rfl rfl rfl rfl rfl rfl
  | release => exact .unseen (order_freeBranchPredDepth { t with requests := _ })
  | @predictExtend i before after pc serves can calls room active micro =>
    let u := ({ t with requests := before ++ after } : Thread).holdSlot i
    have same : u.order = t.order := order_of_marks (marks_keep rfl) rfl rfl rfl rfl rfl rfl rfl
    obtain ⟨issued, unsquashed⟩ := inv.all_open fun l last => by
      obtain rfl : i = l := Option.some.inj (can.back.symm.trans last)
      exact ⟨can.issued, can.unsquashed⟩
    refine ⟨.fetch, trivial, ?_⟩
    rw [order_extend, same]
    exact .fetch issued unsquashed
  | enterTid idle calls ready =>
    exact .set (t := t) (a := .enter _) trivial (.enter idle.order_live idle.status)
  | @waitTid i idle calls unready =>
    refine ⟨.enter i, trivial, ?_⟩
    have same : ((t.setStatus i .issuedTid).update i
        (·.addReadyCallback .exec (.executeInstruction i))).order
        = t.order.set i { t.order.mark i with status := .issuedTid } := by
      have marks : (fun j => (Function.update (Function.update t.insts i
            { t.insts i with status := .issuedTid }) i
            ({ t.insts i with status := .issuedTid }.addReadyCallback .exec
              (.executeInstruction i)) j).mark)
          = Function.update t.order.mark i { t.order.mark i with status := .issuedTid } := by
        rw [update_idem, marks_update]
        rfl
      simp only [Thread.order, Order.set, Thread.update, Thread.setStatus,
        update_self] at marks ⊢
      rw [marks]
    rw [same]
    exact .enter idle.order_live idle.status
  | @execute i idle ready below origin =>
    refine ⟨.execute i, ⟨?_, ?_, _, by rw [origin]⟩, ?_⟩
    · rw [origin]
      rfl
    · rw [origin]
      have alive : t.alive i = true := alive_iff.mpr (Or.inl idle.mem)
      have live : t.live i = true := by simp [Thread.live, alive, idle.unsquashed]
      exact live
    · have marks : (fun j => (Function.update t.insts i ((t.insts i).passes .beginExec) j).mark)
          = Function.update t.order.mark i ((t.order.mark i).pass .beginExec) := marks_update ..
      have step : Order.Step cfg t.order (.execute i) _ := .execute idle.order_live idle.status
        (inv.due_exec idle.mem idle.unsquashed ready)
      simp only [Thread.order, Thread.notify, Thread.update, Thread.push] at marks step ⊢
      rwa [marks]
  | requestExecution idle once below =>
    exact .set (t := { t with requests := _, requested := _, calls := _ }) (a := .announce _) trivial
      (.announce idle.order_live idle.status once)
  | @complete i unsquashed allocated stage pending packets status calls served =>
    refine .set (t := { t with calls := _ }) (a := .complete _) served
      (.complete unsquashed allocated pending ?_)
    rcases status with ⟨mem, status, -, plain⟩ | ⟨mem, status, memRef⟩ | ⟨status, store⟩
    · exact Or.inl ⟨mem, status, plain⟩
    · exact Or.inr (Or.inl ⟨mem, status, memRef⟩)
    · exact Or.inr (Or.inr ⟨status, store⟩)
  | setPAddrs =>
    refine .idle (marks_keep ?_) rfl rfl rfl rfl rfl rfl rfl
    split <;> rfl
  | effAddr idle twice memRef calls =>
    exact .set (t := { t with calls := _ }) (a := .effAddr _) trivial
      (.effAddr idle.order_live idle.status)
  | sendLoad can load => exact inv.refines_send can (order_requestMem _ _)
  | @sendStore i vals can store =>
    refine inv.refines_send can ?_
    refine (order_requestMem ((t.enterMemory i).update i (·.setResults vals)) i).trans ?_
    exact order_of_marks (marks_keep rfl) rfl rfl rfl rfl rfl rfl rfl
  | @sendFault i f can store =>
    have idle := can.toIdle.enterMemory
    have sending := core.enterMemory can.toIdle can.ready
    obtain ⟨a, vs, buffer, eq⟩ := order_markFault sending idle.mem idle.unsquashed
      (can.quiet store) f
    refine ⟨.sendFault i, trivial, ?_⟩
    rw [eq, order_enterMemory]
    exact .sendFault buffer can.unsquashed
      (core.uncommitted can.mem can.unsquashed (by simp [can.status])) can.status can.memRef
      (inv.due_mem can)
  | @fault i f idle kind packets calls cause =>
    obtain ⟨a, vs, buffer, eq⟩ := order_markFault core idle.mem idle.unsquashed
      (by simp [Quiet, calls]) f
    refine ⟨.fault i, trivial, ?_⟩
    rw [eq]
    refine .fault buffer idle.unsquashed (core.uncommitted idle.mem idle.unsquashed ?_) kind
    intro done
    simp [done] at kind
  | decrement =>
    refine .unseen ?_
    unfold Thread.decrement
    split
    · dsimp only
      split
      · exact order_of_marks (marks_keep rfl) rfl rfl rfl rfl rfl rfl rfl
      · exact order_of_marks (marks_keep rfl) rfl rfl rfl rfl rfl rfl rfl
    · rfl
  | overlap calls kind fine => exact inv.refines_overlap calls kind fine
  | resolveCorrect calls predictor followed correct =>
    exact .unseen (order_freeBranchPredDepth { t with calls := _ })
  | @resolveWrong i rest calls predictor followed =>
    have resolving : Call.resolveControl i ∈ t.calls := by simp [calls]
    obtain ⟨mem, unsquashed⟩ := core.stack.protects _ resolving rfl i rfl
    obtain ⟨status, control, -⟩ := core.stack.resolving i resolving
    obtain ⟨a, vs, buffer, eq⟩ := order_resolveWrong core calls
    refine ⟨.squash i, trivial, ?_⟩
    have same : ({ (({ t with calls := rest } : Thread).freeBranchPredDepth).squashUpTo cfg i true
        with advanceInstNeedsRetry := false }).order
        = ((({ t with calls := rest } : Thread).freeBranchPredDepth).squashUpTo cfg i true).order :=
      rfl
    rw [same, eq]
    exact .squash buffer unsquashed status control
      (core.uncommitted mem unsquashed (by simp [status]))
  | @commit x front unsquashed status quiet =>
    refine .set (t := { t with tc := _, lastCommittedInstNum := _, commits := _, calls := _ })
      (a := .commit _) trivial (.commit front unsquashed ?_ status)
    refine core.uncommitted (List.mem_of_mem_head? front) unsquashed fun done => ?_
    simp [done] at status
  | @popFront rest calls =>
    obtain ⟨x, front, one⟩ := core.buffer.popping.mp (by simp [calls])
    obtain ⟨tail, buffer⟩ : ∃ tail, t.inflightInsts = x :: tail := List.head?_eq_some_iff.mp front
    refine ⟨.pop, trivial, ?_⟩
    have same : ({ t with calls := rest, inflightInsts := t.inflightInsts.tail } : Thread).order
        = { t.order with buffer := tail } := by
      simp [Thread.order, buffer]
    rw [same]
    exact .pop buffer one
  | @reset x f buffer squashed fault quiet => exact ⟨.reset, trivial, .reset buffer squashed⟩

/-- What holds in a state of the invariant and is kept by the steps of the ordering
machine that guarded runs take holds after every guarded run from there. -/
theorem Inv.ordered {guard : Thread → Event → Prop} {P : Order → Prop} {start : Thread}
    (inv : Inv cfg start) (run : Runs.Reaches (Thread.step cfg) guard start t)
    (holds : P start.order) (step : ∀ o e t a s, guard o e → Inv cfg t → Caused o e t a → P t.order
    → Order.Step cfg t.order a s → P s) : P t.order := by
  refine inv.invariant (P := fun t => P t.order) run holds (fun _ _ holds => holds) ?_
  intro o e t t' _ _ ok inv holds move
  obtain ⟨a, caused, one⟩ := inv.refines move
  exact step o e t a _ ok inv caused holds one

theorem Guarded.ordered {tc : ThreadContext} {guard : Thread → Event → Prop} {P : Order → Prop}
    (run : Guarded cfg tc guard t) (start : P (Thread.init cfg tc).order) (step : ∀ o e t a s, guard
    o e → Inv cfg t → Caused o e t a → P t.order → Order.Step cfg t.order a s → P s) : P t.order :=
  (Inv.init cfg tc).ordered run start step

end Moves

end Gem5.FlexCPU
