import Gem5.FlexCPU.CoreCalls

/-!
# Announcing a milestone

`notifyExecuting`, `notifyEffAddrCalculated`, `notifyComplete` and
`notifyCommitted` write the status and then run the callbacks of their milestone.
-/

namespace Gem5.FlexCPU

open Thread List

/-- The objects after `i` has passed a milestone. -/
def pass (insts : Insts) (i : InstId) (m : Milestone) : Insts :=
  Function.update insts i ((insts i).passes m)

section Pass

variable (insts : Insts) (i j : InstId) (m : Milestone)

@[simp] theorem pass_squashed : (pass insts i m j).squashed = (insts j).squashed :=
  keep (x := (insts i).passes m) (·.squashed) rfl j

@[simp] theorem pass_deps : (pass insts i m j).deps = (insts j).deps :=
  keep (x := (insts i).passes m) (·.deps) rfl j

@[simp] theorem pass_remaining : (pass insts i m j).remaining = (insts j).remaining :=
  keep (x := (insts i).passes m) (·.remaining) rfl j

@[simp] theorem pass_callbacks : (pass insts i m j).callbacks = (insts j).callbacks :=
  keep (x := (insts i).passes m) (·.callbacks) rfl j

@[simp] theorem pass_onReady : (pass insts i m j).onReady = (insts j).onReady :=
  keep (x := (insts i).passes m) (·.onReady) rfl j

@[simp] theorem pass_instRef : (pass insts i m j).instRef = (insts j).instRef :=
  keep (x := (insts i).passes m) (·.instRef) rfl j

@[simp] theorem pass_staticInst : (pass insts i m j).staticInst = (insts j).staticInst :=
  keep (x := (insts i).passes m) (·.staticInst) rfl j

@[simp] theorem pass_squashCallbacks :
    (pass insts i m j).squashCallbacks = (insts j).squashCallbacks :=
  keep (x := (insts i).passes m) (·.squashCallbacks) rfl j

@[simp] theorem pass_fault : (pass insts i m j).fault = (insts j).fault :=
  keep (x := (insts i).passes m) (·.fault) rfl j

@[simp] theorem pass_seqNum : (pass insts i m j).seqNum = (insts j).seqNum :=
  keep (x := (insts i).passes m) (·.seqNum) rfl j

@[simp] theorem pass_status_self : (pass insts i m i).status = m.status := by
  simp [pass, InflightInst.passes]

theorem pass_self : pass insts i m i = (insts i).passes m := by
  simp [pass]

theorem pass_of_ne {j : InstId} (ne : j ≠ i) : pass insts i m j = insts j := by
  simp [pass, ne]

theorem pass_fired_self : (pass insts i m i).fired m = (insts i).fired m + 1 := by
  simp [pass, InflightInst.passes]

theorem pass_fired_other {m' : Milestone} (ne : m' ≠ m) :
    (pass insts i m j).fired m' = (insts j).fired m' :=
  keep (x := (insts i).passes m) (·.fired m') (by simp [InflightInst.passes, ne]) j

end Pass

/-- The stack after an announcement. -/
def announced (x : InflightInst) (m : Milestone) (after calls : List Call) : List Call :=
  (x.callbacks m).map .run ++ after ++ calls

section Groups

variable {insts : Insts} {buf : List InstId} {reqs : List Request} {calls after : List Call}
  {next i : InstId} {m : Milestone}

theorem mem_announced {x : InflightInst} {c : Call} :
    c ∈ announced x m after calls ↔
      (∃ cb ∈ x.callbacks m, c = .run cb) ∨ c ∈ after ∨ c ∈ calls := by
  simp only [announced]
  constructor
  · grind
  · grind

theorem Callbacks.shape (h : Callbacks insts) {cb : Callback} (mem : cb ∈ (insts i).callbacks m) :
    (Call.run cb).carries = false ∧ (Call.run cb).protects = false ∧ cb ≠ .releaseIfIncomplete i := by
  by_cases eff : m = .effAddr
  · subst eff
    have := h.effAddr i cb mem
    unfold EffAddrCallback at this
    split at this <;> simp_all [Call.carries, Call.protects]
  · obtain ⟨g, c, rfl⟩ := h.plain m i eff cb mem
    simp [Call.carries, Call.protects]

theorem Callbacks.child_lt (h : Callbacks insts) (heap : Heap insts buf reqs calls next)
    {g : Gate} {c : InstId} (mem : .decrement g c ∈ (insts i).callbacks m) : i < c := by
  have listed : (m, i) ∈ (insts c).deps g := by
    rw [← count_pos_iff, ← h.registered]
    exact List.count_pos_iff.mpr mem
  exact heap.parents_lt c g _ listed

theorem owed_notify (h : Callbacks insts) (due_ : (insts i).fired m < m.announcements)
    (other : ∀ c ∈ after, c.decrements = false) (g : Gate) (c : InstId) :
    owed (pass insts i m) (announced (insts i) m after calls) g c = owed insts calls g c := by
  have deps : (pass insts i m c).deps = (insts c).deps :=
    pass_deps ..
  have announce : Latch.due (fun d : Milestone × InstId => d.1.announcements)
        (fun d => (pass insts i m d.2).fired d.1) ((insts c).deps g)
        + ((insts c).deps g).count (m, i)
      = Latch.due (fun d : Milestone × InstId => d.1.announcements)
        (fun d => (insts d.2).fired d.1) ((insts c).deps g) := by
    refine Latch.due_announce (e := (m, i)) due_ (pass_fired_self insts i m) ?_ _
    rintro ⟨m', j⟩ ne
    by_cases at_i : j = i
    · grind [pass_fired_other]
    · rw [pass_of_ne insts i m at_i]
  have run : ((insts i).callbacks m |>.map Call.run).count (.run (.decrement g c))
      = ((insts c).deps g).count (m, i) := by
    rw [← h.registered]
    exact count_map_of_injective _ _ (fun _ _ same => by simpa using same) _
  have stack : (announced (insts i) m after calls).count (.run (.decrement g c))
      = ((insts c).deps g).count (m, i) + calls.count (.run (.decrement g c)) := by
    rw [announced, List.append_assoc, count_append, run, count_push_other other]
  unfold owed due
  rw [stack, deps]
  omega

theorem surplus_notify (g : Gate) (c : InstId) : surplus (pass insts i m) g c = surplus insts g c :=
  surplus_congr (pass_deps ..)

theorem Heap.notify (h : Heap insts buf reqs calls next) (exists_ : i < next)
    (lt : ∀ c ∈ after, ∀ j, c.inst = some j → j < next) :
    Heap (pass insts i m) buf reqs (announced (insts i) m after calls) next  where
  ordered := h.ordered
  bounded := h.bounded
  fresh j old := by
    have ne : j ≠ i := (Nat.lt_of_lt_of_le exists_ old).ne'
    simpa [pass_of_ne insts i m ne] using h.fresh j old
  allocated j new := by
    by_cases at_i : j = i
    · subst at_i
      cases m <;> simp [Milestone.status]
    · simpa [pass_of_ne insts i m at_i] using h.allocated j new
  requests_lt := h.requests_lt
  calls_lt c mem j inst := by
    rcases mem_announced.mp mem with ⟨cb, listed, rfl⟩ | added | old
    · exact h.callbacks_lt i m cb listed j inst
    · exact lt c added j inst
    · exact h.calls_lt c old j inst
  callbacks_lt p m' := by
    rw [pass_callbacks]
    exact h.callbacks_lt p m'
  parents_lt c g := by
    rw [pass_deps]
    exact h.parents_lt c g
  newest j mem early := by
    by_cases at_i : j = i
    · subst at_i
      cases m <;> simp [Milestone.status, Status.lt_iff, Status.rank] at early
    · exact h.newest j mem (by simpa [pass_of_ne insts i m at_i] using early)

theorem Counters.notify (h : Counters insts buf reqs calls) (callbacks : Callbacks insts)
    (due_ : (insts i).fired m < m.announcements) (other : ∀ c ∈ after, c.decrements = false) :
    Counters (pass insts i m) buf reqs (announced (insts i) m after calls) := by
  intro c mem unsquashed g
  have old := h c mem (by rwa [pass_squashed] at unsquashed) g
  unfold Exact at old ⊢
  rwa [owed_notify callbacks due_ other, surplus_notify, pass_remaining]

theorem Milestones.notify (h : Milestones insts buf next)
    (due_ : (insts i).fired m < m.announcements)
    (later : ∀ m' : Milestone, m' ≠ .commit → m.status < m'.status → (insts i).status < m'.status)
    (decoded : Status.decoded ≤ (insts i).status)
    (inside : i ∈ buf → m ≠ .commit → (insts i).status ≠ .committed) (outside : i ∉ buf → (insts
    i).squashed = false → m = .completion ∧ (insts i).staticInst.isStore = true) :
    Milestones (pass insts i m) buf next  where
  fired_le j m' := by
    by_cases at_i : j = i
    · subst at_i
      have := h.fired_le j m'
      by_cases same : m' = m
      · grind [pass_fired_self]
      · simpa [pass_fired_other insts j j m same] using this
    · simpa [pass_of_ne insts i m at_i] using h.fired_le j m'
  fired_zero j m' unsquashed notCommit early := by
    by_cases at_i : j = i
    · subst at_i
      have lt : m.status < m'.status := by simpa using early
      have ne : m' ≠ m := by
        rintro rfl
        exact Nat.lt_irrefl _ lt
      have := h.fired_zero j m' (by simpa using unsquashed) notCommit
        (later m' notCommit lt)
      simpa [pass_fired_other insts j j m ne] using this
    · simp only [pass_of_ne insts i m at_i] at unsquashed early ⊢
      exact h.fired_zero j m' unsquashed notCommit early
  committed_iff j mem unsquashed := by
    by_cases at_i : j = i
    · subst at_i
      have old := h.committed_iff j mem (by simpa using unsquashed)
      by_cases commit : m = .commit
      · subst commit
        have zero : (insts j).fired .commit = 0 := by
          simpa [Milestone.announcements] using due_
        simp [Milestone.status, pass_fired_self, zero]
      · have ne := inside mem commit
        have notFired : (insts j).fired .commit ≠ 1 := fun fired => ne (old.mpr fired)
        have status : m.status ≠ .committed := by cases m <;> simp_all [Milestone.status]
        simp [pass_fired_other insts j j m (Ne.symm commit), notFired, status]
    · simpa [pass_of_ne insts i m at_i] using h.committed_iff j mem (by simpa using unsquashed)
  left j lt gone unsquashed := by
    by_cases at_i : j = i
    · subst at_i
      have alive : (insts j).squashed = false := by simpa using unsquashed
      obtain ⟨rfl, store⟩ := outside gone alive
      have fired := (h.left j lt gone alive).1
      exact ⟨by simpa [pass_fired_other] using fired, .inr ⟨by simpa using store, by
        simp [Milestone.status]⟩⟩
    · simpa [pass_of_ne insts i m at_i] using h.left j lt gone (by simpa using unsquashed)
  unissued j early := by
    by_cases at_i : j = i
    · subst at_i
      cases m <;> simp [Milestone.status, Status.lt_iff, Status.rank] at early
    · simpa using h.unissued j (by simpa [pass_of_ne insts i m at_i] using early)
  decoded j := by
    by_cases at_i : j = i
    · subst at_i
      have some := (h.decoded j).mpr decoded
      cases m <;>
        simpa [Milestone.status, Status.le_iff, Status.rank] using some
    · simpa [pass_of_ne insts i m at_i] using h.decoded j

theorem Tokens.notify (h : Tokens insts reqs calls) (callbacks : Callbacks insts)
    (due_ : (insts i).fired m < m.announcements) (none : stage reqs calls i = 0)
    (other : ∀ c ∈ after, c.decrements = false)
    (carried : ∀ c ∈ after, c.carries = true → c.inst = some i ∧ c.Fits ((insts i).passes m))
    (atMost : after.countP Call.carries ≤ 1) (inert : ∀ r ∈ reqs, r.inst = i → r.carries = false →
    (insts i).squashed = false → r.Fits ((insts i).passes m))
    (exec : (insts i).onReady .exec ≠ [] → owed insts calls .exec i ≤ surplus insts .exec i) (mem :
    (insts i).onReady .mem ≠ [] → Status.effAddred ≤ m.status ∧ owed insts calls .mem i = 0) :
    Tokens (pass insts i m) reqs (announced (insts i) m after calls) := by
  have tokens := not_token_of_stage none
  have quiet : ∀ c ∈ (insts i).callbacks m |>.map Call.run, c.carries = false := by
    intro c inside
    obtain ⟨cb, listed, rfl⟩ := List.mem_map.mp inside
    exact (callbacks.shape listed).1
  have count : ∀ j, stage reqs (announced (insts i) m after calls) j
      = stage reqs calls j + after.countP (Call.isToken j) := by
    intro j
    rw [announced, List.append_assoc, stage_push_inert quiet, stage_push]
  have elsewhere : ∀ j, j ≠ i → after.countP (Call.isToken j) = 0 := by
    intro j ne
    refine List.countP_eq_zero.mpr fun c inside token => ?_
    obtain ⟨carries, inst⟩ := Call.isToken_iff.mp token
    rw [(carried c inside carries).1] at inst
    exact ne (by simpa using inst.symm)
  have here : after.countP (Call.isToken i) ≤ 1 :=
    (countP_mono_left fun c _ token => (Call.isToken_iff.mp token).1).trans atMost
  refine ⟨fun j unsquashed => ?_, fun r inside unsquashed => ?_, fun c inside j inst unsquashed => ?_,
    fun j unsquashed ready => ?_, fun j unsquashed ready => ?_⟩
  · rw [count]
    by_cases at_i : j = i
    · subst at_i
      omega
    · have := h.single j (by simpa using unsquashed)
      rw [elsewhere j at_i]
      omega
  · by_cases at_i : r.inst = i
    · subst at_i
      have plain : r.carries = false := by
        simpa [Request.isToken] using tokens.1 r inside
      rw [pass_self]
      exact inert r inside rfl plain (by simpa using unsquashed)
    · simpa [pass_of_ne insts i m at_i] using h.request_fits r inside (by simpa using unsquashed)
  · rcases mem_announced.mp inside with ⟨cb, listed, rfl⟩ | added | old
    · have := (callbacks.shape listed).1
      unfold Call.Fits
      split <;> simp_all [Call.carries]
    · by_cases carries : c.carries = true
      · grind [pass_self]
      · unfold Call.Fits
        split <;> simp_all [Call.carries]
    · by_cases at_i : j = i
      · subst at_i
        unfold Call.Fits
        split <;> simp_all [Call.isToken, Call.carries]
      · simpa [pass_of_ne insts i m at_i] using h.call_fits c old j inst (by simpa using unsquashed)
  · rw [owed_notify callbacks due_ other, surplus_notify, count]
    by_cases at_i : j = i
    · subst at_i
      have ready' : (insts j).onReady .exec ≠ [] := by simpa using ready
      refine ⟨?_, fun closed => absurd closed (Nat.not_lt.mpr (exec ready'))⟩
      cases m <;> simp [Milestone.status, Status.le_iff, Status.rank]
    · have := h.waiting_exec j (by simpa using unsquashed) (by simpa using ready)
      rw [elsewhere j at_i]
      simpa [pass_of_ne insts i m at_i] using this
  · rw [owed_notify callbacks due_ other, count]
    by_cases at_i : j = i
    · simp_all
    · have := h.waiting_mem j (by simpa using unsquashed) (by simpa using ready)
      rw [elsewhere j at_i]
      simpa [pass_of_ne insts i m at_i] using this

theorem Stores.notify (h : Stores insts buf) (issued : Status.issued ≤ (insts i).status)
    (other : m ≠ .commit) : Stores (pass insts i m) buf := by
  intro c mem unsquashed store late p memP lt zero
  have fired : ∀ j, (pass insts i m j).fired .commit
      = (insts j).fired .commit :=
    fun j => pass_fired_other insts i j m (Ne.symm other)
  have old : Status.issued ≤ (insts c).status := by
    by_cases at_i : c = i
    · exact at_i ▸ issued
    · simpa [pass_of_ne insts i m at_i] using late
  rw [pass_squashed] at unsquashed
  rw [pass_staticInst] at store
  rw [fired] at zero
  obtain ⟨q, le, dep, uncommitted⟩ := h c mem unsquashed store old p memP lt zero
  exact ⟨q, le, by rwa [pass_deps], by rwa [fired]⟩

theorem Lasts.notify {serializing barrier : Option InstId} {uses : RegId → DataSource}
    (h : Lasts insts serializing barrier uses next) :
    Lasts (pass insts i m) serializing barrier uses next :=
  h.congr fun j issued => by
    by_cases at_i : j = i
    · subst at_i
      cases m <;> simp [Milestone.status, Status.le_iff, Status.rank]
    · simpa [pass_of_ne insts i m at_i] using issued

theorem Milestone.issued_le (m : Milestone) : Status.issued ≤ m.status := by
  cases m <;> simp [Milestone.status, Status.le_iff, Status.rank]

theorem issued_pass {j : InstId} (issued : Status.issued ≤ (insts j).status) :
    Status.issued ≤ (pass insts i m j).status := by
  by_cases at_i : j = i
  · subst at_i
    simpa using m.issued_le
  · rwa [pass_of_ne insts i m at_i]

theorem resolve_mem_announced (callbacks : Callbacks insts) {c : Call} (protects : c.protects = true)
    (mem : c ∈ announced (insts i) m after calls) : c ∈ after ++ calls := by
  rcases mem_announced.mp mem with ⟨cb, listed, rfl⟩ | added | old
  · simp [(callbacks.shape listed).2.1] at protects
  · exact mem_append_left _ added
  · exact mem_append_right _ old

theorem commitPop_mem_announced {x : InflightInst} :
    Call.commitPop ∈ announced x m after calls ↔ Call.commitPop ∈ after ++ calls := by
  simp [mem_announced]

theorem Stack.notify (h : Stack insts buf calls) (callbacks : Callbacks insts)
    (below : ∀ cb ∈ (insts i).callbacks m, ∀ b ∈ after ++ calls, Call.Above (.run cb) b)
    (order : (after ++ calls).Pairwise Call.Above)
    (needs : Tails.EachTail Call.Needs (announced (insts i) m after calls)) (protects : ∀ c ∈ after,
    c.protects = true → ∀ j, c.inst = some j → j ∈ buf ∧ (insts j).squashed = false) (resolving : ∀
    j, .resolveControl j ∈ after ++ calls → (pass insts i m j).status = .complete ∧ (insts
    j).staticInst.isControl = true ∧ .commitPop ∉ after ++ calls) :
    Stack (pass insts i m) buf (announced (insts i) m after calls)  where
  above := by
    rw [announced, List.append_assoc]
    refine List.pairwise_append.mpr ⟨?_, order, ?_⟩
    · rw [pairwise_map]
      exact pairwise_of_forall fun _ _ => trivial
    · grind
  needs := needs
  protects c mem kind j inst := by
    rw [pass_squashed]
    rcases List.mem_append.mp (resolve_mem_announced callbacks kind mem) with added | old
    · exact protects c added kind j inst
    · exact h.protects c old kind j inst
  resolving j mem := by
    obtain ⟨status, control, pop⟩ := resolving j (resolve_mem_announced callbacks rfl mem)
    exact ⟨status, by simpa using control, fun inside => pop (commitPop_mem_announced.mp inside)⟩

theorem Buffer.notify {lastCommitted max : Nat} {tcStatus : TCStatus}
    (h : Buffer insts buf calls lastCommitted max tcStatus) (other : m ≠ .commit)
    (pop : Call.commitPop ∉ after) :
    Buffer (pass insts i m) buf (announced (insts i) m after calls) lastCommitted max tcStatus := by
  have popIff : Call.commitPop ∈ announced (insts i) m after calls ↔ Call.commitPop ∈ calls := by
    simp [commitPop_mem_announced, pop]
  have fired : ∀ j, (pass insts i m j).fired .commit = (insts j).fired .commit :=
    fun j => pass_fired_other insts i j m (Ne.symm other)
  exact
    { issued := fun j mem notLast => issued_pass (h.issued j mem notLast)
      squashed := by simpa only [pass_squashed, pass_fault, fired] using h.squashed
      size := h.size
      numbered := by simpa only [pass_seqNum, popIff] using h.numbered
      active := h.active
      popping := by simpa only [fired, popIff] using h.popping
      uncommitted := by simpa only [fired] using h.uncommitted }

theorem Control.notify {retry hasPredictor : Bool} {unpredicted : Option InstId}
    (h : Control insts buf reqs calls retry unpredicted hasPredictor) (callbacks : Callbacks insts)
    (issued : Status.issued ≤ (insts i).status) (resolves : ∀ j, .resolveControl j ∈ after → j = i)
    (pending : (insts i).staticInst.isControl = true → (m.status < .complete ∨ .resolveControl i ∈
    after) → (insts i).status < .complete) :
    Control (pass insts i m) buf reqs (announced (insts i) m after calls) retry unpredicted
      hasPredictor  where
  followed j mem unsquashed control late wait last := by
    simp only [pass_squashed, pass_staticInst, Predicted, pass_squashCallbacks]
      at unsquashed control ⊢
    have resolve := fun inside : Call.resolveControl j ∈ announced (insts i) m after calls =>
      List.mem_append.mp (resolve_mem_announced callbacks rfl inside)
    by_cases at_i : j = i
    · subst at_i
      refine h.followed j mem unsquashed control issued ?_ last
      rcases wait with early | inside
      · exact .inl (pending control (.inl (by simpa using early)))
      · grind
    · rw [pass_of_ne insts i m at_i] at late wait
      refine h.followed j mem unsquashed control late (wait.imp_right fun inside => ?_) last
      exact (resolve inside).resolve_left fun added => at_i (resolves j added)
  asked j mem unsquashed := by
    obtain ⟨predictor, control, late, unpredicted, once⟩ :=
      h.asked j mem (by simpa using unsquashed)
    exact ⟨predictor, by simpa using control, issued_pass late,
      by simpa [Predicted] using unpredicted, once⟩
  predicted j := by simpa only [Predicted, pass_squashCallbacks] using h.predicted j
  squashCallbacks j := by simpa only [pass_squashCallbacks] using h.squashCallbacks j
  waiting u ptr := by
    obtain ⟨predictor, control, late, free⟩ := h.waiting u ptr
    exact ⟨predictor, by simpa using control, issued_pass late, by simpa [Predicted] using free⟩
  retrying on j last := by
    obtain ⟨late, unsquashed⟩ := h.retrying on j last
    exact ⟨issued_pass late, by simpa using unsquashed⟩

theorem needs_plain (callbacks : Callbacks insts) (plain : m ≠ .effAddr)
    (rest : Tails.EachTail Call.Needs (after ++ calls)) :
    Tails.EachTail Call.Needs (announced (insts i) m after calls) := by
  rw [announced, List.append_assoc]
  have trivial_ : ∀ c ∈ (insts i).callbacks m |>.map Call.run, ∀ below, Call.Needs c below := by
    intro c mem below
    obtain ⟨cb, listed, rfl⟩ := List.mem_map.mp mem
    obtain ⟨g, child, rfl⟩ := callbacks.plain m i plain cb listed
    trivial
  exact Tails.eachTail_append (Tails.eachTail_of_forall trivial_) rest
    fun c mem below _ => trivial_ c mem _

end Groups

end Gem5.FlexCPU
