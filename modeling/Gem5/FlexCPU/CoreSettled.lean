import Gem5.FlexCPU.CoreWrites

/-!
# Sent references wait for nothing

The memory counter of an instruction that has been sent to memory is zero and stays
zero. With this group the invariant is complete.
-/

namespace Gem5.FlexCPU

open Thread

section Groups

variable {insts insts' : Insts} {i : InstId} {x : InflightInst}

theorem Settled.mono (h : Settled insts) (each : ∀ j, (insts' j).squashed = false → 0 < (insts'
    j).remaining .mem → ((insts j).squashed = false ∧ (insts' j).remaining .mem = (insts
    j).remaining .mem) ∧ (insts' j).instRef = (insts j).instRef ∧ (insts' j).status = (insts
    j).status) : Settled insts' := by
  intro j unsquashed more
  obtain ⟨⟨old, count⟩, static, status⟩ := each j unsquashed more
  obtain ⟨memRef, early⟩ := h j old (count ▸ more)
  rw [status]
  exact ⟨(congrArg (fun r => (r.getD .nop).isMemRef) static).trans memRef, early⟩

theorem Settled.change (h : Settled insts) (new : x.squashed = false → 0 < x.remaining .mem →
    x.staticInst.isMemRef = true ∧ x.status < .memorying) :
    Settled (Function.update insts i x) := by
  intro j
  by_cases self : j = i
  · subst self
    simpa using new
  · simpa [self] using h j

theorem Settled.update (h : Settled insts) (squashed : x.squashed = (insts i).squashed)
    (remaining : x.remaining .mem = (insts i).remaining .mem)
    (static : x.instRef = (insts i).instRef)
    (status : x.status = (insts i).status ∨ x.status < .memorying) :
    Settled (Function.update insts i x) := by
  refine h.change fun unsquashed more => ?_
  obtain ⟨memRef, early⟩ := h i (squashed ▸ unsquashed) (remaining ▸ more)
  refine ⟨(congrArg (fun r => (r.getD .nop).isMemRef) static).trans memRef, ?_⟩
  rcases status with same | low
  · rwa [same]
  · exact low

theorem Settled.zero (h : Settled insts) (unsquashed : (insts i).squashed = false)
    (done : (insts i).staticInst.isMemRef = false ∨ Status.memorying ≤ (insts i).status) :
    (insts i).remaining .mem = 0 := by
  by_contra more
  obtain ⟨memRef, early⟩ := h i unsquashed (Nat.pos_of_ne_zero more)
  rcases done with plain | late
  · rw [plain] at memRef
    cases memRef
  · exact absurd late (Nat.not_le.mpr early)

theorem Settled.flaggedAll (h : Settled insts) (vs : List InstId) :
    Settled (flaggedAll insts vs) := by
  refine h.mono fun j unsquashed _ => ?_
  by_cases victim : j ∈ vs
  · simp [FlexCPU.flaggedAll, victim] at unsquashed
  · grind [FlexCPU.flaggedAll]

end Groups

section Moves

variable {cfg : Config} {o : Thread} {e : Event} {t t' : Thread} {i : InstId}

theorem Settled.freeBranchPredDepth (h : Settled t.insts) :
    Settled t.freeBranchPredDepth.insts := by
  rcases t.freeBranchPredDepth_cases with ⟨u, -, -, -, -, eq⟩ | ⟨waiting, -, eq⟩
  · rw [eq]
    exact h.update rfl rfl rfl (Or.inl rfl)
  · rw [eq]
    exact h

theorem Settled.extend {pc : PCState} (h : Settled t.insts) : Settled (t.extend pc).insts :=
  h.change fun _ more => absurd more (Nat.lt_irrefl 0)

theorem Settled.markFault (h : Settled t.insts) (core : Core cfg t) (mem : i ∈ t.inflightInsts)
    (unsquashed : (t.insts i).squashed = false) (quiet : t.Quiet) (f : Fault) :
    Settled (t.markFault cfg i f).insts := by
  obtain ⟨a, vs, w, -, -, eq⟩ := markFault_spec core mem unsquashed quiet f
  rw [eq]
  refine Settled.flaggedAll ?_ _
  exact h.update rfl rfl rfl (Or.inl rfl)

theorem memRef_of_rule {m : Milestone} {p : InstId}
    (rule : .depend .mem m p ∈ t.dependencyRules cfg i) :
    (t.insts i).staticInst.isMemRef = true := by
  by_contra plain
  have plain : (t.insts i).staticInst.isMemRef = false := by simpa using plain
  have load : (t.insts i).staticInst.isStore = false := by
    by_contra store
    have := (t.insts i).staticInst.store_memRef (by simpa using store)
    rw [plain] at this
    cases this
  simp [dependencyRules, inOrderRules, serializationRules, barrierRules, nonSpeculativeRules,
    memoryOrderRules, storeAtCommitRules, dataRules, onPrevious, plain, load] at rule

theorem Settled.issue (h : Settled t.insts) (idle : t.Idle i .decoded) :
    Settled (t.enterIssue cfg i).insts := by
  rw [Thread.enterIssue_eq]
  have others : Settled (issuedInsts cfg t i) := by
    intro j unsquashed more
    by_cases self : j = i
    · subst self
      refine ⟨?_, by simp [issuedInsts, Status.lt_iff, Status.rank]⟩
      have static : (issuedInsts cfg t j j).staticInst = (t.insts j).staticInst :=
        restatus_staticInst ..
      rw [static]
      by_cases before : 0 < (t.insts j).remaining .mem
      · exact (h j idle.unsquashed before).1
      · have zero : (t.insts j).remaining .mem = 0 := Nat.eq_zero_of_not_pos before
        have some : 0 < (((t.dependencyRules cfg j).filter
            (Registration.accepted t.insts)).filterMap (Registration.dependency .mem)).length := by
          simpa [issuedInsts, enrolled, zero] using more
        obtain ⟨⟨m, p⟩, mem⟩ := List.exists_mem_of_length_pos some
        obtain ⟨r, inside, eq⟩ := List.mem_filterMap.mp mem
        cases r with
        | callback => simp [Registration.dependency] at eq
        | depend g m' p' => grind [Registration.dependency, memRef_of_rule]
    · have same : issuedInsts cfg t i j = enrolled t.insts i
          ((t.dependencyRules cfg i).filter (Registration.accepted t.insts)) j := by
        simp [issuedInsts, enrolled, restatus, self]
      rw [same] at unsquashed more ⊢
      exact h j unsquashed (by simpa [enrolled, self] using more)
  have numbered : Settled (Function.update (issuedInsts cfg t i) i (issuedInst cfg t i)) :=
    others.update rfl rfl rfl (Or.inl rfl)
  exact numbered

theorem live_unsquashed (live : t.live i = true) :
    t.alive i = true ∧ (t.insts i).squashed = false := by
  simpa [Thread.live] using live

theorem Inv.overlap_unsent (inv : Inv cfg t) {cb : Callback} {rest : List Call} {other : InstId}
    (calls : t.calls = .run cb :: rest)
    (kind : cb = .overlapKnown i other ∨ cb = .overlapOurs i other ∨ cb = .overlapTheirs i other)
    (changed : ({ t with calls := rest }).runCallback cfg cb ≠ { t with calls := rest })
    (unsquashed : (t.insts i).squashed = false) :
    (t.insts i).staticInst.isMemRef = true ∧ (t.insts i).status < .memorying := by
  have needs : Call.Needs (.run cb) rest := by
    have := inv.stack.needs
    rw [calls] at this
    exact this.1
  have waiting : .afterEffAddr i ∈ rest →
      (t.insts i).staticInst.isMemRef = true ∧ (t.insts i).status < .memorying := by
    intro below
    obtain ⟨status, memRef, -⟩ :=
      inv.tokens.call_fits (.afterEffAddr i) (by simp [calls, below]) i rfl unsquashed
    exact ⟨memRef, by simp [status, Status.lt_iff, Status.rank]⟩
  rcases kind with rfl | rfl | rfl
  · exact waiting needs.1
  · exact waiting needs.1
  · have live : ({ t with calls := rest } : Thread).live i = true := by
      by_contra dead
      exact changed (by simp [Thread.runCallback, dead])
    have held : Held t.inflightInsts t.requests i := alive_iff.mp (live_unsquashed live).1
    refine inv.settled i unsquashed ?_
    have pending : 0 < t.calls.count (.run (.decrement .mem i)) :=
      List.count_pos_iff.mpr (by simp [calls, needs.1])
    have none := inv.toCore.surplus_mem i
    rcases inv.counters i held unsquashed .mem with ⟨-, eq⟩ | ⟨lt, -⟩
    · rw [eq, none]
      unfold owed
      omega
    · omega

theorem Inv.settledMove (inv : Inv cfg t) (move : Move cfg o e t t') : Settled t'.insts := by
  have h := inv.settled
  have core := inv.toCore
  cases move with
  | @decode i decoder si pc idle word hit origin =>
    have none : (t.insts i).instRef = none := by
      by_contra known
      have := (core.milestones.decoded i).mp (Option.isSome_iff_ne_none.mpr known)
      rw [idle.status] at this
      simp [Status.le_iff, Status.rank] at this
    have plain : (t.insts i).staticInst.isMemRef = false := by
      simp [InflightInst.staticInst, none, StaticInst.nop]
    have zero := h.zero idle.unsquashed (Or.inl plain)
    exact h.change fun _ more => absurd zero (Nat.ne_of_gt more)
  | issue idle back calls served origin => exact h.issue idle
  | extend => exact h.extend
  | reserve | predictStall | setAccess | execResult | loadResult | awaitMem =>
    exact h.update rfl rfl rfl (Or.inl rfl)
  | release => exact Settled.freeBranchPredDepth (t := { t with requests := _ }) h
  | predictExtend =>
    refine Settled.extend ?_
    exact h.update rfl rfl rfl (Or.inl rfl)
  | enterTid => exact h.update rfl rfl rfl (Or.inr (by simp [Status.lt_iff, Status.rank]))
  | waitTid =>
    refine Settled.update ?_ rfl rfl rfl (Or.inl rfl)
    exact h.update rfl rfl rfl (Or.inr (by simp [Status.lt_iff, Status.rank]))
  | execute | requestExecution | effAddr =>
    exact h.update rfl rfl rfl
      (Or.inr (by simp [InflightInst.passes, Milestone.status, Status.lt_iff, Status.rank]))
  | @complete i unsquashed allocated stage pending packets status calls served =>
    have zero : (t.insts i).remaining .mem = 0 := by
      refine h.zero unsquashed ?_
      rcases status with ⟨-, -, -, plain⟩ | ⟨-, status, -⟩ | ⟨status, -⟩
      · exact Or.inl plain
      · right
        simp [status, Status.le_iff]
      · right
        simp [status, Status.le_iff, Status.rank]
    exact h.change fun _ more => absurd zero (Nat.ne_of_gt more)
  | setPAddrs =>
    refine h.update ?_ ?_ ?_ (Or.inl ?_)
    all_goals split <;> rfl
  | sendLoad can load =>
    obtain ⟨new, eq, -⟩ := requestMem_packets (t.enterMemory _) _
    rw [eq]
    exact h.change fun _ more => absurd can.ready (Nat.ne_of_gt more)
  | @sendStore i vals can store =>
    obtain ⟨new, eq, -⟩ := requestMem_packets ((t.enterMemory i).update i (·.setResults vals)) i
    rw [eq]
    refine Settled.update ?_ rfl rfl rfl (Or.inl rfl)
    exact h.change fun _ more => absurd can.ready (Nat.ne_of_gt more)
  | @sendFault i f can store =>
    have sent : Settled (t.enterMemory i).insts :=
      h.change fun _ more => absurd can.ready (Nat.ne_of_gt more)
    have idle := can.toIdle.enterMemory
    exact sent.markFault (core.enterMemory can.toIdle can.ready) idle.mem idle.unsquashed
      (can.quiet store) f
  | fault idle kind packets calls cause =>
    exact h.markFault core idle.mem idle.unsquashed (by simp [Quiet, calls]) _
  | @decrement g c rest calls =>
    unfold Thread.decrement
    split
    · rename_i alive
      have held : Held t.inflightInsts t.requests c := alive_iff.mp alive
      have lower : Settled (Function.update t.insts c ((t.insts c).decrement g)) := by
        refine h.change fun unsquashed more => ?_
        refine h c unsquashed ?_
        by_cases same : g = .mem
        · subst same
          have none := core.surplus_mem c
          rcases core.counters c held unsquashed .mem with ⟨-, eq⟩ | ⟨lt, -⟩
          · rw [calls, owed_cons_decrement] at eq
            simp only [and_self, if_true] at eq
            omega
          · omega
        · simpa [InflightInst.decrement, Ne.symm same] using more
      dsimp only
      split <;> exact lower
    · exact h
  | @overlap cb rest i other calls kind fine =>
    by_cases changed : ({ t with calls := rest }).runCallback cfg cb = { t with calls := rest }
    · rw [changed]
      exact h
    have unsent := inv.overlap_unsent calls kind changed
    rcases runOverlap_cases { t with calls := rest } kind fine with same | new
    · exact absurd same changed
    · rw [new]
      have form := register_eq { t with calls := rest } i (.depend .mem .completion other)
      change Thread.addDependency _ i .mem .completion other = _ at form
      rw [form]
      intro j unsquashed more
      by_cases self : j = i
      · subst self
        exact unsent unsquashed
      · exact h j unsquashed (by simpa [enrolled, self] using more)
  | resolveCorrect calls predictor followed correct =>
    exact Settled.freeBranchPredDepth (t := { t with calls := _ }) h
  | @resolveWrong i rest calls predictor followed =>
    have before := Settled.freeBranchPredDepth (t := { t with calls := rest }) h
    obtain ⟨u, a, vs, w, rfl, -, -, -, -, -, eq⟩ := resolveWrong_spec core calls
    rw [eq]
    exact before.flaggedAll vs
  | @commit x front unsquashed status quiet =>
    have zero : (t.insts x).remaining .mem = 0 := by
      refine h.zero unsquashed (Or.inr ?_)
      rcases status with status | ⟨status, -⟩
      · simp [status, Status.le_iff, Status.rank]
      · simp [status, Status.le_iff]
    exact h.change fun _ more => absurd zero (Nat.ne_of_gt more)
  | _ => exact h

theorem Inv.move (inv : Inv cfg t) (move : Move cfg o e t t') : Inv cfg t' :=
  { inv.toCore.move move with
    faults := inv.faultsMove move
    writes := inv.writesMove move
    settled := inv.settledMove move }

end Moves

end Gem5.FlexCPU
