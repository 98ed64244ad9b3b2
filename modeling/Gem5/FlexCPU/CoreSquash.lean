import Gem5.FlexCPU.CoreCalls

/-!
# Prediction slots and squashing

A squash removes instructions from the end of the buffer, youngest first. Nothing
that remains depends on what was removed.
-/

namespace Gem5.FlexCPU

open Thread List

/-- The objects after the squash callbacks of `i` have changed. -/
def setSquash (insts : Insts) (i : InstId) (cbs : List Callback) : Insts :=
  Function.update insts i { insts i with squashCallbacks := cbs }

section SetSquash

variable (insts : Insts) (i j : InstId) (cbs : List Callback)

@[simp] theorem setSquash_squashed : (setSquash insts i cbs j).squashed = (insts j).squashed :=
  keep (x := { insts i with squashCallbacks := cbs }) (·.squashed) rfl j

@[simp] theorem setSquash_status : (setSquash insts i cbs j).status = (insts j).status :=
  keep (x := { insts i with squashCallbacks := cbs }) (·.status) rfl j

@[simp] theorem setSquash_fired : (setSquash insts i cbs j).fired = (insts j).fired :=
  keep (x := { insts i with squashCallbacks := cbs }) (·.fired) rfl j

@[simp] theorem setSquash_instRef : (setSquash insts i cbs j).instRef = (insts j).instRef :=
  keep (x := { insts i with squashCallbacks := cbs }) (·.instRef) rfl j

@[simp] theorem setSquash_staticInst :
    (setSquash insts i cbs j).staticInst = (insts j).staticInst :=
  keep (x := { insts i with squashCallbacks := cbs }) (·.staticInst) rfl j

@[simp] theorem setSquash_deps : (setSquash insts i cbs j).deps = (insts j).deps :=
  keep (x := { insts i with squashCallbacks := cbs }) (·.deps) rfl j

@[simp] theorem setSquash_remaining : (setSquash insts i cbs j).remaining = (insts j).remaining :=
  keep (x := { insts i with squashCallbacks := cbs }) (·.remaining) rfl j

@[simp] theorem setSquash_callbacks : (setSquash insts i cbs j).callbacks = (insts j).callbacks :=
  keep (x := { insts i with squashCallbacks := cbs }) (·.callbacks) rfl j

@[simp] theorem setSquash_onReady : (setSquash insts i cbs j).onReady = (insts j).onReady :=
  keep (x := { insts i with squashCallbacks := cbs }) (·.onReady) rfl j

@[simp] theorem setSquash_fault : (setSquash insts i cbs j).fault = (insts j).fault :=
  keep (x := { insts i with squashCallbacks := cbs }) (·.fault) rfl j

@[simp] theorem setSquash_seqNum : (setSquash insts i cbs j).seqNum = (insts j).seqNum :=
  keep (x := { insts i with squashCallbacks := cbs }) (·.seqNum) rfl j

@[simp] theorem setSquash_self : (setSquash insts i cbs i).squashCallbacks = cbs := by
  simp [setSquash]

theorem setSquash_of_ne {j : InstId} (ne : j ≠ i) : setSquash insts i cbs j = insts j := by
  simp [setSquash, ne]

end SetSquash

section Slots

variable {cfg : Config} {t : Thread} {i : InstId}

theorem Core.withSquashCallbacks (inv : Core cfg t) {cbs : List Callback}
    (issued : Status.issued ≤ (t.insts i).status)
    (control : Control (setSquash t.insts i cbs) t.inflightInsts t.requests t.calls
      t.advanceInstNeedsRetry t.unpredictedBranch cfg.hasBranchPredictor) :
    Core cfg { t with insts := setSquash t.insts i cbs } := by
  have lt : i < t.nextInst := inv.heap.lt_of_status fun invalid => by
    simp [invalid, Status.le_iff, Status.rank] at issued
  exact {
    heap := inv.heap.congr (setSquash_status _ _ · _) (setSquash_callbacks _ _ · _)
      (setSquash_deps _ _ · _) fun j old =>
        setSquash_of_ne _ _ _ (Nat.lt_of_lt_of_le lt old).ne'
    callbacks := inv.callbacks.congr (setSquash_callbacks _ _ · _) (setSquash_deps _ _ · _)
      (setSquash_onReady _ _ · _)
    counters := inv.counters.congr (setSquash_squashed _ _ · _) (setSquash_deps _ _ · _)
      (setSquash_remaining _ _ · _) (setSquash_fired _ _ · _) fun _ _ => rfl
    milestones := inv.milestones.congr (setSquash_squashed _ _ · _) (setSquash_status _ _ · _)
      (setSquash_fired _ _ · _) (setSquash_instRef _ _ · _) (setSquash_deps _ _ · _)
      fun j early => by
        have ne : j ≠ i := by
          rintro rfl
          rw [setSquash_status] at early
          exact absurd early (Nat.not_lt.mpr issued)
        exact congrArg (·.squashCallbacks) (setSquash_of_ne _ _ _ ne)
    tokens := inv.tokens.congr (setSquash_squashed _ _ · _) (setSquash_status _ _ · _)
      (setSquash_fired _ _ · _) (setSquash_instRef _ _ · _) (setSquash_deps _ _ · _)
      (setSquash_onReady _ _ · _)
    stack := inv.stack.congr (setSquash_squashed _ _ · _) (setSquash_status _ _ · _)
      (setSquash_instRef _ _ · _)
    buffer := inv.buffer.congr (setSquash_squashed _ _ · _) (setSquash_status _ _ · _)
      (setSquash_fault _ _ · _) (setSquash_seqNum _ _ · _)
      (fun j => congrFun (setSquash_fired _ _ j _) _) Iff.rfl
    control := control
    stores := inv.stores.congr (setSquash_squashed _ _ · _) (setSquash_status _ _ · _)
      (setSquash_instRef _ _ · _) (setSquash_deps _ _ · _)
      fun j => congrFun (setSquash_fired _ _ j _) _
    lasts := inv.lasts.congr fun j issued => by rwa [setSquash_status]
    noMacroOp := inv.noMacroOp }

theorem Core.predictCtrlInst (inv : Core cfg t) (predictor : cfg.hasBranchPredictor = true)
    (isControl : (t.insts i).staticInst.isControl = true)
    (issued : Status.issued ≤ (t.insts i).status)
    (fresh : (t.insts i).squashed = false → ¬ Predicted (t.insts i) i ∧ .bpred i ∉ t.requests)
    (other : t.unpredictedBranch ≠ some i) : Core cfg (t.predictCtrlInst i) := by
  let cbs := (t.insts i).squashCallbacks ++ [.squashPredictor (t.insts i).issueSeqNum]
  have same : ∀ j, Predicted (setSquash t.insts i cbs j) j ↔ Predicted (t.insts j) j := by
    intro j
    by_cases at_i : j = i
    · subst at_i
      simp [Predicted, cbs]
    · rw [setSquash_of_ne _ _ _ at_i]
  have asked : Core cfg { t with insts := setSquash t.insts i cbs } :=
    inv.withSquashCallbacks issued
      { followed := by
          simpa only [setSquash_squashed, setSquash_status, setSquash_staticInst, same]
            using inv.control.followed
        asked := by
          simpa only [setSquash_squashed, setSquash_status, setSquash_staticInst, same]
            using inv.control.asked
        predicted := by simpa only [same] using inv.control.predicted
        squashCallbacks := fun j cb mem => by
          by_cases at_i : j = i
          · subst at_i
            simp only [setSquash_self, cbs, mem_append, List.mem_singleton] at mem
            rcases mem with old | rfl
            · exact inv.control.squashCallbacks j cb old
            · exact .inl ⟨_, rfl⟩
          · rw [setSquash_of_ne _ _ _ at_i] at mem
            exact inv.control.squashCallbacks j cb mem
        waiting := by
          simpa only [setSquash_squashed, setSquash_status, setSquash_staticInst, same]
            using inv.control.waiting
        retrying := by
          simpa only [setSquash_squashed, setSquash_status] using inv.control.retrying }
  have lt : i < t.nextInst := inv.heap.lt_of_status fun invalid => by
    simp [invalid, Status.le_iff, Status.rank] at issued
  have memAdd : ∀ j, .bpred j ∈ t.requests ++ [.bpred i] → j ≠ i → .bpred j ∈ t.requests := by grind
  exact
    { asked with
      heap := asked.heap.withRequests fun q mem => by
        rcases List.mem_append.mp mem with old | new
        · exact inv.heap.requests_lt q old
        · aesop
      counters := asked.counters.mono fun c held _ => held.add (by simp [Request.holds])
      tokens := asked.tokens.addInert [.bpred i] (by simp [Request.carries])
        fun r mem _ => by
          obtain rfl : r = .bpred i := by simpa using mem
          trivial
      control :=
        { asked.control with
          asked := fun j mem unsquashed => by
            by_cases at_i : j = i
            · subst at_i
              obtain ⟨unpredicted, unasked⟩ := fresh ((setSquash_squashed ..).symm.trans unsquashed)
              refine ⟨predictor, (congrArg (·.isControl) (setSquash_staticInst ..)).trans isControl,
                ((congrArg (Status.issued ≤ ·) (setSquash_status t.insts j j cbs)).mpr issued), fun h => unpredicted ((same j).mp h), ?_⟩
              change (t.requests ++ [Request.bpred j]).count (.bpred j) = 1
              simp [List.count_eq_zero.mpr unasked]
            · obtain ⟨p, c, late, un, once⟩ :=
                asked.control.asked j (memAdd j mem at_i) unsquashed
              refine ⟨p, c, late, un, ?_⟩
              change (t.requests ++ [Request.bpred i]).count (.bpred j) = 1
              simpa [Ne.symm at_i] using once
          waiting := fun u ptr => by
            obtain ⟨p, c, late, free⟩ := asked.control.waiting u ptr
            refine ⟨p, c, late, fun unsquashed => ⟨(free unsquashed).1, fun mem => ?_⟩⟩
            have ne : u ≠ i := by
              rintro rfl
              exact other ptr
            exact (free unsquashed).2 (memAdd u mem ne) } }

theorem Core.freeBranchPredDepth (inv : Core cfg t) : Core cfg t.freeBranchPredDepth := by
  rcases t.freeBranchPredDepth_cases with ⟨u, waiting, -, -, -, eq⟩ | ⟨w, hw, eq⟩
  · rw [eq]
    obtain ⟨predictor, control, issued, free⟩ := inv.control.waiting u waiting
    have cleared : Core cfg { t with unpredictedBranch := none } :=
      { inv with control := { inv.control with waiting := fun _ ptr => by simp at ptr } }
    exact cleared.predictCtrlInst predictor control issued free (by simp)
  · rw [eq]
    exact
      { inv with
        control :=
          { inv.control with
            waiting := fun u ptr => by
              rcases hw with rfl | rfl
              · simp at ptr
              · exact inv.control.waiting u ptr } }

theorem Core.holdSlot (inv : Core cfg t) (predictor : cfg.hasBranchPredictor = true)
    (issued : Status.issued ≤ (t.insts i).status) (unasked : .bpred i ∉ t.requests)
    (other : t.unpredictedBranch ≠ some i) : Core cfg (t.holdSlot i) := by
  let cbs := (t.insts i).squashCallbacks ++ [.releaseIfIncomplete i]
  have more : ∀ j, Predicted (t.insts j) j → Predicted (setSquash t.insts i cbs j) j := by
    intro j held
    by_cases at_i : j = i
    · subst at_i
      simp [Predicted, cbs]
    · rwa [setSquash_of_ne _ _ _ at_i]
  have control : Control (setSquash t.insts i cbs) t.inflightInsts t.requests t.calls
      t.advanceInstNeedsRetry t.unpredictedBranch cfg.hasBranchPredictor :=
    { followed := fun j mem unsq control late pending notLast =>
        more j (inv.control.followed j mem (by simpa using unsq) (by simpa using control)
          (by simpa using late) (by simpa using pending) notLast)
      asked := fun j mem unsq => by
        have ne : j ≠ i := by grind
        rw [setSquash_of_ne _ _ _ ne] at unsq ⊢
        exact inv.control.asked j mem unsq
      predicted := fun _ _ => predictor
      squashCallbacks := fun j cb mem => by
        by_cases at_i : j = i
        · subst at_i
          simp only [setSquash_self, cbs, mem_append, List.mem_singleton] at mem
          rcases mem with old | rfl
          · exact inv.control.squashCallbacks j cb old
          · exact .inr rfl
        · rw [setSquash_of_ne _ _ _ at_i] at mem
          exact inv.control.squashCallbacks j cb mem
      waiting := fun u ptr => by
        have ne : u ≠ i := by grind
        rw [setSquash_of_ne _ _ _ ne]
        exact inv.control.waiting u ptr
      retrying := fun on j last => by simpa using inv.control.retrying on j last }
  exact inv.withSquashCallbacks issued control

end Slots

/-- The objects after `v` has been flagged as squashed. -/
def flagged (insts : Insts) (v : InstId) : Insts :=
  Function.update insts v { insts v with squashed := true }

section Flagged

variable (insts : Insts) (v j : InstId)

@[simp] theorem flagged_status : (flagged insts v j).status = (insts j).status :=
  keep (x := { insts v with squashed := true }) (·.status) rfl j

@[simp] theorem flagged_fired : (flagged insts v j).fired = (insts j).fired :=
  keep (x := { insts v with squashed := true }) (·.fired) rfl j

@[simp] theorem flagged_instRef : (flagged insts v j).instRef = (insts j).instRef :=
  keep (x := { insts v with squashed := true }) (·.instRef) rfl j

@[simp] theorem flagged_staticInst : (flagged insts v j).staticInst = (insts j).staticInst :=
  keep (x := { insts v with squashed := true }) (·.staticInst) rfl j

@[simp] theorem flagged_deps : (flagged insts v j).deps = (insts j).deps :=
  keep (x := { insts v with squashed := true }) (·.deps) rfl j

@[simp] theorem flagged_remaining : (flagged insts v j).remaining = (insts j).remaining :=
  keep (x := { insts v with squashed := true }) (·.remaining) rfl j

@[simp] theorem flagged_callbacks : (flagged insts v j).callbacks = (insts j).callbacks :=
  keep (x := { insts v with squashed := true }) (·.callbacks) rfl j

@[simp] theorem flagged_onReady : (flagged insts v j).onReady = (insts j).onReady :=
  keep (x := { insts v with squashed := true }) (·.onReady) rfl j

@[simp] theorem flagged_squashCallbacks :
    (flagged insts v j).squashCallbacks = (insts j).squashCallbacks :=
  keep (x := { insts v with squashed := true }) (·.squashCallbacks) rfl j

@[simp] theorem flagged_fault : (flagged insts v j).fault = (insts j).fault :=
  keep (x := { insts v with squashed := true }) (·.fault) rfl j

@[simp] theorem flagged_seqNum : (flagged insts v j).seqNum = (insts j).seqNum :=
  keep (x := { insts v with squashed := true }) (·.seqNum) rfl j

@[simp] theorem flagged_self : (flagged insts v v).squashed = true := by
  simp [flagged]

theorem flagged_of_ne {j : InstId} (ne : j ≠ v) : flagged insts v j = insts j := by
  simp [flagged, ne]

theorem flagged_squashed {j : InstId} (unsquashed : (flagged insts v j).squashed = false) :
    j ≠ v ∧ (insts j).squashed = false := by
  have ne : j ≠ v := by aesop
  exact ⟨ne, by rwa [flagged_of_ne insts v ne] at unsquashed⟩

theorem flagged_of_squashed (already : (insts v).squashed = true) : flagged insts v = insts := by
  have same : ({ insts v with squashed := true } : InflightInst) = insts v := by
    rw [← already]
  rw [flagged, same, Function.update_eq_self]

end Flagged

section FlaggedGroups

variable {insts : Insts} {buf : List InstId} {reqs : List Request} {calls : List Call}
  {next v : InstId}

theorem Heap.flagged (h : Heap insts buf reqs calls next) (lt : v < next) :
    Heap (flagged insts v) buf reqs calls next :=
  h.congr (flagged_status insts v) (flagged_callbacks insts v) (flagged_deps insts v)
    fun _ old => flagged_of_ne insts v (Nat.lt_of_lt_of_le lt old).ne'

theorem Callbacks.flagged (h : Callbacks insts) : Callbacks (flagged insts v) :=
  h.congr (flagged_callbacks insts v) (flagged_deps insts v) (flagged_onReady insts v)

theorem Counters.flagged (h : Counters insts buf reqs calls) :
    Counters (flagged insts v) buf reqs calls :=
  fun c mem unsquashed g =>
    (h c mem (flagged_squashed insts v unsquashed).2 g).congr (flagged_deps insts v c)
      (flagged_remaining insts v c) (flagged_fired insts v) rfl

theorem Tokens.flagged (h : Tokens insts reqs calls) : Tokens (flagged insts v) reqs calls where
  single i unsquashed := h.single i (flagged_squashed insts v unsquashed).2
  request_fits r mem unsquashed :=
    (h.request_fits r mem (flagged_squashed insts v unsquashed).2).congr
      (flagged_status ..) (flagged_fired ..) (flagged_instRef ..)
  call_fits c mem i inst unsquashed :=
    (h.call_fits c mem i inst (flagged_squashed insts v unsquashed).2).congr
      (flagged_status ..) (flagged_fired ..) (flagged_instRef ..) (flagged_onReady ..)
  waiting_exec i unsquashed := by
    rw [owed_congr (flagged_deps insts v i) (flagged_fired insts v) rfl,
      surplus_congr (flagged_deps insts v i), flagged_status, flagged_onReady]
    exact h.waiting_exec i (flagged_squashed insts v unsquashed).2
  waiting_mem i unsquashed := by
    rw [owed_congr (flagged_deps insts v i) (flagged_fired insts v) rfl, flagged_status,
      flagged_onReady, flagged_staticInst]
    exact h.waiting_mem i (flagged_squashed insts v unsquashed).2

theorem Milestones.flagged (h : Milestones insts buf next) : Milestones (flagged insts v) buf next  where
  fired_le := by simpa only [flagged_fired] using h.fired_le
  fired_zero i m unsquashed := by
    simpa only [flagged_fired, flagged_status] using
      h.fired_zero i m (flagged_squashed insts v unsquashed).2
  committed_iff i mem unsquashed := by
    simpa only [flagged_fired, flagged_status] using
      h.committed_iff i mem (flagged_squashed insts v unsquashed).2
  left i lt gone unsquashed := by
    simpa only [flagged_fired, flagged_status, flagged_staticInst] using
      h.left i lt gone (flagged_squashed insts v unsquashed).2
  unissued i early := by
    simpa only [flagged_deps, flagged_squashCallbacks] using
      h.unissued i (by simpa only [flagged_status] using early)
  decoded i := by simpa only [flagged_instRef, flagged_status] using h.decoded i

theorem Stores.flagged (h : Stores insts buf) : Stores (flagged insts v) buf :=
  fun c mem unsquashed => by
    simpa only [flagged_staticInst, flagged_status, flagged_fired, flagged_deps] using
      h c mem (flagged_squashed insts v unsquashed).2

theorem Lasts.flagged {serializing barrier : Option InstId} {uses : RegId → DataSource}
    (h : Lasts insts serializing barrier uses next) :
    Lasts (flagged insts v) serializing barrier uses next :=
  h.congr fun j issued => by rwa [flagged_status]

theorem Stack.quiet {insts' : Insts} {buf' : List InstId} (h : Stack insts buf calls)
    (quiet : ∀ c ∈ calls, c.protects = false) : Stack insts' buf' calls where
  above := h.above
  needs := h.needs
  protects c mem protects := by simp [quiet c mem] at protects
  resolving i mem := by simpa [Call.protects] using quiet _ mem

theorem Control.flagged {retry hasPredictor : Bool} {unpredicted waiting : Option InstId}
    (h : Control insts buf reqs calls retry unpredicted hasPredictor)
    (w : waiting = none ∨ waiting = unpredicted) :
    Control (flagged insts v) buf reqs calls false waiting hasPredictor where
  followed i mem unsquashed control issued pending notLast := by
    simp only [flagged_staticInst, flagged_status, Predicted, flagged_squashCallbacks]
      at control issued pending ⊢
    exact h.followed i mem (flagged_squashed insts v unsquashed).2 control issued pending
      (notLast.imp_right fun on => by simp at on)
  asked i mem unsquashed := by
    simpa only [flagged_staticInst, flagged_status, Predicted, flagged_squashCallbacks] using
      h.asked i mem (flagged_squashed insts v unsquashed).2
  predicted i := by simpa only [Predicted, flagged_squashCallbacks] using h.predicted i
  squashCallbacks i := by simpa only [flagged_squashCallbacks] using h.squashCallbacks i
  waiting u ptr := by
    have old : unpredicted = some u := by grind
    obtain ⟨predictor, control, issued, free⟩ := h.waiting u old
    refine ⟨predictor, by simpa using control, by simpa using issued, fun unsquashed => ?_⟩
    simpa [Predicted] using free (flagged_squashed insts v unsquashed).2
  retrying on := by simp at on

end FlaggedGroups

section Squash

variable {cfg : Config} {t : Thread} {i v : InstId}

theorem Core.waits (inv : Core cfg t) (unsquashed : (t.insts v).squashed = false)
    (predicted : Predicted (t.insts v) v) : t.unpredictedBranch ≠ some v := by
  intro waiting
  exact ((inv.control.waiting v waiting).2.2.2 unsquashed).1 predicted

/-- The slots that squashing `v` gives back. -/
def slots (x : InflightInst) (v : InstId) : Nat :=
  if x.squashed then 0 else released x v

theorem Core.squashBack_spec (inv : Core cfg t) (back : t.back = some v) :
    ∃ waiting, (waiting = none ∨ waiting = t.unpredictedBranch) ∧
      t.squashBack v = { t with
        insts := flagged t.insts v
        inflightInsts := t.inflightInsts.dropLast
        remainingBranchPredDepth := t.remainingBranchPredDepth + slots (t.insts v) v
        unpredictedBranch := waiting } := by
  by_cases squashed : (t.insts v).squashed = true
  · simp [flagged_of_squashed t.insts v squashed, squashBack, notifySquashed, slots, squashed]
  · have unsquashed : (t.insts v).squashed = false := by simpa using squashed
    obtain ⟨w, hw, eq⟩ := t.notifySquashed_spec v (inv.control.squashCallbacks v) back unsquashed
      (inv.waits unsquashed)
    refine ⟨w, hw, ?_⟩
    simp only [squashBack, eq, slots, unsquashed]
    rfl

theorem Core.squashBack (inv : Core cfg t) (back : t.back = some v) (quiet : t.Quiet)
    (older : i ∈ t.inflightInsts) (ne : i ≠ v) : Core cfg (t.squashBack v) := by
  obtain ⟨w, hw, eq⟩ := inv.squashBack_spec back
  rw [eq]
  have split : t.inflightInsts = t.inflightInsts.dropLast ++ [v] :=
    (dropLast_append_getLast? v back).symm
  have sub : ∀ j ∈ t.inflightInsts.dropLast, j ∈ t.inflightInsts :=
    fun j mem => mem_of_mem_dropLast mem
  have other : ∀ j ∈ t.inflightInsts.dropLast, j ≠ v := fun j mem =>
    (Tails.lt_of_split inv.heap.ordered split mem (by simp)).ne
  have notLast : ∀ j ∈ t.inflightInsts.dropLast, t.inflightInsts.getLast? ≠ some j := by grind
  have plain : ∀ j ∈ t.inflightInsts.dropLast, (t.insts j).squashed = false := by
    intro j mem
    by_contra squashed
    exact notLast j mem (inv.buffer.squashed j (sub j mem) (by simpa using squashed)).1
  have head : t.inflightInsts.dropLast.head? = t.inflightInsts.head? := by
    have : i ∈ t.inflightInsts.dropLast := by grind
    conv_rhs => rw [split]
    cases front : t.inflightInsts.dropLast with
    | nil => simp [front] at this
    | cons => simp
  have lt := inv.heap.bounded v (List.mem_of_getLast? back)
  have control := inv.control.flagged (v := v) hw
  exact {
    heap :=
      { inv.heap.flagged lt with
        ordered := inv.heap.ordered.sublist (dropLast_sublist _)
        bounded := fun j mem => inv.heap.bounded j (sub j mem)
        newest := fun j mem => (inv.heap.flagged lt).newest j (sub j mem) }
    callbacks := inv.callbacks.flagged
    counters := inv.counters.flagged.mono fun c held _ => held.imp_left (sub c)
    milestones :=
      { inv.milestones.flagged (v := v) with
        committed_iff := fun j mem => inv.milestones.flagged.committed_iff j (sub j mem)
        left := fun j lt gone unsquashed => by
          refine inv.milestones.flagged.left j lt (fun mem => gone ?_) unsquashed
          rw [split] at mem
          refine (List.mem_append.mp mem).resolve_right fun last => ?_
          exact (flagged_squashed t.insts v unsquashed).1 (by simpa using last) }
    tokens := inv.tokens.flagged
    stack := inv.stack.quiet quiet
    buffer :=
      { issued := fun j mem _ => by
          simpa using inv.buffer.issued j (sub j mem) (notLast j mem)
        squashed := fun j mem squashed => by
          have same := flagged_of_ne t.insts v (other j mem)
          change (flagged t.insts v j).squashed = true at squashed
          rw [same, plain j mem] at squashed
          simp at squashed
        size := fun bounded => by
          have := inv.buffer.size bounded
          simp only [length_dropLast]
          omega
        numbered := fun k j at_k => by
          have : t.inflightInsts[k]? = some j := by grind
          simpa using inv.buffer.numbered k j this
        active := fun inactive => by simp [inv.buffer.active inactive]
        popping := by
          simpa [head] using inv.buffer.popping
        uncommitted := fun j mem notFront => by
          rw [head] at notFront
          simpa using inv.buffer.uncommitted j (sub j mem) notFront }
    control :=
      { asked := control.asked
        predicted := control.predicted
        squashCallbacks := control.squashCallbacks
        waiting := control.waiting
        followed := fun j mem unsquashed isControl issued pending _ => by
          exact control.followed j (sub j mem) unsquashed isControl issued pending
            (.inl (notLast j mem))
        retrying := fun _ j last => by
          have mem := List.mem_of_getLast? last
          change Status.issued ≤ (flagged t.insts v j).status ∧ (flagged t.insts v j).squashed = false
          rw [flagged_of_ne t.insts v (other j mem)]
          exact ⟨inv.buffer.issued j (sub j mem) (notLast j mem), plain j mem⟩ }
    stores := fun c mem unsquashed store issued p memP =>
      inv.stores.flagged c (sub c mem) unsquashed store issued p (sub p memP)
    lasts := inv.lasts.flagged
    noMacroOp := inv.noMacroOp }

/-- The objects after the instructions `vs` have been squashed. -/
def flaggedAll (insts : Insts) (vs : List InstId) : Insts :=
  fun j => if j ∈ vs then { insts j with squashed := true } else insts j

theorem flaggedAll_cons {insts : Insts} {vs : List InstId} :
    flaggedAll (flagged insts v) vs = flaggedAll insts (v :: vs) := by
  funext j
  unfold flaggedAll
  by_cases at_v : j = v
  · subst at_v
    by_cases mem : j ∈ vs <;> simp [flagged]
  · rw [flagged_of_ne insts v at_v]
    simp [at_v]

/-- The state after the loop of `squashUpTo`. -/
def squashed (t : Thread) (vs kept : List InstId) (waiting : Option InstId) : Thread :=
  { t with
    insts := flaggedAll t.insts vs
    inflightInsts := kept
    remainingBranchPredDepth :=
      t.remainingBranchPredDepth + (vs.map fun v => slots (t.insts v) v).sum
    unpredictedBranch := waiting }

theorem Core.squash_loop (inv : Core cfg t) (quiet : t.Quiet) (vs : List InstId) {a : List InstId}
    (buffer : t.inflightInsts = a ++ i :: vs.reverse) :
    Core cfg (vs.foldl Thread.squashBack t) ∧
      ∃ waiting, (waiting = none ∨ waiting = t.unpredictedBranch)
        ∧ vs.foldl Thread.squashBack t = squashed t vs (a ++ [i]) waiting := by
  induction vs generalizing t with
  | nil =>
    refine ⟨inv, t.unpredictedBranch, .inr rfl, ?_⟩
    have : flaggedAll t.insts [] = t.insts := by aesop
    have kept : a ++ [i] = t.inflightInsts := by simpa using buffer.symm
    simp [squashed, this, kept]
  | cons v vs ih =>
    have buffer' : t.inflightInsts = (a ++ i :: vs.reverse) ++ [v] := by simp [buffer]
    have back : t.back = some v := by rw [Thread.back, buffer', List.getLast?_concat]
    have rest : t.inflightInsts.dropLast = a ++ i :: vs.reverse := by
      rw [buffer', dropLast_concat]
    have older : ∀ j ∈ a ++ i :: vs.reverse, j < v := fun j mem =>
      Tails.lt_of_split inv.heap.ordered buffer' mem (by simp)
    have fewer := inv.squashBack (i := i) back quiet (by simp [buffer])
      (older i (by simp)).ne
    obtain ⟨w, hw, eq⟩ := inv.squashBack_spec back
    rw [rest] at eq
    rw [eq] at fewer
    obtain ⟨core, w', hw', done⟩ := ih fewer quiet rfl
    rw [List.foldl_cons, eq]
    refine ⟨core, w', ?_, ?_⟩
    · grind
    · rw [done]
      have same : ∀ u ∈ vs, flagged t.insts v u = t.insts u := fun u mem =>
        flagged_of_ne t.insts v (older u (by simp [mem])).ne
      have sum : (vs.map fun u => slots (flagged t.insts v u) u) = vs.map fun u => slots (t.insts u) u :=
        map_congr_left fun u mem => by rw [same u mem]
      simp only [squashed, flaggedAll_cons, sum, List.map_cons, List.sum_cons]
      congr 1
      omega

theorem Thread.youngerThan_eq {a b : List InstId} (buffer : t.inflightInsts = a ++ i :: b)
    (ordered : t.inflightInsts.Pairwise (· < ·)) : t.youngerThan i = b.reverse := by
  have later : ∀ j ∈ b, j ≠ i := fun j mem => (Tails.lt_of_later ordered buffer mem).ne'
  rw [Thread.youngerThan, buffer, List.reverse_append, reverse_cons, List.append_assoc,
    takeWhile_append_of_pos (by simpa using later)]
  simp

theorem populateUses_foldl (t : Thread) (l : List InstId) :
    ∃ uses, l.foldl populateUses t = { t with lastUses := uses } := by
  induction l generalizing t with
  | nil => exact ⟨t.lastUses, rfl⟩
  | cons j l ih => aesop

theorem Lasts.populateUses (h : Lasts t.insts t.lastSerializingInstruction t.lastMemBarrier
      t.lastUses t.nextInst) (lt : i < t.nextInst) (issued : Status.issued ≤ (t.insts i).status) :
    Lasts t.insts t.lastSerializingInstruction t.lastMemBarrier (t.populateUses i).lastUses
      t.nextInst := by
  refine ⟨h.serializing, h.barrier, ?_⟩
  have general : ∀ (l : List (RegId × Nat)) (uses : RegId → DataSource),
      (∀ r j, (uses r).producer = some j → j < t.nextInst ∧ Status.issued ≤ (t.insts j).status) →
      ∀ r j, (l.foldl (fun uses d => fun r => if r = d.1 then ⟨some i, d.2⟩ else uses r) uses
        r).producer = some j → j < t.nextInst ∧ Status.issued ≤ (t.insts j).status := by
    intro l
    induction l with
    | nil => exact fun _ ok => ok
    | cons d l ih =>
      intro uses ok
      refine ih _ fun r j => ?_
      dsimp only
      by_cases hit : r = d.1
      · grind
      · rw [if_neg hit]
        exact ok r j
  exact general _ _ h.uses

theorem Lasts.populateUses_foldl (l : List InstId)
    (h : Lasts t.insts t.lastSerializingInstruction t.lastMemBarrier t.lastUses t.nextInst)
    (all : ∀ j ∈ l, j < t.nextInst ∧ Status.issued ≤ (t.insts j).status) :
    Lasts t.insts t.lastSerializingInstruction t.lastMemBarrier
      (l.foldl Thread.populateUses t).lastUses t.nextInst := by
  induction l generalizing t with
  | nil => exact h
  | cons j l ih =>
    have step := h.populateUses (all j (by simp)).1 (all j (by simp)).2
    exact ih (t := t.populateUses j) step fun k mem => all k (by simp [mem])

theorem rebuildLast_cases (t : Thread) (victims : List InstId) (last : Option InstId)
    (kind : StaticInst → Bool) :
    t.rebuildLast victims last kind = last
      ∨ ∃ j ∈ t.inflightInsts, t.rebuildLast victims last kind = some j
        ∧ kind (t.insts j).staticInst = true := by
  unfold rebuildLast
  split
  · cases found : t.inflightInsts.reverse.find? fun j => kind (t.insts j).staticInst with
    | none => exact .inl rfl
    | some j => grind
  · exact .inl rfl

theorem Core.rebuildLasts (inv : Core cfg t) (victims : List InstId)
    (issued : ∀ j ∈ t.inflightInsts, Status.issued ≤ (t.insts j).status) :
    Core cfg (t.rebuildLasts cfg victims) := by
  have all : ∀ j ∈ t.inflightInsts, j < t.nextInst ∧ Status.issued ≤ (t.insts j).status :=
    fun j mem => ⟨inv.heap.bounded j mem, issued j mem⟩
  have uses := inv.lasts.populateUses_foldl t.inflightInsts all
  obtain ⟨u, eq⟩ := populateUses_foldl t t.inflightInsts
  unfold Thread.rebuildLasts
  rw [eq] at uses ⊢
  refine { inv with lasts := ⟨fun j ptr => ?_, fun j ptr => ?_, uses.uses⟩ }
  · rcases rebuildLast_cases { t with lastUses := u } victims t.lastSerializingInstruction
      (serializes cfg) with same | ⟨k, mem, new, -⟩
    · exact inv.lasts.serializing j (same.symm.trans ptr)
    · grind
  · rcases rebuildLast_cases { t with lastUses := u } victims t.lastMemBarrier
      (·.isMemBarrier) with same | ⟨k, mem, new, -⟩
    · exact inv.lasts.barrier j (same.symm.trans ptr)
    · grind

theorem Core.squashUpTo (inv : Core cfg t) (quiet : t.Quiet) (mem : i ∈ t.inflightInsts)
    (rebuild : Bool) (issued : rebuild = true → Status.issued ≤ (t.insts i).status) :
    Core cfg (t.squashUpTo cfg i rebuild) := by
  obtain ⟨a, b, buffer⟩ := append_of_mem mem
  have victims := Thread.youngerThan_eq buffer inv.heap.ordered
  obtain ⟨core, w, -, eq⟩ := inv.squash_loop quiet b.reverse (by simpa using buffer)
  unfold Thread.squashUpTo
  rw [victims]
  cases rebuild with
  | false => exact { core with noMacroOp := rfl }
  | true =>
    have rebuilt := core.rebuildLasts b.reverse fun j inside => by
      rw [eq] at inside ⊢
      have status : (flaggedAll t.insts b.reverse j).status = (t.insts j).status := by
        unfold flaggedAll
        split <;> rfl
      change Status.issued ≤ (flaggedAll t.insts b.reverse j).status
      rw [status]
      have kept : j ∈ a ∨ j = i := by simpa [squashed] using inside
      rcases kept with older | rfl
      · refine inv.buffer.issued j (by simp [buffer, older]) fun last => ?_
        have apart := Tails.notMem_of_split inv.heap.ordered buffer older
        have inTail : j ∈ i :: b := by grind
        exact apart inTail
      · exact issued rfl
    exact { rebuilt with noMacroOp := rfl }

theorem Thread.back_squashUpTo (inv : Core cfg t) (quiet : t.Quiet) (mem : i ∈ t.inflightInsts) :
    ∃ a vs waiting, t.inflightInsts = a ++ i :: vs.reverse
      ∧ (waiting = none ∨ waiting = t.unpredictedBranch)
      ∧ t.youngerThan i = vs
      ∧ vs.foldl Thread.squashBack t = squashed t vs (a ++ [i]) waiting := by
  obtain ⟨a, b, buffer⟩ := append_of_mem mem
  have victims := Thread.youngerThan_eq buffer inv.heap.ordered
  obtain ⟨-, w, hw, eq⟩ := inv.squash_loop quiet b.reverse (by simpa using buffer)
  exact ⟨a, b.reverse, w, by simpa using buffer, hw, victims, eq⟩

theorem Core.setFault (inv : Core cfg t) (lt : i < t.nextInst) (f : Fault) :
    Core cfg (t.update i fun inst => { inst with fault := some f }) := by
  let x : InflightInst := { t.insts i with fault := some f }
  have squashed := keep (x := x) (s := t.insts) (·.squashed) rfl
  have status := keep (x := x) (s := t.insts) (·.status) rfl
  have fired := keep (x := x) (s := t.insts) (·.fired) rfl
  have instRef := keep (x := x) (s := t.insts) (·.instRef) rfl
  have deps := keep (x := x) (s := t.insts) (·.deps) rfl
  have remaining := keep (x := x) (s := t.insts) (·.remaining) rfl
  have callbacks := keep (x := x) (s := t.insts) (·.callbacks) rfl
  have onReady := keep (x := x) (s := t.insts) (·.onReady) rfl
  have squashCallbacks := keep (x := x) (s := t.insts) (·.squashCallbacks) rfl
  exact {
    heap := inv.heap.congr status callbacks deps fun j old => by
      have ne : j ≠ i := (Nat.lt_of_lt_of_le lt old).ne'
      simp [update, ne]
    callbacks := inv.callbacks.congr callbacks deps onReady
    counters := inv.counters.congr squashed deps remaining fired fun _ _ => rfl
    milestones := inv.milestones.congr squashed status fired instRef deps
      fun j _ => squashCallbacks j
    tokens := inv.tokens.congr squashed status fired instRef deps onReady
    stack := inv.stack.congr squashed status instRef
    buffer :=
      { inv.buffer with
        issued := fun j mem notLast => (status j).symm ▸ inv.buffer.issued j mem notLast
        squashed := fun j mem sq => by
          obtain ⟨last, fault, uncommitted⟩ :=
            inv.buffer.squashed j mem ((squashed j).symm.trans sq)
          refine ⟨last, ?_, (congrFun (fired j) _).trans uncommitted⟩
          by_cases at_i : j = i
          · subst at_i
            simp [update]
          · simpa [update, at_i] using fault
        numbered := fun k j at_k => by
          have seqNum := keep (x := x) (s := t.insts) (·.seqNum) rfl j
          exact (congrArg (· + _) seqNum).trans (inv.buffer.numbered k j at_k)
        popping := by
          have same : ∀ j, ((t.update i fun inst => { inst with fault := some f }).insts j).fired
              .commit = (t.insts j).fired .commit := fun j => congrFun (fired j) _
          simp only [same]
          exact inv.buffer.popping
        uncommitted := fun j mem notFront =>
          (congrFun (fired j) _).trans (inv.buffer.uncommitted j mem notFront) }
    control := inv.control.congr squashed status instRef squashCallbacks fun _ => id
    stores := inv.stores.congr squashed status instRef deps fun j => congrFun (fired j) _
    lasts := inv.lasts.congr fun j issued => (status j).symm ▸ issued
    noMacroOp := inv.noMacroOp }

theorem Core.flagFault (inv : Core cfg t) (back : t.back = some i) (quiet : t.Quiet)
    (fault : (t.insts i).fault.isSome = true) (uncommitted : (t.insts i).fired .commit = 0)
    (unsquashed : (t.insts i).squashed = false) :
    Core cfg { t.notifySquashed i with advanceInstNeedsRetry := false } := by
  obtain ⟨w, hw, eq⟩ := t.notifySquashed_spec i (inv.control.squashCallbacks i) back unsquashed
    (inv.waits unsquashed)
  rw [eq]
  have mem := List.mem_of_getLast? back
  exact {
    heap := inv.heap.flagged (inv.heap.bounded i mem)
    callbacks := inv.callbacks.flagged
    counters := inv.counters.flagged
    milestones := inv.milestones.flagged
    tokens := inv.tokens.flagged
    stack := inv.stack.quiet quiet
    buffer :=
      { issued := fun j inside notLast => by
          change Status.issued ≤ (flagged t.insts i j).status
          rw [flagged_status]
          exact inv.buffer.issued j inside notLast
        squashed := fun j inside sq => by
          change _ ∧ (flagged t.insts i j).fault.isSome = true
            ∧ (flagged t.insts i j).fired .commit = 0
          rw [flagged_fault, flagged_fired]
          by_cases at_i : j = i
          · aesop
          · change (flagged t.insts i j).squashed = true at sq
            rw [flagged_of_ne t.insts i at_i] at sq
            exact inv.buffer.squashed j inside sq
        size := inv.buffer.size
        numbered := fun k j at_k => by
          change (flagged t.insts i j).seqNum + _ = _
          rw [flagged_seqNum]
          exact inv.buffer.numbered k j at_k
        active := inv.buffer.active
        popping := by
          change _ ↔ ∃ j, _ ∧ (flagged t.insts i j).fired .commit = 1
          simp only [flagged_fired]
          exact inv.buffer.popping
        uncommitted := fun j inside notFront => by
          change (flagged t.insts i j).fired .commit = 0
          rw [flagged_fired]
          exact inv.buffer.uncommitted j inside notFront }
    control := inv.control.flagged hw
    stores := inv.stores.flagged
    lasts := inv.lasts.flagged
    noMacroOp := inv.noMacroOp }

theorem Core.markFault (inv : Core cfg t) (mem : i ∈ t.inflightInsts)
    (unsquashed : (t.insts i).squashed = false) (uncommitted : (t.insts i).fired .commit = 0)
    (quiet : t.Quiet) (f : Fault) : Core cfg (t.markFault cfg i f) := by
  have faulty := inv.setFault (inv.heap.bounded i mem) f
  have shorter := faulty.squashUpTo (i := i) quiet mem false (by simp)
  obtain ⟨a, vs, w, buffer, -, victims, eq⟩ :=
    Thread.back_squashUpTo faulty quiet mem
  have kept : i ∉ vs := by simpa using Tails.notMem_later inv.heap.ordered buffer
  have form : (t.update i fun inst => { inst with fault := some f }).squashUpTo cfg i false
      = { squashed (t.update i fun inst => { inst with fault := some f }) vs (a ++ [i]) w with
          decoder := .reset, curMacroOp := none } := by
    simp only [Thread.squashUpTo, victims, eq]
    rfl
  have self : flaggedAll (t.update i fun inst => { inst with fault := some f }).insts vs i
      = { t.insts i with fault := some f } := by
    simp [flaggedAll, kept, update]
  have flag := shorter.flagFault (i := i)
    (by rw [form]; simp [Thread.back, squashed]) (by rw [form]; exact quiet)
    (by rw [form]; exact congrArg (·.fault.isSome) self)
    (by rw [form]; exact (congrArg (fun x => x.fired .commit) self).trans uncommitted)
    (by rw [form]; exact (congrArg (·.squashed) self).trans unsquashed)
  have calls : (((t.update i fun inst => { inst with fault := some f }).squashUpTo cfg i
      false).notifySquashed i).calls = t.calls := by
    obtain ⟨w', -, eq'⟩ := Thread.notifySquashed_spec _ i (shorter.control.squashCallbacks i)
      (by rw [form]; simp [Thread.back, squashed])
      (by rw [form]; exact (congrArg (·.squashed) self).trans unsquashed)
      (shorter.waits (by rw [form]; exact (congrArg (·.squashed) self).trans unsquashed))
    rw [eq', form]
    rfl
  exact flag.pushCommitAll fun c inside => quiet c (calls ▸ inside)

theorem Core.resolveWrong (inv : Core cfg t) (quiet : t.Quiet) (mem : i ∈ t.inflightInsts)
    (issued : Status.issued ≤ (t.insts i).status) :
    Core cfg { t.squashUpTo cfg i true with advanceInstNeedsRetry := false } := by
  have core := inv.squashUpTo quiet mem true fun _ => issued
  exact
    { core with
      control :=
        { core.control with
          followed := fun j inside unsq control late pending notLast =>
            core.control.followed j inside unsq control late pending
              (notLast.imp_right fun on => by simp at on)
          retrying := fun on => by simp at on } }

theorem Core.reset (inv : Core cfg t) {tc : ThreadContext} {base : Addr}
    (buffer : t.inflightInsts = [i]) (flag : (t.insts i).squashed = true) (quiet : t.Quiet) :
    Core cfg { t with inflightInsts := [], fetchBufBase := base, tc := tc } := by
  have settled : Call.commitPop ∉ t.calls := by
    intro popping
    obtain ⟨x, front, fired⟩ := inv.buffer.popping.mp popping
    obtain rfl : i = x := by simpa [buffer] using front
    have := (inv.buffer.squashed i (by simp [buffer]) flag).2.2
    omega
  exact {
    heap := { inv.heap with ordered := .nil, bounded := by simp, newest := by simp }
    callbacks := inv.callbacks
    counters := inv.counters.mono fun c held _ => held.imp_left (by simp)
    milestones :=
      { inv.milestones with
        committed_iff := by simp
        left := fun j lt _ unsq => by
          refine inv.milestones.left j lt (fun mem => ?_) unsq
          obtain rfl : j = i := by simpa [buffer] using mem
          simp [flag] at unsq }
    tokens := inv.tokens
    stack := inv.stack.quiet quiet
    buffer :=
      { issued := by simp
        squashed := by simp
        size := by simp
        numbered := by simp
        active := fun _ => rfl
        popping := by simpa using settled
        uncommitted := by simp }
    control := { inv.control with followed := by simp, retrying := by simp }
    stores := by simp [Stores]
    lasts := inv.lasts
    noMacroOp := inv.noMacroOp }

end Squash

end Gem5.FlexCPU
