import Gem5.FlexCPU.StatusOrder

/-!
# Macro-ops

`curMacroOp` is read by `advanceInst` and cleared at issue and by squashes, but no
path of the decoder sets it: a decoded macro-op stays one instruction and is passed
to `requestExecution`. Runs that decode no macro-op are the ones that meet the
contract of the expansion.
-/

namespace Gem5.FlexCPU

open Thread

variable {x : InflightInst}

/-- The step is about to decode a macro-op. -/
def Thread.decodesMacroop (cfg : Config) (o : Thread) : Bool :=
  match o.calls with
  | .attemptFetch i :: _ => o.fetchBufHit cfg (o.fetchAddr i)
      && match (o.decoder.moreBytes (o.insts i).pcState (o.fetchBuf (o.fetchAddr i))).decode
            cfg.decodeInst (o.insts i).pcState with
        | (_, some (si, _)) => si.isMacroop
        | (_, none) => false
  | _ => false

/-- As long as nothing is squashed, the instructions fetched from `i` on are the
micro-ops of `si` in order, up to the last one. -/
def Thread.Expands (cfg : Config) (t : Thread) (i : InstId) (si : StaticInst) : Prop :=
  ∀ k, i + k < t.nextInst → (∀ j < k, (cfg.fetchMicroop si j).isLastMicroop = false) →
    (∀ j ≤ k, (t.insts (i + j)).squashed = false) →
    (t.insts (i + k)).instRef = some (cfg.fetchMicroop si k)

/-- No instruction object holds a macro-op. -/
def Plain (insts : Insts) : Prop := ∀ j, (insts j).staticInst.isMacroop = false

section Moves

variable {cfg : Config} {o : Thread} {e : Event} {t t' : Thread} {i : InstId}

theorem Plain.congr {insts insts' : Insts} (h : Plain insts)
    (instRef : ∀ j, (insts' j).instRef = (insts j).instRef) : Plain insts' := by
  intro j
  rw [InflightInst.staticInst, instRef]
  exact h j

theorem Plain.update {insts : Insts} (h : Plain insts)
    (plain : x.staticInst.isMacroop = false) : Plain (Function.update insts i x) := by
  intro j
  by_cases self : j = i
  · subst self
    simpa using plain
  · simpa [self] using h j

theorem Plain.keep {insts : Insts} (h : Plain insts)
    (instRef : x.instRef = (insts i).instRef) : Plain (Function.update insts i x) :=
  h.update (by rw [InflightInst.staticInst, instRef]; exact h i)

theorem Plain.flaggedAll {insts : Insts} (h : Plain insts) (vs : List InstId) :
    Plain (FlexCPU.flaggedAll insts vs) :=
  h.congr fun j => by
    unfold FlexCPU.flaggedAll
    split <;> rfl

/-- What a thread has decoded and passed to execution is not a macro-op. -/
structure Thread.PlainRun (t : Thread) : Prop where
  insts : Plain t.insts
  requested : ∀ si ∈ t.requested, si.isMacroop = false
  decodes : ∀ d ∈ t.decodes, d.2.isMacroop = false

theorem Thread.PlainRun.keep (h : t.PlainRun) (instRef : x.instRef = (t.insts i).instRef) :
    PlainRun { t with insts := Function.update t.insts i x } :=
  ⟨h.insts.keep instRef, h.requested, h.decodes⟩

theorem Thread.PlainRun.freeBranchPredDepth (h : t.PlainRun) : t.freeBranchPredDepth.PlainRun := by
  rcases t.freeBranchPredDepth_cases with ⟨u, -, -, -, -, eq⟩ | ⟨waiting, -, eq⟩
  · rw [eq]
    exact ⟨h.insts.keep rfl, h.requested, h.decodes⟩
  · rw [eq]
    exact ⟨h.insts, h.requested, h.decodes⟩

theorem Thread.PlainRun.requestMem (h : t.PlainRun) : (t.requestMem i).PlainRun := by
  unfold Thread.requestMem
  split
  · exact h
  · split
    · exact h
    · exact ⟨h.insts, h.requested, h.decodes⟩

theorem Thread.PlainRun.extend {pc : PCState} (h : t.PlainRun) : (t.extend pc).PlainRun :=
  ⟨h.insts.update rfl, h.requested, h.decodes⟩

theorem Thread.PlainRun.markFault (h : t.PlainRun) (core : Core cfg t) (mem : i ∈ t.inflightInsts)
    (unsquashed : (t.insts i).squashed = false) (quiet : t.Quiet) (f : Fault) :
    (t.markFault cfg i f).PlainRun := by
  obtain ⟨a, vs, w, -, -, eq⟩ := markFault_spec core mem unsquashed quiet f
  rw [eq]
  refine ⟨?_, h.requested, h.decodes⟩
  refine Plain.flaggedAll ?_ _
  exact h.insts.keep rfl

theorem Thread.PlainRun.issue (h : t.PlainRun) : (t.enterIssue cfg i).PlainRun := by
  rw [Thread.enterIssue_eq]
  refine ⟨Plain.keep ?_ rfl, h.requested, h.decodes⟩
  exact h.insts.congr fun j => restatus_instRef ..

theorem Thread.PlainRun.decrement {g : Gate} (h : t.PlainRun) : (t.decrement g i).PlainRun := by
  unfold Thread.decrement
  split
  · have lower : (t.update i (·.decrement g)).PlainRun := h.keep rfl
    dsimp only
    split
    · exact ⟨lower.insts, lower.requested, lower.decodes⟩
    · exact lower
  · exact h

theorem Thread.PlainRun.overlap {cb : Callback} {other : InstId} (h : t.PlainRun)
    (kind : cb = .overlapKnown i other ∨ cb = .overlapOurs i other ∨ cb = .overlapTheirs i other)
    (fine : (t.runCallback cfg cb).panicked = none) : (t.runCallback cfg cb).PlainRun := by
  rcases runOverlap_cases t kind fine with same | new
  · rwa [same]
  · rw [new]
    have form := register_eq t i (.depend .mem .completion other)
    change t.addDependency i .mem .completion other = _ at form
    rw [form]
    exact ⟨h.insts.congr fun j => rfl, h.requested, h.decodes⟩

theorem Inv.plainMove (inv : Inv cfg t) (h : t.PlainRun) (plain : o.decodesMacroop cfg = false)
    (move : Move cfg o e t t') : t'.PlainRun := by
  cases move with
  | @decode i decoder si pc idle word hit origin =>
    have known : si.isMacroop = false := by
      rw [origin] at plain
      simp only [Thread.decodesMacroop] at plain
      have same : ({ t with calls := .attemptFetch i :: t.calls }).fetchAddr i = t.fetchAddr i := rfl
      rw [same, word] at plain
      have hit' : ({ t with calls := .attemptFetch i :: t.calls }).fetchBufHit cfg (t.fetchAddr i)
          = true := hit
      rw [hit'] at plain
      simpa using plain
    refine ⟨h.insts.update known, h.requested, fun d mem => ?_⟩
    rcases List.mem_append.mp mem with old | new
    · exact h.decodes d old
    · grind
  | issue => exact h.issue
  | extend => exact h.extend
  | reserve | predictStall | enterTid | execute | loadResult | complete | effAddr | commit =>
    exact ⟨h.insts.keep rfl, h.requested, h.decodes⟩
  | release | resolveCorrect =>
    refine Thread.PlainRun.freeBranchPredDepth ?_
    exact ⟨h.insts, h.requested, h.decodes⟩
  | predictExtend =>
    refine Thread.PlainRun.extend ?_
    exact ⟨h.insts.keep rfl, h.requested, h.decodes⟩
  | waitTid =>
    refine Thread.PlainRun.keep ?_ rfl
    exact h.keep rfl
  | @requestExecution i idle once below =>
    refine ⟨h.insts.keep rfl, fun si mem => ?_, h.decodes⟩
    rcases List.mem_append.mp mem with old | new
    · exact h.requested si old
    · obtain rfl : si = (t.insts i).staticInst := by simpa using new
      exact h.insts i
  | setAccess | execResult | awaitMem => exact h.keep rfl
  | setPAddrs =>
    refine h.keep ?_
    split <;> rfl
  | sendLoad =>
    refine Thread.PlainRun.requestMem ?_
    exact ⟨h.insts.keep rfl, h.requested, h.decodes⟩
  | @sendStore i vals can store =>
    have sent : ((t.enterMemory i).update i (·.setResults vals)).PlainRun := by
      refine ⟨Plain.keep ?_ rfl, h.requested, h.decodes⟩
      exact h.insts.keep rfl
    have asked := sent.requestMem (i := i)
    exact ⟨asked.insts, asked.requested, asked.decodes⟩
  | @sendFault i f can store =>
    have sent : (t.enterMemory i).PlainRun := ⟨h.insts.keep rfl, h.requested, h.decodes⟩
    have idle := can.toIdle.enterMemory
    exact sent.markFault (inv.toCore.enterMemory can.toIdle can.ready) idle.mem idle.unsquashed
      (can.quiet store) f
  | @fault i f idle kind packets calls cause =>
    exact h.markFault inv.toCore idle.mem idle.unsquashed (by simp [Quiet, calls]) f
  | decrement =>
    refine Thread.PlainRun.decrement ?_
    exact ⟨h.insts, h.requested, h.decodes⟩
  | overlap calls kind fine =>
    refine Thread.PlainRun.overlap ?_ kind fine
    exact ⟨h.insts, h.requested, h.decodes⟩
  | @resolveWrong i rest calls predictor followed =>
    have before : ({ t with calls := rest }).freeBranchPredDepth.PlainRun := by
      refine Thread.PlainRun.freeBranchPredDepth ?_
      exact ⟨h.insts, h.requested, h.decodes⟩
    obtain ⟨u, a, vs, w, rfl, -, -, -, -, -, eq⟩ := resolveWrong_spec inv.toCore calls
    rw [eq]
    exact ⟨before.insts.flaggedAll vs, before.requested, before.decodes⟩
  | _ => exact ⟨h.insts, h.requested, h.decodes⟩

end Moves

variable {cfg : Config} {tc : ThreadContext} {t : Thread}

/-- In runs that decode no macro-op, none is passed to `requestExecution`, and every
decoded one is expanded. -/
theorem macroops_expanded
    (run : Guarded cfg tc (fun o _ => o.decodesMacroop cfg = false) t) :
    (∀ si ∈ t.requested, si.isMacroop = false)
      ∧ ∀ d ∈ t.decodes, d.2.isMacroop = true → t.Expands cfg d.1 d.2 := by
  have plain : t.PlainRun := by
    refine Guarded.invariant run ⟨fun _ => rfl, by simp [Thread.init], by simp [Thread.init]⟩
      (fun t p h => ⟨h.insts, h.requested, h.decodes⟩) ?_
    intro o e t t' _ _ ok inv h move
    exact inv.plainMove h ok move
  refine ⟨plain.requested, fun d mem macroop => ?_⟩
  rw [plain.decodes d mem] at macroop
  cases macroop

/-- The sample store is not a macro-op, and it is executed. -/
theorem macroops_expanded_store :
    (Thread.play storeConfig .boot storeSent).requested.length = 1
      ∧ ∀ si ∈ (Thread.play storeConfig .boot storeSent).requested, si.isMacroop = false := by
  have run : Guarded storeConfig .boot (fun o _ => (!o.decodesMacroop storeConfig) = true)
      (Thread.play storeConfig .boot storeSent) := Guarded.play (by decide +kernel)
  exact ⟨by decide +kernel, (macroops_expanded (run.mono (by simp))).1⟩

/-- Instruction word 3 is a macro-op of two micro-ops. -/
def macroConfig : Config :=
  { Config.sample fun word =>
      if word = 3 then { StaticInst.nop with isMacroop := true } else .nop with
    fetchMicroop := fun _ upc =>
      { StaticInst.nop with isMicroop := true, isLastMicroop := upc == 1 } }

def macroRun : List Event :=
  Event.firstFetch { fetched := fun _ => 3 } ++ Event.served {} 0 2 ++ Event.served {} 0 4

/-- The macro-op itself is passed to `requestExecution`, and not its first micro-op. -/
theorem macroop_executed :
    Reachable macroConfig .boot (Thread.play macroConfig .boot macroRun)
      ∧ (∃ si ∈ (Thread.play macroConfig .boot macroRun).requested, si.isMacroop = true)
      ∧ ∃ d ∈ (Thread.play macroConfig .boot macroRun).decodes, d.2.isMacroop = true
        ∧ ¬ (Thread.play macroConfig .boot macroRun).Expands macroConfig d.1 d.2 := by
  have executed : (Thread.play macroConfig .boot macroRun).requested.any (·.isMacroop) = true := by
    decide +kernel
  have decoded : (Thread.play macroConfig .boot macroRun).decodes.any
      (fun d => d.1 == 0 && d.2.isMacroop) = true := by decide +kernel
  obtain ⟨d, mem, first⟩ := List.any_eq_true.mp decoded
  obtain ⟨first, macroop⟩ := Bool.and_eq_true_iff.mp first
  refine ⟨Thread.reachable_play .., List.any_eq_true.mp executed, d, mem, macroop, fun expands => ?_⟩
  rw [beq_iff_eq.mp first] at expands
  have micro := expands 0 (by decide +kernel) (by simp) (by
    intro j le
    obtain rfl := Nat.le_zero.mp le
    decide +kernel)
  have same := congrArg (fun si : Option StaticInst => si.any (·.isMicroop)) micro
  change _ = true at same
  exact absurd same (by decide +kernel)

end Gem5.FlexCPU
