import Gem5.Minor.Scoreboard

/-!
# Forwarding and the functional unit of the producer

A functional unit lists the units from which it cannot take a result early. What the test
for issuing an instruction does about that list, against what the list says.
-/

namespace Gem5.Minor

namespace Scoreboard

/-- The instruction's tracked sources, each with its place among the sources. A fault has no
static instruction and so no sources. -/
def trackedSources (flatten : RegId → RegId) (x : DynInst) : List (Nat × Nat) :=
  if x.fault then []
  else (sources flatten x).zipIdx.filterMap fun (src, srcIndex) => src.map fun r => (r, srcIndex)

/-- The latency that is given for a source; the last one stands for all that follow. -/
def configuredLatency (srcRegRelativeLatencies : List Nat) (srcIndex : Nat) : Nat :=
  srcRegRelativeLatencies.getD srcIndex (srcRegRelativeLatencies.getLast?.getD 0)

/-- An instruction in flight writes the register, on a unit of the list. -/
def ProducerListed (s : Scoreboard) (cantForwardFromFUIndices : List Bool) (r : Nat) : Prop :=
  s.numResults r ≠ 0 ∧ 0 ≤ s.fuIndices r
    ∧ cantForwardFromFUIndices.getD (s.fuIndices r).toNat false = true

instance (s : Scoreboard) (l : List Bool) (r : Nat) : Decidable (s.ProducerListed l r) :=
  inferInstanceAs (Decidable (_ ∧ _ ∧ _))

/-- The `cant_forward` of the source: the list is looked up at the register. -/
def CantForward (s : Scoreboard) (cantForwardFromFUIndices : List Bool) (r : Nat) : Prop :=
  s.fuIndices r ≠ 1 ∧ cantForwardFromFUIndices.getD r false = true

instance (s : Scoreboard) (l : List Bool) (r : Nat) : Decidable (s.CantForward l r) :=
  inferInstanceAs (Decidable (_ ∧ _))

/-- The register has its value at cycle `now`, `latency` early. -/
def ReadyAt (s : Scoreboard) (now latency r : Nat) : Prop :=
  s.numUnpredictableResults r = 0 ∧ s.returnCycle r ≤ now + latency

instance (s : Scoreboard) (now latency r : Nat) : Decidable (s.ReadyAt now latency r) :=
  inferInstanceAs (Decidable (_ ∧ _))

/-- Every tracked source is ready, with its latency unless its producer cannot forward. -/
def SourcesReady (flatten : RegId → RegId) (s : Scoreboard) (x : DynInst)
    (srcRegRelativeLatencies : List Nat) (cantForwardFromFUIndices : List Bool)
    (now : Nat) : Prop :=
  ∀ r srcIndex, (r, srcIndex) ∈ trackedSources flatten x →
    s.ReadyAt now (if s.ProducerListed cantForwardFromFUIndices r then 0
      else configuredLatency srcRegRelativeLatencies srcIndex) r

theorem ready_iff (s : Scoreboard) (cant : List Bool) (now latency r : Nat) :
    (!(decide (now + (if s.fuIndices r != 1 && cant.getD r false then 0 else latency)
        < s.returnCycle r) || s.numUnpredictableResults r != 0)) = true ↔
      s.ReadyAt now (if s.CantForward cant r then 0 else latency) r := by
  have same : (s.fuIndices r != 1 && cant.getD r false) = true ↔ s.CantForward cant r := by
    rw [CantForward, Bool.and_eq_true, bne_iff_ne]
  simp only [same, Bool.not_eq_true', Bool.or_eq_false_iff, decide_eq_false_iff_not, Nat.not_lt,
    bne_eq_false_iff_eq]
  exact and_comm

theorem canInstIssue_iff (flatten : RegId → RegId) (s : Scoreboard) (x : DynInst)
    (lats : List Nat) (cant : List Bool) (now : Nat) :
    canInstIssue flatten s x lats cant now = true ↔
      ∀ r srcIndex, (r, srcIndex) ∈ trackedSources flatten x →
        s.ReadyAt now (if s.CantForward cant r then 0 else configuredLatency lats srcIndex) r := by
  cases fault : x.fault with
  | true => simp [canInstIssue, trackedSources, fault]
  | false =>
    simp only [canInstIssue, fault, Bool.false_or, List.all_eq_true, trackedSources,
      Bool.false_eq_true, if_false, List.mem_filterMap, Option.map_eq_some_iff, Prod.mk.injEq]
    constructor
    · rintro all r srcIndex ⟨⟨src, place⟩, mem, found, rfl, rfl, rfl⟩
      exact (ready_iff s cant now _ found).mp (all _ mem)
    · rintro all ⟨src, srcIndex⟩ mem
      cases src with
      | none => rfl
      | some r =>
        have ready := all r srcIndex ⟨_, mem, r, rfl, rfl, rfl⟩
        exact (ready_iff s cant now _ r).mpr ready

/-- A source that has to wait whether its value is forwarded or not. -/
def Waits (s : Scoreboard) (now latency r : Nat) : Prop :=
  s.numUnpredictableResults r ≠ 0 ∨ now + latency < s.returnCycle r

/-- A source that is ready with its latency and would not be without it. -/
def NeedsForwarding (s : Scoreboard) (now latency r : Nat) : Prop :=
  s.numUnpredictableResults r = 0 ∧ now < s.returnCycle r ∧ s.returnCycle r ≤ now + latency

/-- A source is not ready, with a unit that may not forward it, when it waits in any case or
needs forwarding and cannot have it. -/
theorem not_readyAt_iff (s : Scoreboard) (refused : Prop) [Decidable refused]
    (now latency r : Nat) :
    ¬s.ReadyAt now (if refused then 0 else latency) r ↔
      s.Waits now latency r ∨ s.NeedsForwarding now latency r ∧ refused := by
  unfold ReadyAt Waits NeedsForwarding
  by_cases held : refused
  · simp only [held, if_true, and_true]
    omega
  · grind

/-- Not all sources are ready when one waits in any case, or one needs forwarding that its
producer may not give. -/
theorem not_all_ready_iff (s : Scoreboard) (srcs : List (Nat × Nat)) (lats : List Nat)
    (refused : Nat → Prop) [DecidablePred refused] (now : Nat) :
    (¬∀ r srcIndex, (r, srcIndex) ∈ srcs →
        s.ReadyAt now (if refused r then 0 else configuredLatency lats srcIndex) r) ↔
      (∃ src ∈ srcs, s.Waits now (configuredLatency lats src.2) src.1)
        ∨ ∃ src ∈ srcs, s.NeedsForwarding now (configuredLatency lats src.2) src.1
          ∧ refused src.1 := by
  simp only [not_forall, not_readyAt_iff]
  constructor
  · grind
  · grind

/-- The test agrees with the list when some source waits in any case, or when a source that
needs forwarding is refused by the one reading of the list just when one is by the other. -/
theorem canInstIssue_agrees_iff (flatten : RegId → RegId) (s : Scoreboard) (x : DynInst)
    (lats : List Nat) (cant : List Bool) (now : Nat) :
    (canInstIssue flatten s x lats cant now = true ↔ SourcesReady flatten s x lats cant now) ↔
      (∃ src ∈ trackedSources flatten x, s.Waits now (configuredLatency lats src.2) src.1)
      ∨ ((∃ src ∈ trackedSources flatten x,
            s.NeedsForwarding now (configuredLatency lats src.2) src.1 ∧ s.CantForward cant src.1)
          ↔ ∃ src ∈ trackedSources flatten x,
            s.NeedsForwarding now (configuredLatency lats src.2) src.1
              ∧ s.ProducerListed cant src.1) := by
  have code := not_all_ready_iff s (trackedSources flatten x) lats (s.CantForward cant) now
  have listed := not_all_ready_iff s (trackedSources flatten x) lats (s.ProducerListed cant) now
  rw [← canInstIssue_iff] at code
  rw [← SourcesReady] at listed
  rw [← @not_iff_not (canInstIssue flatten s x lats cant now = true), code, listed]
  by_cases waits : ∃ src ∈ trackedSources flatten x,
    s.Waits now (configuredLatency lats src.2) src.1
  · simp only [waits, true_or]
  · simp only [waits, false_or]

/-- An instruction that reads register 3, and one on unit 0 that writes it. -/
def reader : DynInst :=
  { id := ⟨0, 1, 2⟩
    staticInst := { opClass := 1, srcRegs := [⟨.int, 3⟩] } }

def producer : DynInst :=
  { id := ⟨0, 1, 1⟩
    staticInst := { opClass := 1, destRegs := [⟨.int, 3⟩] }
    flatDestRegs := [⟨.int, 3⟩] }

/-- Register 3 will be ready at cycle 12 and can be had two cycles early, as forwarding is
refused from unit 3 only; the reader has to wait. -/
theorem refused_by_register :
    ¬(canInstIssue id (markupInstDests {} producer 12 false) reader [2]
        [false, false, false, true] 10 = true ↔
      SourcesReady id (markupInstDests {} producer 12 false) reader [2]
        [false, false, false, true] 10) := by
  have blocked : canInstIssue id (markupInstDests {} producer 12 false) reader [2]
      [false, false, false, true] 10 = false := by decide
  have srcs : trackedSources id reader = [(3, 0)] := by decide
  rw [blocked, SourcesReady, srcs]
  refine fun same => Bool.false_ne_true (same.mpr fun r srcIndex mem => ?_)
  cases List.mem_singleton.mp mem
  decide

end Scoreboard

end Gem5.Minor
