import Gem5.FlexCPU.Frame

/-!
# The effect of the compound operations

Closed forms for the functions that move several fields at once: releasing a
prediction slot, squashing, and registering dependencies.
-/

namespace Gem5.FlexCPU

namespace Thread

theorem freeBranchPredDepth_cases (t : Thread) :
    (∃ u, t.unpredictedBranch = some u ∧ t.back = some u ∧ t.advanceInstNeedsRetry = false
        ∧ t.remainingBranchPredDepth = 0
        ∧ t.freeBranchPredDepth = ({ t with unpredictedBranch := none }).predictCtrlInst u)
      ∨ ∃ waiting, (waiting = none ∨ waiting = t.unpredictedBranch)
        ∧ t.freeBranchPredDepth = { t with
            remainingBranchPredDepth := t.remainingBranchPredDepth + 1
            unpredictedBranch := waiting } := by
  unfold freeBranchPredDepth
  split
  · rename_i empty
    cases found : (t.lock t.unpredictedBranch).filter
        fun u => t.back == some u && !t.advanceInstNeedsRetry with
    | some u =>
      left
      obtain ⟨locked, test⟩ := Option.filter_eq_some_iff.mp found
      simp only [Bool.and_eq_true, beq_iff_eq, Bool.not_eq_true'] at test
      exact ⟨u, (Option.filter_eq_some_iff.mp locked).1, test.1, test.2, empty, rfl⟩
    | none => simp
  · simp

/-- Flag `v` as squashed. -/
def flag (t : Thread) (v : InstId) : Thread :=
  t.update v fun inst => { inst with squashed := true }

/-- The slots that the squash callbacks of one instruction give back. -/
def released (x : InflightInst) (v : InstId) : Nat :=
  if x.isComplete then 0 else x.squashCallbacks.count (.releaseIfIncomplete v)

theorem runSquashCallbacks_spec (t : Thread) (v : InstId) (cbs : List Callback)
    (shape : ∀ cb ∈ cbs, (∃ n, cb = .squashPredictor n) ∨ cb = .releaseIfIncomplete v)
    (back : t.back = some v)
    (waits : .releaseIfIncomplete v ∈ cbs → t.unpredictedBranch ≠ some v) :
    ∃ waiting, (waiting = none ∨ waiting = t.unpredictedBranch) ∧
      cbs.foldl runSquashCallback t = { t with
        remainingBranchPredDepth := t.remainingBranchPredDepth
          + (if (t.insts v).isComplete then 0 else cbs.count (.releaseIfIncomplete v))
        unpredictedBranch := waiting } := by
  induction cbs generalizing t with
  | nil => exact ⟨t.unpredictedBranch, .inr rfl, by simp⟩
  | cons cb rest ih =>
    have tailShape : ∀ c ∈ rest, (∃ n, c = .squashPredictor n) ∨ c = .releaseIfIncomplete v :=
      fun c hc => shape c (List.mem_cons_of_mem cb hc)
    rcases shape cb (List.mem_cons_self ..) with ⟨n, rfl⟩ | rfl
    · grind [runSquashCallback]
    · by_cases done : (t.insts v).isComplete = true
      · grind [runSquashCallback]
      · have notDone : (t.insts v).isComplete = false := by simpa using done
        have other := waits (List.mem_cons_self ..)
        rcases t.freeBranchPredDepth_cases with ⟨u, waiting, last, -, -, -⟩ | ⟨w, hw, free⟩
        · grind
        · have elsewhere : w ≠ some v := by
            rcases hw with rfl | rfl
            · simp
            · exact other
          obtain ⟨w', hw', eq⟩ := ih ({ t with
              remainingBranchPredDepth := t.remainingBranchPredDepth + 1
              unpredictedBranch := w }) tailShape back fun _ => elsewhere
          refine ⟨w', ?_, ?_⟩
          · grind
          · simp only [List.foldl_cons, runSquashCallback, notDone, free]
            simp only [notDone] at eq
            simp only [Bool.false_eq_true, if_false] at eq ⊢
            rw [eq, List.count_cons_self]
            congr 1
            omega

theorem notifySquashed_spec (t : Thread) (v : InstId)
    (shape : ∀ cb ∈ (t.insts v).squashCallbacks,
      (∃ n, cb = .squashPredictor n) ∨ cb = .releaseIfIncomplete v)
    (back : t.back = some v) (unsquashed : (t.insts v).squashed = false)
    (waits : Predicted (t.insts v) v → t.unpredictedBranch ≠ some v) :
    ∃ waiting, (waiting = none ∨ waiting = t.unpredictedBranch) ∧
      t.notifySquashed v = { t.flag v with
        remainingBranchPredDepth := t.remainingBranchPredDepth + released (t.insts v) v
        unpredictedBranch := waiting } := by
  obtain ⟨w, hw, eq⟩ := (t.flag v).runSquashCallbacks_spec v (t.insts v).squashCallbacks
    shape back waits
  refine ⟨w, hw, ?_⟩
  unfold notifySquashed
  rw [if_neg (by simp [unsquashed])]
  have complete : ((t.flag v).insts v).isComplete = (t.insts v).isComplete := by
    simp [flag, update, InflightInst.isComplete, InflightInst.reached]
  rw [complete] at eq
  exact eq

end Thread

end Gem5.FlexCPU
