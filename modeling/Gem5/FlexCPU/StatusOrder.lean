import Gem5.FlexCPU.Counting

/-!
# Statuses move forward

The `notify*` functions write the status without looking at it. The only write that
can lower it is `notifyComplete` on a store that was committed when it was sent: its
memory response comes after `notifyCommitted`.
-/

namespace Gem5.FlexCPU

open Thread

/-- The event is the last memory response to a committed store. -/
def Thread.answersCommitted (o : Thread) : Event → Bool
  | .activate => false
  | .serve k _ => o.calls.isEmpty && match o.requests[k]? with
    | some (.memResp p) => (o.insts p.inst).status == .committed
        && o.requests.countP (awaitsPacket p.inst) == 1
    | _ => false

variable {cfg : Config} {tc : ThreadContext} {t : Thread}

theorem Thread.answersCommitted_action {o : Thread} {e : Event} {i : InstId}
    (early : o.answersCommitted e = false) (caused : Caused o e t (.complete i)) :
    (t.insts i).status ≠ .committed := by
  rcases caused with ⟨-, status⟩ | ⟨p, ⟨k, ans, rfl, at_, -⟩, rfl, calls, single, status⟩
  · simp [status]
  · intro committed
    rw [committed] at status
    simp [Thread.answersCommitted, calls, at_, single, status] at early

theorem Moves.status_le {o u : Thread} {e : Event} (inv : Inv cfg t) (moves : Moves cfg o e t u)
    (early : o.answersCommitted e = false) (i : InstId) :
    (t.insts i).status ≤ (u.insts i).status := by
  induction moves with
  | refl => exact Nat.le_refl _
  | @tail v w first last ih =>
    obtain ⟨a, caused, step⟩ := (inv.moves first).refines last
    refine Nat.le_trans ih (step.status_le (inv.moves first).wf fun done => ?_)
    subst done
    exact Thread.answersCommitted_action early caused

/-- Unless a committed store is answered, every later status is at least as high. -/
theorem status_never_moves_backwards
    (run : Guarded cfg tc (fun o e => o.answersCommitted e = false) t) {t' : Thread}
    (later : Runs.Reaches (Thread.step cfg) (fun o e => o.answersCommitted e = false) t t')
    (i : InstId) :
    (t.insts i).status ≤ (t'.insts i).status
      ∧ ((t.insts i).isCommitted = true → (t'.insts i).isCommitted = true) := by
  have rises : ∀ i, (t.insts i).status ≤ (t'.insts i).status := by
    refine Runs.Reaches.relates (P := Inv cfg)
      (R := fun u v => ∀ i, (u.insts i).status ≤ (v.insts i).status) later run.inv
      (fun _ e inv _ => inv.stepped e) (fun _ _ => Nat.le_refl _)
      (fun _ _ _ first second i => Nat.le_trans (first i) (second i)) ?_
    intro r e inv early i
    rcases inv.step e with ⟨p, eq, -⟩ | moves
    · rw [eq]
      exact Nat.le_refl _
    · exact Moves.status_le inv moves early i
  refine ⟨rises i, fun committed => decide_eq_true ?_⟩
  exact Nat.le_trans (of_decide_eq_true committed) (rises i)

/-- A store of eight bytes, followed by instructions without effect. -/
def storeConfig : Config := .sample fun word =>
  if word = 3 then .sampleStore else .nop

def storeProgram : Answer := { fetched := fun addr => if addr = 0x1000 then 3 else 7 }

/-- The store is sent and committed. -/
def storeSent : List Event :=
  Event.firstFetch storeProgram ++ Event.served {} 0 2 ++ Event.served {} 0 4
    ++ Event.served {} 1 0 ++ Event.served {} 1 0 ++ Event.served {} 1 8 ++ Event.served {} 1 0

theorem status_never_moves_backwards_store :
    ((Thread.play storeConfig .boot (Event.firstFetch storeProgram)).insts 0).status
      ≤ ((Thread.play storeConfig .boot storeSent).insts 0).status
      ∧ ((Thread.play storeConfig .boot storeSent).insts 0).status = .committed := by
  have first : Guarded storeConfig .boot (fun o e => (!o.answersCommitted e) = true)
      (Thread.play storeConfig .boot (Event.firstFetch storeProgram)) :=
    Guarded.play (by decide +kernel)
  have more : Thread.play storeConfig .boot storeSent = Runs.run (Thread.step storeConfig)
      (Thread.play storeConfig .boot (Event.firstFetch storeProgram))
      (storeSent.drop (Event.firstFetch storeProgram).length) := by
    rw [Thread.play, Thread.play, Runs.run, Runs.run, Runs.run, ← List.foldl_append]
    rfl
  have second : Runs.Reaches (Thread.step storeConfig) (fun o e => (!o.answersCommitted e) = true)
      (Thread.play storeConfig .boot (Event.firstFetch storeProgram))
      (Thread.play storeConfig .boot storeSent) := by
    rw [more]
    exact Runs.reaches_offered (by decide +kernel)
  refine ⟨(status_never_moves_backwards (first.mono ?_) (second.mono ?_) 0).1, by decide +kernel⟩
  · simp
  · simp

/-- The response to the store takes its status from `Committed` back to `Complete`. -/
theorem status_moves_backwards :
    Reachable storeConfig .boot (Thread.play storeConfig .boot storeSent)
      ∧ ((Thread.play storeConfig .boot storeSent).insts 0).isCommitted = true
      ∧ Reachable storeConfig .boot
          (Thread.play storeConfig .boot (storeSent ++ Event.served {} 1 0))
      ∧ ((Thread.play storeConfig .boot (storeSent ++ Event.served {} 1 0)).insts 0).status
          = .complete
      ∧ ((Thread.play storeConfig .boot (storeSent ++ Event.served {} 1 0)).insts 0).isCommitted
          = false :=
  ⟨Thread.reachable_play .., by decide +kernel, Thread.reachable_play .., by decide +kernel,
    by decide +kernel⟩

end Gem5.FlexCPU
