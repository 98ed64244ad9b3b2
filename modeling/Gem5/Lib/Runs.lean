import Mathlib.Logic.Relation

/-!
# Guarded runs of a deterministic machine

A machine is a step function that consumes one input at a time. A guard may
restrict which inputs are offered in which state; a run is a finite sequence of
guarded steps. Invariants and monotone observations are lifted from one step to
whole runs here, once.
-/

namespace Runs

universe u v

variable {σ : Type u} {ε : Type v} {step : σ → ε → σ} {ok : σ → ε → Prop}

/-- `Reaches step ok s t`: some run of guarded steps leads from `s` to `t`. -/
inductive Reaches (step : σ → ε → σ) (ok : σ → ε → Prop) (s : σ) : σ → Prop where
  | refl : Reaches step ok s s
  | tail {t : σ} (e : ε) : Reaches step ok s t → ok t e → Reaches step ok s (step t e)

/-- Every input is offered in every state. -/
def Free : σ → ε → Prop := fun _ _ => True

theorem Reaches.mono {weak : σ → ε → Prop} (imp : ∀ s e, ok s e → weak s e) {s t : σ}
    (h : Reaches step ok s t) : Reaches step weak s t := by
  induction h with
  | refl => exact .refl
  | tail e _ guard ih => exact .tail e ih (imp _ _ guard)

/-- What holds at the start and survives a guarded step holds after every run. -/
theorem Reaches.invariant {P : σ → Prop} {s t : σ} (h : Reaches step ok s t) (start : P s)
    (keep : ∀ r e, P r → ok r e → P (step r e)) : P t := by
  induction h with
  | refl => exact start
  | tail e _ guard ih => exact keep _ e ih guard

/-- A reflexive, transitive relation that every guarded step from an invariant
state respects relates the two ends of every run. -/
theorem Reaches.relates {P : σ → Prop} {R : σ → σ → Prop} {s t : σ}
    (h : Reaches step ok s t) (start : P s) (keep : ∀ r e, P r → ok r e → P (step r e))
    (refl : ∀ r, R r r) (trans : ∀ a b c, R a b → R b c → R a c)
    (one : ∀ r e, P r → ok r e → R r (step r e)) : R s t := by
  have both : P t ∧ R s t := by
    induction h with
    | refl => exact ⟨start, refl s⟩
    | tail e _ guard ih =>
      exact ⟨keep _ e ih.1 guard, trans _ _ _ ih.2 (one _ e ih.1 guard)⟩
  exact both.2

/-- Feed a list of inputs to the machine. -/
def run (step : σ → ε → σ) (s : σ) (inputs : List ε) : σ :=
  inputs.foldl step s

theorem reaches_run (step : σ → ε → σ) (s : σ) (inputs : List ε) :
    Reaches step Free s (run step s inputs) := by
  have general : ∀ t, Reaches step Free s t → Reaches step Free s (inputs.foldl step t) := by
    induction inputs with
    | nil => exact fun _ h => h
    | cons e rest ih => exact fun t h => ih (step t e) (.tail e h trivial)
  exact general s .refl

/-- Whether a guard lets a list of inputs pass. -/
def offered (step : σ → ε → σ) (ok : σ → ε → Bool) : σ → List ε → Bool
  | _, [] => true
  | s, e :: rest => ok s e && offered step ok (step s e) rest

theorem reaches_offered {ok : σ → ε → Bool} {inputs : List ε} {s : σ}
    (pass : offered step ok s inputs = true) :
    Reaches step (fun s e => ok s e = true) s (run step s inputs) := by
  have general : ∀ (l : List ε) (r t : σ), Reaches step (fun s e => ok s e = true) r t →
      offered step ok t l = true → Reaches step (fun s e => ok s e = true) r (run step t l) := by
    intro l
    induction l with
    | nil => exact fun r t sofar _ => sofar
    | cons e rest ih =>
      intro r t sofar pass
      obtain ⟨first, later⟩ := Bool.and_eq_true_iff.mp pass
      exact ih r _ (.tail e sofar first) later
  exact general inputs s s .refl pass

section Partial

variable {step : σ → ε → Option σ} {ok : σ → ε → Prop}

/-- Some run of guarded steps, none of which fails, leads from `s` to `t`. -/
inductive Leads (step : σ → ε → Option σ) (ok : σ → ε → Prop) (s : σ) : σ → Prop where
  | refl : Leads step ok s s
  | tail {t u : σ} (e : ε) : Leads step ok s t → ok t e → step t e = some u → Leads step ok s u

theorem Leads.invariant {P : σ → Prop} {s t : σ} (h : Leads step ok s t) (start : P s)
    (keep : ∀ r e r', P r → ok r e → step r e = some r' → P r') : P t := by
  induction h with
  | refl => exact start
  | tail e _ guard eq ih => exact keep _ e _ ih guard eq

/-- A run from after the first step is a run from before it. -/
theorem Leads.after {r s t : σ} (h : Leads step ok s t) (e : ε) (guard : ok r e)
    (eq : step r e = some s) : Leads step ok r t := by
  induction h with
  | refl => exact .tail e .refl guard eq
  | tail e' _ guard' eq' ih => exact .tail e' ih guard' eq'

/-- Feed a list of inputs to the machine while the guard lets them pass. -/
def feed (step : σ → ε → Option σ) (ok : σ → ε → Prop) [∀ s e, Decidable (ok s e)] :
    σ → List ε → Option σ
  | s, [] => some s
  | s, e :: rest => if ok s e then (step s e).bind fun t => feed step ok t rest else none

theorem leads_feed [∀ s e, Decidable (ok s e)] {inputs : List ε} {s t : σ}
    (fed : feed step ok s inputs = some t) : Leads step ok s t := by
  induction inputs generalizing s with
  | nil => exact Option.some.inj fed ▸ .refl
  | cons e rest ih =>
    by_cases guard : ok s e
    · rw [feed, if_pos guard] at fed
      obtain ⟨r, eq, later⟩ := Option.bind_eq_some_iff.mp fed
      exact (ih later).after e guard eq
    · rw [feed, if_neg guard] at fed
      cases fed

end Partial

end Runs

namespace Past

universe u v w

variable {ε : Type u} {σ : Type v}

def Since (p q : ε → Prop) : List ε → Prop
  | [] => False
  | e :: past => p e ∨ (¬ q e ∧ Since p q past)

/-- The state of a machine after its past. -/
def after (step : σ → ε → σ) (s : σ) : List ε → σ
  | [] => s
  | e :: past => step (after step s past) e

/-- A run of a machine that may refuse an event: the events offered and taken so far, each with
its outcome. -/
inductive Logged {ο : Type w} (step : σ → ε → Option (σ × ο)) (ok : σ → ε → Prop) (s : σ) :
    σ → List (ε × ο) → Prop where
  | start : Logged step ok s s []
  | log {t t' : σ} {past : List (ε × ο)} {e : ε} {o : ο} : Logged step ok s t past → ok t e →
      step t e = some (t', o) → Logged step ok s t' ((e, o) :: past)

/-- What holds at the start and is kept by every offered event holds after every run. -/
theorem Logged.invariant {ο : Type w} {step : σ → ε → Option (σ × ο)} {ok : σ → ε → Prop} {s t : σ}
    {past : List (ε × ο)} {P : σ → List (ε × ο) → Prop} (run : Logged step ok s t past)
    (start : P s [])
    (keep : ∀ r past e r' o, P r past → ok r e → step r e = some (r', o) → P r' ((e, o) :: past)) :
    P t past := by
  induction run with
  | start => exact start
  | log _ offered taken ih => exact keep _ _ _ _ _ ih offered taken

end Past
