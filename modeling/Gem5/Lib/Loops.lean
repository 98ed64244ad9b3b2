import Mathlib.Data.Sum.Basic

/-!
# Loops that may not end

A loop is the function of one round, which goes on with a state or returns a result. It is run
with fuel, and returns when some fuel is enough.
-/

namespace Loops

universe u v

variable {σ : Type u} {ρ : Type v} {round : σ → σ ⊕ ρ} {s t : σ} {r : ρ}

def loop (round : σ → σ ⊕ ρ) : Nat → σ → Option ρ
  | 0, _ => none
  | fuel + 1, s =>
    match round s with
    | .inl t => loop round fuel t
    | .inr r => some r

/-- The loop ends and returns the result. -/
def Returns (round : σ → σ ⊕ ρ) (s : σ) (r : ρ) : Prop := ∃ fuel, loop round fuel s = some r

theorem returns_of_exit (exit : round s = .inr r) : Returns round s r :=
  ⟨1, by rw [loop, exit]⟩

/-- A round that returns decides the result. -/
theorem returns_exit_iff (exit : round s = .inr r) {result : ρ} :
    Returns round s result ↔ result = r := by
  constructor
  · rintro ⟨fuel, ends⟩
    cases fuel with
    | zero => cases ends
    | succ => grind [loop]
  · rintro rfl
    exact returns_of_exit exit

/-- A round that goes on leaves the result to the rounds that follow. -/
theorem returns_continue_iff (goes : round s = .inl t) : Returns round s r ↔ Returns round t r := by
  constructor
  · rintro ⟨fuel, ends⟩
    cases fuel with
    | zero => cases ends
    | succ fuel =>
      rw [loop, goes] at ends
      exact ⟨fuel, ends⟩
  · rintro ⟨fuel, ends⟩
    refine ⟨fuel + 1, ?_⟩
    rw [loop, goes]
    exact ends

/-- A loop that can always go on does not end. -/
theorem not_returns_of_invariant {I : σ → Prop} (start : I s)
    (keep : ∀ s, I s → ∃ t, round s = .inl t ∧ I t) : ¬Returns round s r := by
  rintro ⟨fuel, ends⟩
  induction fuel generalizing s with
  | zero => cases ends
  | succ fuel ih => grind [loop]

/-- A loop whose rounds keep an invariant and lower a measure ends, with what its last round gives. -/
theorem returns_of_measure {I : σ → Prop} {Q : ρ → Prop} (measure : σ → Nat) (start : I s) (keep : ∀
    s, I s → (∃ t, round s = .inl t ∧ I t ∧ measure t < measure s) ∨ ∃ r, round s = .inr r ∧ Q r) :
    ∃ r, Returns round s r ∧ Q r := by
  induction bound : measure s using Nat.strongRecOn generalizing s with
  | ind n ih => grind [returns_continue_iff, returns_of_exit]

theorem Returns.unique {r' : ρ} (ends : Returns round s r) (ends' : Returns round s r') : r = r' := by
  obtain ⟨fuel, ends⟩ := ends
  induction fuel generalizing s with
  | zero => cases ends
  | succ fuel ih => grind [loop, returns_continue_iff, returns_exit_iff]

end Loops
