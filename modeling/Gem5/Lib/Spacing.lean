import Mathlib.Data.List.Basic

/-!
# Distances in a log of timed commands

A log has its newest command first. `gap` gives the least distance of two commands, if there is
one, and `allowed` the earliest time that a command may have. A command is spaced from the whole
log once it is not too early for `allowed`.
-/

namespace Spacing

open List Option

universe u

variable {γ : Type u} {time : γ → Nat} {gap : γ → γ → Option Nat} {allowed raised : γ → Nat}

def Spaced (time : γ → Nat) (gap : γ → γ → Option Nat) (later earlier : γ) : Prop :=
  ∀ g, gap earlier later = some g → time earlier + g ≤ time later

/-- What is allowed is far enough from the command `c`. -/
def Heeds (time : γ → Nat) (gap : γ → γ → Option Nat) (allowed : γ → Nat) (c : γ) : Prop :=
  ∀ later g, gap c later = some g → time c + g ≤ allowed later

theorem Heeds.mono {c : γ} (h : Heeds time gap allowed c) (le : ∀ d, allowed d ≤ raised d) :
    Heeds time gap raised c :=
  fun later g some_ => Nat.le_trans (h later g some_) (le later)

/-- The log is spaced, and what is allowed heeds all of it. -/
structure Kept (time : γ → Nat) (gap : γ → γ → Option Nat) (allowed : γ → Nat) (log : List γ) :
    Prop where
  spaced : log.Pairwise (Spaced time gap)
  heeded : ∀ c ∈ log, Heeds time gap allowed c

theorem Kept.nil : Kept time gap allowed [] := ⟨List.Pairwise.nil, by simp⟩

theorem Kept.cons {log : List γ} (h : Kept time gap allowed log) {c : γ}
    (due : allowed c ≤ time c) (le : ∀ d, allowed d ≤ raised d)
    (new : Heeds time gap raised c) : Kept time gap raised (c :: log) where
  spaced := by
    refine List.pairwise_cons.mpr ⟨?_, h.spaced⟩
    intro earlier old g some_
    exact Nat.le_trans (h.heeded earlier old c g some_) due
  heeded := by
    intro d mem
    rcases List.mem_cons.mp mem with rfl | old
    · exact new
    · exact (h.heeded d old).mono le

variable {n span x : Nat} {log : List Nat}

/-- The newest `n` times, where `0` stands for a time that is not there. -/
def recent (n : Nat) (log : List Nat) : List Nat := (log ++ List.replicate n 0).take n

@[simp] theorem length_recent : (recent n log).length = n := by simp [recent]

theorem recent_nil : recent n [] = List.replicate n 0 := by simp [recent]

theorem recent_eq_nil : recent n log = [] ↔ n = 0 := by
  rw [← length_eq_zero_iff, length_recent]

theorem getElem?_recent {i : Nat} (lt : i < n) : (recent n log)[i]? = some (log.getD i 0) := by
  rw [recent, List.getElem?_take_of_lt lt, List.getElem?_append, getD_eq_getElem?_getD]
  split
  next inside => rw [List.getElem?_eq_getElem inside, getD_some]
  next outside => grind

/-- The oldest of the newest times. -/
theorem getLastD_recent (pos : 0 < n) : (recent n log).getLastD 0 = log.getD (n - 1) 0 := by
  rw [List.getLastD_eq_getLast?, List.getLast?_eq_getElem?, length_recent,
    getElem?_recent (by omega), getD_some]

theorem recent_cons (pos : 0 < n) : recent n (x :: log) = x :: (recent n log).dropLast := by
  apply ext_getElem?
  intro i
  cases i with
  | zero => rw [getElem?_recent pos, getD_cons_zero, List.getElem?_cons_zero]
  | succ i =>
    rw [List.getElem?_cons_succ, List.getElem?_dropLast, length_recent]
    split
    next lt => rw [getElem?_recent (by omega), getElem?_recent (by omega), getD_cons_succ]
    next ge => exact List.getElem?_eq_none (by rw [length_recent]; omega)

/-- In a log with its newest time first, `n + 1` times that follow one another span `span`. -/
def Sparse (n span : Nat) (log : List Nat) : Prop :=
  ∀ i x y, log[i]? = some x → log[i + n]? = some y → y + span ≤ x

theorem Sparse.nil : Sparse n span [] := by
  intro i x y some_
  simp at some_

theorem Sparse.cons (h : Sparse n span log) (pos : 0 < n)
    (new : ∀ y, log[n - 1]? = some y → y + span ≤ x) : Sparse n span (x :: log) := by
  intro i z y first last
  cases i with
  | zero => grind
  | succ i =>
    refine h i z y (by simpa using first) ?_
    rwa [Nat.add_right_comm, List.getElem?_cons_succ] at last

end Spacing
