import Mathlib.Data.Nat.Basic
import Mathlib.Data.List.Basic

/-!
# Ranges cut at the multiples of a chunk size

A range is cut where a chunk ends. The pieces tile the range, and their number is a quotient
that is rounded up.
-/

namespace Chunks

variable {b lo mid hi : Nat} {pieces rest : List (Nat × Nat)}

/-- The pieces, each an address and a size, follow one another from `lo` to `hi`, and none of
them leaves its chunk. -/
def Tiles (b : Nat) : Nat → List (Nat × Nat) → Nat → Prop
  | lo, [], hi => lo = hi
  | lo, piece :: rest, hi =>
    piece.1 = lo ∧ 0 < piece.2 ∧ lo + piece.2 ≤ (lo / b + 1) * b ∧ Tiles b (lo + piece.2) rest hi

theorem Tiles.snoc (h : Tiles b lo pieces mid) {s : Nat} (pos : 0 < s)
    (inside : mid + s ≤ (mid / b + 1) * b) : Tiles b lo (pieces ++ [(mid, s)]) (mid + s) := by
  induction pieces generalizing lo with
  | nil =>
    obtain rfl : lo = mid := h
    exact ⟨rfl, pos, inside, rfl⟩
  | cons piece rest ih =>
    obtain ⟨start, some_, stays, tail⟩ := h
    exact ⟨start, some_, stays, ih tail⟩

/-- The number of pieces of a range. -/
def count (b lo hi : Nat) : Nat := (lo % b + (hi - lo) + b - 1) / b

theorem count_last (pos : 0 < b) (some_ : lo < hi) (inside : hi ≤ (lo / b + 1) * b) :
    count b lo hi = 1 := by
  have split := Nat.div_add_mod lo b
  rw [Nat.add_mul, Nat.one_mul, Nat.mul_comm] at inside
  refine Nat.div_eq_of_lt_le ?_ ?_ <;> omega

theorem count_more (pos : 0 < b) (outside : (lo / b + 1) * b < hi) :
    count b lo hi = count b ((lo / b + 1) * b) hi + 1 := by
  have split := Nat.div_add_mod lo b
  have less := Nat.mod_lt lo pos
  have aligned : (lo / b + 1) * b % b = 0 := Nat.mul_mod_left _ _
  rw [count, count, aligned, ← Nat.add_div_right _ pos]
  rw [Nat.add_mul, Nat.one_mul, Nat.mul_comm] at outside ⊢
  congr 1
  omega

theorem lt_next (pos : 0 < b) (x : Nat) : x < (x / b + 1) * b := by
  have split := Nat.div_add_mod x b
  have less := Nat.mod_lt x pos
  rw [Nat.add_mul, Nat.one_mul, Nat.mul_comm]
  omega

theorem div_eq_of_between (x : Nat) {y : Nat} (low : x / b * b ≤ y) (high : y < (x / b + 1) * b) :
    y / b = x / b := by
  exact Nat.div_eq_of_lt_le low high

/-- Where the piece that starts at `lo` ends. -/
def nextCut (b lo hi : Nat) : Nat := min hi ((lo / b + 1) * b)

/-- The pieces are as long as the chunks and the range allow. -/
def Cut (b : Nat) : Nat → List (Nat × Nat) → Nat → Prop
  | lo, [], hi => lo = hi
  | lo, piece :: rest, hi =>
    piece = (lo, nextCut b lo hi - lo) ∧ lo < hi ∧ Cut b (nextCut b lo hi) rest hi

theorem lt_nextCut (pos : 0 < b) (some_ : lo < hi) : lo < nextCut b lo hi :=
  Nat.lt_min.mpr ⟨some_, lt_next pos lo⟩

theorem nextCut_le : nextCut b lo hi ≤ hi := Nat.min_le_left _ _

/-- The first piece is what the range has of the chunk of `lo`. -/
theorem lt_nextCut_iff (pos : 0 < b) {y : Nat} (low : lo ≤ y) :
    y < nextCut b lo hi ↔ y < hi ∧ y / b = lo / b := by
  rw [nextCut, Nat.lt_min]
  refine and_congr_right fun _ => ?_
  constructor
  · intro high
    have below : lo / b * b ≤ y := Nat.le_trans (Nat.div_mul_le_self lo b) low
    exact div_eq_of_between lo below high
  · intro same
    rw [← same]
    exact lt_next pos y

theorem Cut.eq_nil (h : Cut b hi pieces hi) : pieces = [] := by
  cases pieces with
  | nil => rfl
  | cons => exact absurd h.2.1 (Nat.lt_irrefl _)

theorem exists_cut (pos : 0 < b) (le : lo ≤ hi) : ∃ pieces, Cut b lo pieces hi := by
  induction left : hi - lo using Nat.strong_induction_on generalizing lo with
  | _ left ih =>
    rcases Nat.eq_or_lt_of_le le with rfl | some_
    · exact ⟨[], rfl⟩
    · have forward := lt_nextCut pos some_
      obtain ⟨rest, cut⟩ := ih (hi - nextCut b lo hi) (by omega) nextCut_le rfl
      exact ⟨(lo, nextCut b lo hi - lo) :: rest, rfl, some_, cut⟩

theorem Cut.length_eq (pos : 0 < b) (h : Cut b lo pieces hi) (some_ : lo < hi) :
    pieces.length = count b lo hi := by
  induction pieces generalizing lo with
  | nil =>
    obtain rfl : lo = hi := h
    omega
  | cons piece rest ih =>
    obtain ⟨rfl, -, tail⟩ := h
    by_cases outside : (lo / b + 1) * b < hi
    · have cut : nextCut b lo hi = (lo / b + 1) * b := Nat.min_eq_right (Nat.le_of_lt outside)
      rw [cut] at tail
      rw [List.length_cons, ih tail outside, count_more pos outside]
    · have inside : hi ≤ (lo / b + 1) * b := Nat.le_of_not_lt outside
      have cut : nextCut b lo hi = hi := Nat.min_eq_left inside
      rw [cut] at tail
      rw [tail.eq_nil, count_last pos some_ inside]
      rfl

/-- Every piece is what the range has of its chunk. -/
theorem Cut.mem (pos : 0 < b) (h : Cut b lo pieces hi) {piece : Nat × Nat} (mem : piece ∈ pieces) :
    lo ≤ piece.1 ∧ 0 < piece.2 ∧ piece.1 + piece.2 ≤ hi
      ∧ ∀ y, piece.1 ≤ y ∧ y < piece.1 + piece.2 ↔ lo ≤ y ∧ y < hi ∧ y / b = piece.1 / b := by
  induction pieces generalizing lo with
  | nil => cases mem
  | cons first rest ih =>
    obtain ⟨rfl, some_, tail⟩ := h
    have forward := lt_nextCut pos some_
    have inside : nextCut b lo hi ≤ hi := nextCut_le
    rcases List.mem_cons.mp mem with rfl | behind
    · have whole : lo + (nextCut b lo hi - lo) = nextCut b lo hi := by omega
      refine ⟨Nat.le_refl _, Nat.sub_pos_of_lt forward, by omega, fun y => ?_⟩
      rw [whole]
      exact and_congr_right fun low => lt_nextCut_iff pos low
    · grind [lt_nextCut_iff]

/-- The pieces cover the range. -/
theorem Cut.covers (h : Cut b lo pieces hi) {y : Nat} (low : lo ≤ y)
    (high : y < hi) : ∃ piece ∈ pieces, piece.1 ≤ y ∧ y < piece.1 + piece.2 := by
  induction pieces generalizing lo with
  | nil =>
    obtain rfl : lo = hi := h
    omega
  | cons first rest ih =>
    obtain ⟨rfl, some_, tail⟩ := h
    by_cases early : y < nextCut b lo hi
    · exact ⟨_, List.mem_cons_self .., low, by dsimp only; omega⟩
    · grind

/-- The pieces are in order. -/
theorem Cut.pairwise (pos : 0 < b) (h : Cut b lo pieces hi) :
    pieces.Pairwise fun p q => p.1 + p.2 ≤ q.1 := by
  induction pieces generalizing lo with
  | nil => exact List.Pairwise.nil
  | cons first rest ih =>
    obtain ⟨rfl, some_, tail⟩ := h
    have forward := lt_nextCut pos some_
    refine List.pairwise_cons.mpr ⟨fun q mem => ?_, ih tail⟩
    have low := (tail.mem pos mem).1
    omega

end Chunks
