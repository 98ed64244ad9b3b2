import Mathlib.Data.Bool.Basic
import Mathlib.Algebra.GroupWithZero.Nat
import Mathlib.Data.List.Infix
import Mathlib.Tactic.ByContra

/-!
# Binary trees in arrays

The nodes of a binary tree are numbered level by level from the root, which is 0; the children of `i`
are `2 * i + 1` and `2 * i + 2`. A node is named by the path to it, whose first turn is the last: true
is to the right.
-/

namespace HeapPaths

open List Bool

variable {p q : List Bool} {b c : Bool} {k j x y : Nat}

def node : List Bool → Nat
  | [] => 0
  | b :: p => 2 * node p + 1 + b.toNat

theorem node_parent (b : Bool) (p : List Bool) : (node (b :: p) - 1) / 2 = node p := by
  cases b <;> simp [node] <;> omega

theorem node_turn (b : Bool) (p : List Bool) : decide (node (b :: p) % 2 = 0) = b := by
  cases b with
  | false =>
    rw [node, toNat_false, decide_eq_false_iff_not]
    omega
  | true =>
    rw [node, toNat_true, decide_eq_true_iff]
    omega

theorem node_injective : Function.Injective node := by
  intro p
  induction p with
  | nil =>
    intro q same
    cases q with
    | nil => rfl
    | cons c q =>
      rw [node, node] at same
      omega
  | cons b p ih =>
    intro q same
    cases q with
    | nil =>
      rw [node, node] at same
      omega
    | cons => grind [node_turn, node_parent]

/-- The nodes of a level. -/
theorem node_bounds (p : List Bool) : 2 ^ p.length ≤ node p + 1 ∧ node p + 1 < 2 * 2 ^ p.length := by
  induction p with
  | nil => exact ⟨Nat.le_refl 1, Nat.lt_succ_self 1⟩
  | cons b p ih =>
    rw [node, length_cons, Nat.pow_succ]
    have bit := b.toNat_lt
    omega

theorem length_le_node (p : List Bool) : p.length ≤ node p := by
  have low := (node_bounds p).1
  have power := Nat.lt_two_pow_self (n := p.length)
  omega

/-- Exactly the nodes above the level `k` are among the first `2 ^ k - 1`. -/
theorem node_lt_iff (p : List Bool) : node p < 2 ^ k - 1 ↔ p.length < k := by
  obtain ⟨low, high⟩ := node_bounds p
  constructor
  · intro less
    by_contra ge
    have power := Nat.pow_le_pow_right (show 0 < 2 by decide) (Nat.le_of_not_lt ge)
    omega
  · intro less
    have power := Nat.pow_le_pow_right (show 0 < 2 by decide) less
    omega

/-- The path to the leaf `x` of the level `k`. -/
def pathTo : Nat → Nat → List Bool
  | 0, _ => []
  | k + 1, x => decide (x % 2 = 1) :: pathTo k (x / 2)

theorem length_pathTo (k x : Nat) : (pathTo k x).length = k := by
  induction k generalizing x with
  | zero => rfl
  | succ k ih => rw [pathTo, length_cons, ih]

theorem node_pathTo (inside : x < 2 ^ k) : node (pathTo k x) = 2 ^ k - 1 + x := by
  induction k generalizing x with
  | zero => aesop
  | succ k ih =>
    rw [pathTo, node, ih (by omega), Nat.pow_succ]
    by_cases odd : x % 2 = 1
    · rw [decide_eq_true odd, toNat_true]
      omega
    · grind

theorem drop_pathTo (k j x : Nat) : (pathTo (j + k) x).drop j = pathTo k (x / 2 ^ j) := by
  induction j generalizing x with
  | zero => rw [Nat.zero_add, drop_zero, Nat.pow_zero, Nat.div_one]
  | succ j ih =>
    rw [Nat.succ_add, pathTo, drop_succ_cons, ih, Nat.div_div_eq_div_mul, Nat.pow_succ,
      Nat.mul_comm 2]

theorem pathTo_injective (inside : x < 2 ^ k) (inside' : y < 2 ^ k) (same : pathTo k x = pathTo k y) :
    x = y := by
  have nodes := congrArg node same
  rw [node_pathTo inside, node_pathTo inside'] at nodes
  omega

/-- Every path of the length of the level leads to a leaf. -/
theorem exists_leaf (p : List Bool) : ∃ x < 2 ^ p.length, p = pathTo p.length x := by
  obtain ⟨low, high⟩ := node_bounds p
  have inside : node p + 1 - 2 ^ p.length < 2 ^ p.length := by omega
  refine ⟨_, inside, node_injective ?_⟩
  rw [node_pathTo inside]
  omega

/-- The turn that the path takes at a node, if it passes it. -/
def turn : List Bool → List Bool → Option Bool
  | [], _ => none
  | c :: p, q => if p = q then some c else turn p q

theorem turn_eq_some_iff : turn p q = some c ↔ c :: q <:+ p := by
  induction p with
  | nil => exact iff_of_false (by rintro ⟨⟩) (by simp)
  | cons b p ih =>
    rw [turn]
    by_cases here : p = q
    · grind [suffix_cons_iff, length_cons]
    · rw [if_neg here, ih, suffix_cons_iff]
      constructor
      · exact .inr
      · grind

/-- The turn at a node of the level `j` above the leaves. -/
theorem turn_pathTo (inside : j < k) :
    turn (pathTo k x) (pathTo (k - (j + 1)) (x / 2 ^ (j + 1))) = some (decide (x / 2 ^ j % 2 = 1)) := by
  obtain ⟨m, rfl⟩ := Nat.exists_eq_add_of_lt inside
  rw [turn_eq_some_iff]
  have rest := drop_pathTo (m + 1) j x
  rw [pathTo, Nat.div_div_eq_div_mul, ← Nat.pow_succ] at rest
  rw [show j + m + 1 - (j + 1) = m by omega, ← rest, Nat.add_assoc]
  exact drop_suffix j _

theorem turn_pathTo_iff (low : j < k) (inside : x < 2 ^ k) (inside' : y < 2 ^ k) :
    turn (pathTo k y) (pathTo (k - (j + 1)) (x / 2 ^ (j + 1))) = some c ↔
      y / 2 ^ (j + 1) = x / 2 ^ (j + 1) ∧ decide (y / 2 ^ j % 2 = 1) = c := by
  have own := turn_pathTo (x := y) low
  have small : ∀ z < 2 ^ k, z / 2 ^ (j + 1) < 2 ^ (k - (j + 1)) := fun z less => by
    refine Nat.div_lt_of_lt_mul ?_
    rwa [← Nat.pow_add, Nat.add_sub_cancel' low]
  constructor
  · intro passes
    have suffix := turn_eq_some_iff.mp passes
    have suffix' := turn_eq_some_iff.mp own
    have length : (c :: pathTo (k - (j + 1)) (x / 2 ^ (j + 1))).length
        = (decide (y / 2 ^ j % 2 = 1) :: pathTo (k - (j + 1)) (y / 2 ^ (j + 1))).length := by
      rw [length_cons, length_cons, length_pathTo, length_pathTo]
    have same := (suffix_of_suffix_length_le suffix suffix' (Nat.le_of_eq length)).eq_of_length
      length
    obtain ⟨first, rest⟩ := List.cons.inj same
    exact ⟨(pathTo_injective (small x inside) (small y inside') rest).symm, first.symm⟩
  · rintro ⟨same, rfl⟩
    rw [← same]
    exact own

end HeapPaths
