import Mathlib.Data.Finset.Card
import Mathlib.Data.List.Induction

/-!
# Least recently used

A cache gives up what was used least recently. The contents of every such cache are a prefix of
one list, that of all elements in the order of their last use, so that a larger one hits wherever a
smaller one does, and the two differ by the elements that come back after a long time.
-/

namespace Recency

open List

universe u

variable {α : Type u} [DecidableEq α] {k n m : Nat} {x y : α} {l s xs : List α}

/-- A request to a cache of `k` places, the last used first. -/
def serve (k : Nat) (l : List α) (x : α) : List α :=
  if x ∈ l then x :: l.erase x else if l.length < k then x :: l else x :: l.dropLast

def hitsFrom (k : Nat) : List α → List α → Nat
  | _, [] => 0
  | l, x :: xs => (if x ∈ l then 1 else 0) + hitsFrom k (serve k l x) xs

def missesFrom (k : Nat) : List α → List α → Nat
  | _, [] => 0
  | l, x :: xs => (if x ∈ l then 0 else 1) + missesFrom k (serve k l x) xs

def hits (k : Nat) (xs : List α) : Nat := hitsFrom k [] xs

def misses (k : Nat) (xs : List α) : Nat := missesFrom k [] xs

theorem hitsFrom_add_missesFrom (k : Nat) (l xs : List α) :
    hitsFrom k l xs + missesFrom k l xs = xs.length := by
  induction xs generalizing l with
  | nil => rfl
  | cons x xs ih => grind [hitsFrom, missesFrom]

theorem serve_found {older : List α} (not : x ∉ l) :
    serve k (l ++ x :: older) x = x :: (l ++ older) := by
  rw [serve, if_pos (mem_append_right l List.mem_cons_self), erase_append_right _ not,
    List.erase_cons_head]

theorem hitsFrom_cons (k : Nat) (l : List α) (x : α) (xs : List α) :
    hitsFrom k l (x :: xs) = hitsFrom k l [x] + hitsFrom k (serve k l x) xs := rfl

theorem missesFrom_cons (k : Nat) (l : List α) (x : α) (xs : List α) :
    missesFrom k l (x :: xs) = missesFrom k l [x] + missesFrom k (serve k l x) xs := rfl

theorem served_mem (mem : x ∈ l) : hitsFrom k l [x] = 1 ∧ missesFrom k l [x] = 0 := by
  rw [hitsFrom, missesFrom, if_pos mem, if_pos mem]
  exact ⟨rfl, rfl⟩

theorem served_notMem (absent : x ∉ l) : hitsFrom k l [x] = 0 ∧ missesFrom k l [x] = 1 := by
  rw [hitsFrom, missesFrom, if_neg absent, if_neg absent]
  exact ⟨rfl, rfl⟩

def touch (s : List α) (x : α) : List α := x :: s.erase x

/-- The elements in the order of their last use. -/
def stack (xs : List α) : List α := xs.foldl touch []

theorem erase_take (mem : x ∈ s.take (m + 1)) : (s.take (m + 1)).erase x = (s.erase x).take m := by
  induction s generalizing m with
  | nil => simp at mem
  | cons y s ih =>
    by_cases own : y = x
    · subst own
      simp
    · rw [take_succ_cons, List.mem_cons] at mem
      rcases mem with same | mem
      · exact absurd same.symm own
      · cases m with
        | zero => simp at mem
        | succ => simp [own, ih mem]

theorem take_erase (not : x ∉ s.take m) : (s.erase x).take m = s.take m := by
  induction s generalizing m with
  | nil => rfl
  | cons y s ih =>
    cases m with
    | zero => rfl
    | succ m => grind

/-- The cache is a prefix of the list of all elements, and stays one. -/
theorem serve_take (some_ : 0 < k) : serve k (s.take k) x = (touch s x).take k := by
  obtain ⟨m, rfl⟩ := Nat.exists_eq_add_of_lt some_
  rw [Nat.zero_add] at *
  rw [serve, touch, take_succ_cons]
  by_cases mem : x ∈ s.take (m + 1)
  · rw [if_pos mem, erase_take mem]
  · rw [if_neg mem]
    have not : x ∉ s.take m := fun mem' => mem (take_subset_take_left s (Nat.le_succ m) mem')
    rw [take_erase not]
    split
    case isTrue few => grind [take_of_length_le]
    case isFalse full =>
      have length : (s.take (m + 1)).length - 1 = m := by grind
      rw [dropLast_eq_take, length, take_take, Nat.min_eq_left (Nat.le_succ m)]

theorem nodup_touch (once : s.Nodup) : (touch s x).Nodup :=
  List.nodup_cons.mpr ⟨once.not_mem_erase, once.erase x⟩

theorem nodup_foldl (once : s.Nodup) : (xs.foldl touch s).Nodup := by
  induction xs generalizing s with
  | nil => exact once
  | cons x xs ih => exact ih (nodup_touch once)

/-- Some request finds the element among the first `n` and not among the first `k`. -/
def Late (k n : Nat) (s xs : List α) : Prop :=
  ∃ before x after, xs = before ++ x :: after ∧ x ∈ (before.foldl touch s).take n ∧
    x ∉ (before.foldl touch s).take k

theorem late_cons : Late k n s (x :: xs) ↔
    (x ∈ s.take n ∧ x ∉ s.take k) ∨ Late k n (touch s x) xs := by
  constructor
  · rintro ⟨before, y, after, cut, found, lost⟩
    cases before with
    | nil => grind
    | cons z before =>
      obtain ⟨rfl, rfl⟩ := List.cons.inj cut
      exact .inr ⟨before, y, after, rfl, found, lost⟩
  · rintro (⟨found, lost⟩ | ⟨before, y, after, rfl, found, lost⟩)
    · exact ⟨[], x, xs, rfl, found, lost⟩
    · exact ⟨x :: before, y, after, rfl, found, lost⟩

/-- The larger cache hits at least as often, and as often exactly if no request is late. -/
theorem hitsFrom_le_and_eq_iff (some_ : 0 < k) (le : k ≤ n) (s xs : List α) :
    hitsFrom k (s.take k) xs ≤ hitsFrom n (s.take n) xs ∧
      (hitsFrom n (s.take n) xs = hitsFrom k (s.take k) xs ↔ ¬Late k n s xs) := by
  induction xs generalizing s with
  | nil =>
    refine ⟨Nat.le_refl 0, iff_of_true rfl ?_⟩
    rintro ⟨before, x, after, cut, -⟩
    exact absurd cut (by simp)
  | cons x xs ih =>
    obtain ⟨below, equal⟩ := ih (touch s x)
    have grows : x ∈ s.take k → x ∈ s.take n := fun mem => take_subset_take_left s le mem
    rw [hitsFrom, hitsFrom, serve_take some_, serve_take (Nat.lt_of_lt_of_le some_ le), late_cons,
      not_or, ← equal]
    by_cases small : x ∈ s.take k
    · grind
    · grind

/-- What was used since stands in front of the element, each once. -/
theorem stack_since (before : List α) {between : List α} (not : x ∉ between) :
    ∃ front rest, stack (before ++ x :: between) = front ++ x :: rest ∧ x ∉ front ∧
      front.length = between.toFinset.card := by
  have once : (touch (stack before) x).Nodup := nodup_touch (nodup_foldl nodup_nil)
  have general : ∀ between : List α, x ∉ between → ∃ front rest,
      between.foldl touch (touch (stack before) x) = front ++ x :: rest ∧
        front.toFinset = between.toFinset := by
    intro between
    induction between using List.reverseRecOn with
    | nil => exact fun _ => ⟨[], _, rfl, rfl⟩
    | append_singleton between y ih =>
      intro not
      rw [mem_append, List.mem_singleton, not_or] at not
      obtain ⟨front, rest, cut, same⟩ := ih not.1
      have once' : (between.foldl touch (touch (stack before) x)).Nodup := nodup_foldl once
      rw [foldl_append, List.foldl_cons, foldl_nil, cut, touch]
      by_cases again : y ∈ front
      · refine ⟨y :: front.erase y, rest, ?_, ?_⟩
        · grind
        · have perm := perm_cons_erase again
          rw [← toFinset_eq_of_perm _ _ perm, same, toFinset_append,
            List.toFinset_cons, toFinset_nil]
          have mem : y ∈ between.toFinset := same ▸ List.mem_toFinset.mpr again
          simp [List.mem_toFinset.mp mem]
      · grind [List.toFinset_cons, toFinset_append]
  obtain ⟨front, rest, cut, same⟩ := general between not
  have all : stack (before ++ x :: between) = front ++ x :: rest := by
    rw [stack, foldl_append, List.foldl_cons]
    exact cut
  have once' : (front ++ x :: rest).Nodup := cut ▸ nodup_foldl once
  refine ⟨front, rest, all, fun mem => ?_, ?_⟩
  · exact (List.nodup_append.mp once').2.2 x mem x List.mem_cons_self rfl
  · rw [← same, List.toFinset_card_of_nodup (List.nodup_append.mp once').1]

/-- An element is used again after at least `k` and fewer than `n` others. -/
def Reused (k n : Nat) (xs : List α) : Prop :=
  ∃ before x between after, xs = before ++ x :: (between ++ x :: after) ∧ x ∉ between ∧
    k ≤ between.toFinset.card ∧ between.toFinset.card < n

omit [DecidableEq α] in
theorem mem_take_iff {front rest : List α} (not : x ∉ front) :
    x ∈ (front ++ x :: rest).take k ↔ front.length < k := by
  rw [take_append]
  constructor
  · intro mem
    rcases List.mem_append.mp mem with mem | mem
    · exact absurd (mem_of_mem_take mem) not
    · by_contra ge
      rw [Nat.sub_eq_zero_of_le (Nat.le_of_not_lt ge)] at mem
      cases mem
  · intro less
    refine mem_append_right _ ?_
    obtain ⟨j, eq⟩ := Nat.exists_eq_add_of_lt less
    rw [show k - front.length = j + 1 by omega]
    exact List.mem_cons_self

theorem late_iff_reused : Late k n [] xs ↔ Reused k n xs := by
  constructor
  · rintro ⟨before, x, after, rfl, found, lost⟩
    have mem : x ∈ before := by
      have all : ∀ before : List α, x ∈ before.foldl touch [] → x ∈ before := by
        intro before
        induction before using List.reverseRecOn with
        | nil => exact id
        | append_singleton before y ih =>
          rw [foldl_append, List.foldl_cons, foldl_nil, touch, mem_append]
          intro mem
          rcases List.mem_cons.mp mem with rfl | mem
          · exact .inr List.mem_cons_self
          · exact .inl (ih (List.mem_of_mem_erase mem))
      exact all before (mem_of_mem_take found)
    obtain ⟨after', before', cut, not⟩ := eq_append_cons_of_mem (List.mem_reverse.mpr mem)
    have last : before = before'.reverse ++ x :: after'.reverse := by grind
    have not' : x ∉ after'.reverse := fun mem => not (List.mem_reverse.mp mem)
    obtain ⟨front, rest, all, apart, count⟩ := stack_since before'.reverse not'
    rw [last, ← stack, all, mem_take_iff apart, count] at found lost
    exact ⟨before'.reverse, x, after'.reverse, after, by rw [last]; simp, not', by omega, found⟩
  · rintro ⟨before, x, between, after, rfl, not, low, high⟩
    obtain ⟨front, rest, all, apart, count⟩ := stack_since before not
    refine ⟨before ++ x :: between, x, after, by simp, ?_, ?_⟩
    · grind [stack, mem_take_iff]
    · grind [stack]

/-- Two caches hit equally often exactly if no element is used again after a time between their
sizes. -/
theorem hits_eq_iff (some_ : 0 < k) (le : k ≤ n) (xs : List α) :
    hits n xs = hits k xs ↔ ¬Reused k n xs := by
  have equal := (hitsFrom_le_and_eq_iff some_ le [] xs).2
  rw [take_nil, take_nil, late_iff_reused] at equal
  exact equal

end Recency
