import Mathlib.Data.List.Basic
import Mathlib.Data.List.DropRight
import Mathlib.Order.Defs.PartialOrder

/-!
# Lists

Where a list is cut in two, what its elements need of those after them, and what a traversal that may
fail keeps.
-/

namespace Cuts

variable {α : Type} {p : α → Bool} {l : List α}

theorem takeWhile_eq_filter (closed : l.Pairwise fun a b => p b = true → p a = true) :
    l.takeWhile p = l.filter p := by
  induction l with
  | nil => rfl
  | cons a l ih =>
    obtain ⟨first, rest⟩ := List.pairwise_cons.mp closed
    cases holds : p a with
    | true => rw [List.takeWhile_cons_of_pos holds, List.filter_cons_of_pos holds, ih rest]
    | false => simp_all

theorem dropWhile_eq_filter (closed : l.Pairwise fun a b => p b = true → p a = true) :
    l.dropWhile p = l.filter fun a => !p a := by
  induction l with
  | nil => rfl
  | cons a l ih =>
    obtain ⟨first, rest⟩ := List.pairwise_cons.mp closed
    cases holds : p a with
    | true =>
      rw [List.dropWhile_cons_of_pos holds, List.filter_cons_of_neg (by simp [holds]), ih rest]
    | false =>
      rw [List.dropWhile_cons_of_neg (by simp [holds]), eq_comm]
      refine List.filter_eq_self.mpr fun b mem => ?_
      rcases List.mem_cons.mp mem with rfl | mem
      · simp [holds]
      · grind

/-- From the back, where the property holds of the later elements too. -/
theorem rdropWhile_eq_filter (closed : l.Pairwise fun a b => p a = true → p b = true) :
    l.rdropWhile p = l.filter fun a => !p a := by
  rw [List.rdropWhile, dropWhile_eq_filter (List.pairwise_reverse.mpr closed), List.filter_reverse,
    List.reverse_reverse]

/-- An element that stays keeps what is before it. -/
theorem rdropWhile_append_cons {a : α} (later older : List α) (stays : p a = false) :
    (later ++ a :: older).rdropWhile p = later ++ a :: older.rdropWhile p := by
  induction older using List.reverseRecOn with
  | nil =>
    simp [stays]
  | append_singleton older b ih => grind [List.rdropWhile_concat]

theorem rdropWhile_append (later older : List α)
    (leave : ∀ a ∈ older, p a = true) : (later ++ older).rdropWhile p = later.rdropWhile p := by
  induction older using List.reverseRecOn with
  | nil => rw [List.append_nil]
  | append_singleton older b ih =>
    rw [← List.append_assoc, List.rdropWhile_concat, if_pos (leave b (by simp))]
    exact ih fun a ha => leave a (by simp [ha])

end Cuts

namespace Tails

universe u v

variable {α : Type u} {β : Type v}

def EachTail (P : α → List α → Prop) : List α → Prop
  | [] => True
  | a :: rest => P a rest ∧ EachTail P rest

variable {P : α → List α → Prop}

@[simp] theorem eachTail_nil : EachTail P [] := trivial

@[simp] theorem eachTail_cons {a : α} {l : List α} :
    EachTail P (a :: l) ↔ P a l ∧ EachTail P l := Iff.rfl

theorem eachTail_of_forall {l : List α} (h : ∀ a ∈ l, ∀ rest, P a rest) : EachTail P l := by
  induction l with
  | nil => trivial
  | cons a l ih =>
    exact ⟨h a (List.mem_cons_self ..) l, ih fun b hb => h b (List.mem_cons_of_mem a hb)⟩

theorem eachTail_append {a b : List α} (left : EachTail P a) (right : EachTail P b)
    (more : ∀ x ∈ a, ∀ rest, P x rest → P x (rest ++ b)) : EachTail P (a ++ b) := by
  induction a with
  | nil => exact right
  | cons x a ih => simp_all

theorem EachTail.filter {l : List α} {p : α → Bool} (h : EachTail P l)
    (kept : ∀ a ∈ l, ∀ rest, P a rest → P a (rest.filter p)) : EachTail P (l.filter p) := by
  induction l with
  | nil => exact h
  | cons a l ih =>
    have tail := ih h.2 fun b hb => kept b (List.mem_cons_of_mem a hb)
    rw [List.filter_cons]
    split
    · exact ⟨kept a (List.mem_cons_self ..) l h.1, tail⟩
    · exact tail

theorem eachTail_flatMap {Q : β → List β → Prop} {l : List α} {f : α → List β}
    (each : ∀ a ∈ l, EachTail Q (f a)) (more : ∀ x rest b, Q x rest → Q x (rest ++ b)) :
    EachTail Q (l.flatMap f) := by
  induction l with
  | nil => trivial
  | cons a l ih =>
    exact eachTail_append (each a (List.mem_cons_self ..))
      (ih fun b hb => each b (List.mem_cons_of_mem a hb)) fun x _ rest => more x rest _

theorem EachTail.at {l before after : List α} {a : α} (h : EachTail P l)
    (split : l = before ++ a :: after) : P a after := by
  induction before generalizing l with
  | nil => subst split; exact h.1
  | cons b before ih => subst split; exact ih h.2 rfl

section Increasing

variable [Preorder α] {l a b : List α} {x y : α}

/-- What stands before a split is below what stands after it. -/
theorem lt_of_split (ordered : l.Pairwise (· < ·)) (split : l = a ++ b) (left : x ∈ a)
    (right : y ∈ b) : x < y := by
  rw [split] at ordered
  exact (List.pairwise_append.mp ordered).2.2 x left y right

theorem notMem_of_split (ordered : l.Pairwise (· < ·)) (split : l = a ++ b) (left : x ∈ a) :
    x ∉ b :=
  fun right => lt_irrefl x (lt_of_split ordered split left right)

theorem lt_of_later (ordered : l.Pairwise (· < ·)) (split : l = a ++ x :: b) (later : y ∈ b) :
    x < y :=
  lt_of_split ordered (split.trans (List.append_cons a x b)) (by simp) later

theorem notMem_later (ordered : l.Pairwise (· < ·)) (split : l = a ++ x :: b) : x ∉ b :=
  fun later => lt_irrefl x (lt_of_later ordered split later)

theorem le_getLast (ordered : l.Pairwise (· < ·)) (last : l.getLast? = some y) (mem : x ∈ l) :
    x ≤ y := by
  obtain ⟨front, split⟩ := List.getLast?_eq_some_iff.mp last
  rw [split] at mem
  rcases List.mem_append.mp mem with before | self
  · exact le_of_lt (lt_of_split ordered split before (List.mem_singleton_self y))
  · exact le_of_eq (List.mem_singleton.mp self)

end Increasing

end Tails

namespace Traversals

universe u

variable {α : Type u} {β σ : Type u} {f : σ → α → Option σ} {P : List α → σ → Prop}
  {done l : List α} {s s' : σ}

theorem mapM_some {f : α → Option β} {g : α → β} (all : ∀ a ∈ l, f a = some (g a)) :
    l.mapM f = some (l.map g) := by
  induction l with
  | nil => rfl
  | cons a l ih => grind

/-- What a step that succeeds keeps, a traversal that succeeds keeps. -/
theorem foldlM_keep (keep : ∀ done a s s', P done s → f s a = some s' → P (done ++ [a]) s')
    (start : P [] s) (run : l.foldlM f s = some s') : P l s' := by
  suffices from_ : ∀ done s, P done s → l.foldlM f s = some s' → P (done ++ l) s' from
    from_ [] s start run
  clear start run
  induction l with
  | nil => grind
  | cons a l ih => grind [Option.bind_eq_some_iff]

/-- A traversal succeeds if no step can fail. -/
theorem foldlM_succeeds
    (step : ∀ a ∈ l, ∀ done s, P done s → ∃ s', f s a = some s' ∧ P (done ++ [a]) s')
    (start : P done s) : ∃ s', l.foldlM f s = some s' ∧ P (done ++ l) s' := by
  induction l generalizing done s with
  | nil => exact ⟨s, rfl, by rwa [List.append_nil]⟩
  | cons a l ih =>
    obtain ⟨head, tail⟩ := List.forall_mem_cons.mp step
    obtain ⟨next, one, kept⟩ := head done s start
    obtain ⟨last, run, kept'⟩ := ih tail kept
    rw [List.append_assoc] at kept'
    refine ⟨last, ?_, kept'⟩
    rw [List.foldlM_cons, one]
    exact run

end Traversals
