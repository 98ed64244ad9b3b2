import Mathlib.Data.List.Sort
import Mathlib.Order.Defs.LinearOrder

/-!
# A sorted list of stacks

Elements with equal keys share a bin, a stack whose newest element is on top; the bins are
kept by increasing key. Read off bin by bin, the elements are a list sorted by key in which
an insertion goes in front of its equals.
-/

namespace Bins

open List

universe u v

/-- A stack with at least one element. -/
structure Bin (α : Type u) where
  top : α
  rest : List α

variable {α : Type u} {κ : Type v}

def Bin.elements (b : Bin α) : List α := b.top :: b.rest

def elements (bins : List (Bin α)) : List α := bins.flatMap Bin.elements

@[simp] theorem elements_nil : elements ([] : List (Bin α)) = [] := rfl

@[simp] theorem elements_cons (b : Bin α) (bins : List (Bin α)) :
    elements (b :: bins) = b.top :: b.rest ++ elements bins := by
  simp [elements, Bin.elements]

@[simp] theorem elements_append (pre post : List (Bin α)) :
    elements (pre ++ post) = elements pre ++ elements post := flatMap_append

theorem length_le_elements (bins : List (Bin α)) : bins.length ≤ (elements bins).length := by
  induction bins with
  | nil => simp
  | cons b bins ih =>
    simp only [length_cons, elements_cons, length_append]
    omega

theorem rest_length_lt {b : Bin α} {bins : List (Bin α)} (h : b ∈ bins) :
    b.rest.length < (elements bins).length := by
  obtain ⟨pre, post, rfl⟩ := append_of_mem h
  simp only [elements_append, elements_cons, length_append, length_cons]
  omega

section

variable [LinearOrder κ] (key : α → κ)

def insert (e : α) : List (Bin α) → List (Bin α)
  | [] => [⟨e, []⟩]
  | b :: bins =>
    if key e < key b.top then ⟨e, []⟩ :: b :: bins
    else if key e = key b.top then ⟨e, b.top :: b.rest⟩ :: bins
    else b :: insert e bins

/-- What is left of a bin without the element. -/
def Bin.erase [DecidableEq α] (e : α) (b : Bin α) : List (Bin α) :=
  if e = b.top then
    match b.rest with
    | [] => []
    | f :: rest => [⟨f, rest⟩]
  else [⟨b.top, b.rest.erase e⟩]

def erase [DecidableEq α] (e : α) : List (Bin α) → List (Bin α)
  | [] => []
  | b :: bins => if key b.top = key e then b.erase e ++ bins else b :: erase e bins

structure WellFormed (bins : List (Bin α)) : Prop where
  uniform : ∀ b ∈ bins, ∀ a ∈ b.rest, key a = key b.top
  increasing : bins.Pairwise fun a b => key a.top < key b.top

variable {key}

theorem WellFormed.nil : WellFormed key ([] : List (Bin α)) :=
  ⟨by simp, List.Pairwise.nil⟩

theorem WellFormed.tail {b : Bin α} {bins : List (Bin α)} (h : WellFormed key (b :: bins)) :
    WellFormed key bins :=
  ⟨fun c hc => h.uniform c (List.mem_cons_of_mem _ hc), List.Pairwise.of_cons h.increasing⟩

theorem WellFormed.right {pre post : List (Bin α)} (h : WellFormed key (pre ++ post)) :
    WellFormed key post := by
  induction pre with
  | nil => exact h
  | cons b pre ih => exact ih h.tail

theorem WellFormed.congr {key' : α → κ} {bins : List (Bin α)} (h : WellFormed key bins)
    (same : ∀ a ∈ elements bins, key' a = key a) : WellFormed key' bins := by
  have top_same : ∀ b ∈ bins, key' b.top = key b.top := by
    intro b hb
    exact same _ (List.mem_flatMap.mpr ⟨b, hb, List.mem_cons_self⟩)
  constructor
  · intro b hb a ha
    rw [same a (List.mem_flatMap.mpr ⟨b, hb, List.mem_cons_of_mem _ ha⟩), top_same b hb]
    exact h.uniform b hb a ha
  · refine List.Pairwise.imp_of_mem ?_ h.increasing
    intro a b ha hb hlt
    rwa [top_same a ha, top_same b hb]

/-- Every element of a later bin comes after the elements of the first. -/
theorem WellFormed.head_lt {b : Bin α} {bins : List (Bin α)} (h : WellFormed key (b :: bins))
    {a : α} (ha : a ∈ elements bins) : key b.top < key a := by
  obtain ⟨c, hc, hac⟩ := List.mem_flatMap.mp ha
  have hlt : key b.top < key c.top := rel_of_pairwise_cons h.increasing hc
  rcases List.mem_cons.mp hac with rfl | hrest
  · exact hlt
  · rwa [h.uniform c (List.mem_cons_of_mem _ hc) a hrest]

theorem WellFormed.head_eq {b : Bin α} {bins : List (Bin α)} (h : WellFormed key (b :: bins))
    {a : α} (ha : a ∈ b.elements) : key a = key b.top := by
  rcases List.mem_cons.mp ha with rfl | hrest
  · rfl
  · exact h.uniform b List.mem_cons_self a hrest

theorem WellFormed.head_le {b : Bin α} {bins : List (Bin α)} (h : WellFormed key (b :: bins))
    {a : α} (ha : a ∈ elements (b :: bins)) : key b.top ≤ key a := by
  rcases List.mem_append.mp ha with hb | hbins
  · exact le_of_eq (h.head_eq hb).symm
  · exact le_of_lt (h.head_lt hbins)

theorem WellFormed.mem_head {b : Bin α} {bins : List (Bin α)} (h : WellFormed key (b :: bins))
    {e : α} (he : e ∈ elements (b :: bins)) (heq : key b.top = key e) : e ∈ b.elements := by
  rcases List.mem_append.mp he with hb | hbins
  · exact hb
  · exact absurd heq (ne_of_lt (h.head_lt hbins))

theorem WellFormed.mem_tail {b : Bin α} {bins : List (Bin α)} (h : WellFormed key (b :: bins))
    {e : α} (he : e ∈ elements (b :: bins)) (hne : key b.top ≠ key e) : e ∈ elements bins := by
  rcases List.mem_append.mp he with hb | hbins
  · exact absurd (h.head_eq hb).symm hne
  · exact hbins

/-- Insertion skips the bins of smaller keys. -/
theorem insert_append {e : α} {pre post : List (Bin α)} (h : ∀ b ∈ pre, key b.top < key e) :
    insert key e (pre ++ post) = pre ++ insert key e post := by
  induction pre with
  | nil => rfl
  | cons b pre ih => grind [insert]

theorem erase_append [DecidableEq α] {e : α} {pre post : List (Bin α)}
    (h : ∀ b ∈ pre, key b.top < key e) : erase key e (pre ++ post) = pre ++ erase key e post := by
  induction pre with
  | nil => rfl
  | cons b pre ih => grind [erase]

theorem cons_orderedInsert {e a : α} {l : List α} (h : key e ≤ key a) :
    e :: a :: l = (a :: l).orderedInsert (fun a b => key a ≤ key b) e := by
  rw [orderedInsert_cons, if_pos h]

theorem append_orderedInsert {e : α} {front back : List α} (h : ∀ a ∈ front, key a < key e) :
    front ++ back.orderedInsert (fun a b => key a ≤ key b) e
      = (front ++ back).orderedInsert (fun a b => key a ≤ key b) e := by
  induction front with
  | nil => rfl
  | cons a front ih => grind

/-- In the flat list an element is inserted in front of the first that is not smaller. -/
theorem elements_insert {bins : List (Bin α)} (h : WellFormed key bins) (e : α) :
    elements (insert key e bins) = (elements bins).orderedInsert (fun a b => key a ≤ key b) e := by
  induction bins with
  | nil => rfl
  | cons b bins ih =>
    rw [insert]
    split
    · grind [elements_cons]
    · rename_i hlt
      split
      · grind [elements_cons]
      · rename_i hne
        have hb : key b.top < key e := lt_of_le_of_ne (not_lt.mp hlt) (Ne.symm hne)
        rw [elements_cons, elements_cons, ih h.tail]
        exact append_orderedInsert fun a ha => (h.head_eq ha).symm ▸ hb

theorem Bin.elements_erase [DecidableEq α] (e : α) (b : Bin α) :
    Bins.elements (b.erase e) = b.elements.erase e := by
  rw [Bin.erase, Bin.elements]
  split
  · aesop
  · rename_i hne
    rw [List.erase_cons_tail (by simpa using Ne.symm hne)]
    simp

theorem elements_erase [DecidableEq α] {bins : List (Bin α)} (h : WellFormed key bins) {e : α}
    (he : e ∈ elements bins) : elements (erase key e bins) = (elements bins).erase e := by
  induction bins with
  | nil => simp at he
  | cons b bins ih =>
    rw [erase]
    split
    · rename_i heq
      have hb := h.mem_head he heq
      rw [elements_append, Bin.elements_erase, elements_cons]
      exact (erase_append_left _ hb).symm
    · rename_i hne
      have hb := h.mem_tail he hne
      have hnot : e ∉ b.top :: b.rest := fun hm => hne (h.head_eq hm).symm
      rw [elements_cons, elements_cons, ih h.tail hb, erase_append_right _ hnot]

theorem WellFormed.cons {b : Bin α} {bins : List (Bin α)} (h : WellFormed key bins)
    (uniform : ∀ a ∈ b.rest, key a = key b.top) (lt : ∀ a ∈ elements bins, key b.top < key a) :
    WellFormed key (b :: bins) := by
  constructor
  · intro c hc
    rcases List.mem_cons.mp hc with rfl | hc
    · exact uniform
    · exact h.uniform c hc
  · refine List.Pairwise.cons (fun c hc => lt c.top ?_) h.increasing
    exact List.mem_flatMap.mpr ⟨c, hc, List.mem_cons_self⟩

theorem WellFormed.insert {bins : List (Bin α)} (h : WellFormed key bins) (e : α) :
    WellFormed key (insert key e bins) := by
  induction bins with
  | nil => exact WellFormed.nil.cons (by simp) (by simp)
  | cons b bins ih =>
    rw [Bins.insert]
    split
    · rename_i hlt
      refine h.cons (by simp) ?_
      intro a ha
      rcases List.mem_append.mp ha with hb | hbins
      · rwa [h.head_eq hb]
      · exact lt_trans hlt (h.head_lt hbins)
    · rename_i hlt
      split
      · rename_i heq
        refine h.tail.cons ?_ fun a ha => heq ▸ h.head_lt ha
        intro a ha
        exact (h.head_eq ha).trans heq.symm
      · rename_i hne
        refine (ih h.tail).cons (h.uniform b List.mem_cons_self) ?_
        intro a ha
        rw [elements_insert h.tail, mem_orderedInsert] at ha
        rcases ha with rfl | ha
        · exact lt_of_le_of_ne (not_lt.mp hlt) (Ne.symm hne)
        · exact h.head_lt ha

theorem mem_of_mem_erase [DecidableEq α] {e a : α} {bins : List (Bin α)}
    (ha : a ∈ elements (erase key e bins)) : a ∈ elements bins := by
  induction bins with
  | nil => exact ha
  | cons b bins ih =>
    rw [erase] at ha
    split at ha
    · rw [elements_append, Bin.elements_erase] at ha
      rcases List.mem_append.mp ha with hb | hbins
      · exact mem_append_left _ (List.mem_of_mem_erase hb)
      · exact mem_append_right _ hbins
    · grind [elements_cons]

theorem WellFormed.erase [DecidableEq α] {bins : List (Bin α)} (h : WellFormed key bins)
    (e : α) : WellFormed key (erase key e bins) := by
  induction bins with
  | nil => exact h
  | cons b bins ih =>
    rw [Bins.erase]
    split
    · rw [Bin.erase]
      split
      · cases hr : b.rest with
        | nil => exact h.tail
        | cons f rest =>
          have hf : key f = key b.top := h.uniform b List.mem_cons_self f (by simp [hr])
          refine h.tail.cons ?_ fun a ha => hf ▸ h.head_lt ha
          intro a ha
          rw [hf]
          exact h.uniform b List.mem_cons_self a (by simp [hr, show a ∈ rest from ha])
      · refine h.tail.cons ?_ fun a ha => h.head_lt ha
        exact fun a ha => h.uniform b List.mem_cons_self a (List.mem_of_mem_erase ha)
    · refine (ih h.tail).cons (h.uniform b List.mem_cons_self) fun a ha => h.head_lt ?_
      exact mem_of_mem_erase ha

end

end Bins
