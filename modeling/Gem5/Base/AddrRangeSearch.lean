import Gem5.Base.AddrRangeMap
import Mathlib.Data.List.TakeWhile

/-!
# Searching the address range map

What a search has looked at when it finds nothing, and where the entry lies that it finds.
Every map that inserts and lookups lead to is sorted and caches only entries of its tree.
-/

namespace Gem5.Base

namespace AddrRange

def key (r : AddrRange) : Nat ×ₗ Nat := toLex (r.start.toNat, r.intlvMatch.toNat)

theorem lt_iff {l r : AddrRange} : l.lt r = true ↔ l.key < r.key := by
  rw [lt, key, key, Prod.Lex.toLex_lt_toLex]
  by_cases h : l.start = r.start
  · simp [h, BitVec.lt_def]
  · grind [BitVec.lt_def, BitVec.eq_of_toNat_eq]

theorem mergesWith_iff {r s : AddrRange} :
    r.mergesWith s = true ↔ s.start = r.start ∧ s.stop = r.stop ∧ s.masks = r.masks := by
  simp [mergesWith, and_assoc]

theorem mergesWith_symm {r s : AddrRange} (h : r.mergesWith s = true) : s.mergesWith r = true := by
  rw [mergesWith_iff] at h ⊢
  exact ⟨h.1.symm, h.2.1.symm, h.2.2.symm⟩

theorem mergesWith_trans {r s t : AddrRange} (h : r.mergesWith s = true)
    (k : s.mergesWith t = true) : r.mergesWith t = true := by
  rw [mergesWith_iff] at h k ⊢
  exact ⟨k.1.trans h.1, k.2.1.trans h.2.1, k.2.2.trans h.2.2⟩

theorem key_start_le {r s : AddrRange} (h : r.key ≤ s.key) : r.start.toNat ≤ s.start.toNat := by
  rw [key, key, Prod.Lex.toLex_le_toLex] at h
  rcases h with h | h
  · exact le_of_lt h
  · exact le_of_eq h.1

/-- The address lies in the range, and in an interleaved range on its stripe. -/
def Covers (r : AddrRange) (a : Addr) : Prop :=
  r.start ≤ a ∧ a ≤ r.stop ∧ (r.interleaved = true → r.contains a = true)

/-- The granularity of an interleaved range is at least one byte. -/
def Granular (overshift : Addr) (r : AddrRange) : Prop :=
  r.interleaved = true → 1#64 ≤ r.granularity overshift

instance (overshift : Addr) (r : AddrRange) : Decidable (r.Granular overshift) :=
  inferInstanceAs (Decidable (_ → _))

instance (r : AddrRange) (a : Addr) : Decidable (r.Covers a) :=
  inferInstanceAs (Decidable (_ ∧ _ ∧ (_ → _)))

theorem contains_inRange {r : AddrRange} {a : Addr} (h : r.contains a = true) :
    r.start ≤ a ∧ a ≤ r.stop := by
  simp only [contains, inRange, Bool.and_eq_true, decide_eq_true_eq] at h
  exact h.1

theorem ofSize_one (a : Addr) : ofSize a 1 = ⟨a, a, [], 0⟩ := by
  have h : a + 1 - 1 = a := by
    rw [BitVec.add_sub_cancel]
  rw [ofSize, h]

theorem isSubset_ofSize (overshift : Addr) (a : Addr) (s : AddrRange) :
    (ofSize a 1).isSubset overshift s = .ok (decide (s.Covers a ∧ s.Granular overshift)) := by
  have hsize : (⟨a, a, [], 0⟩ : AddrRange).size = 1#64 := by
    simp [size]
  rw [ofSize_one, isSubset, if_neg (by simp [interleaved])]
  by_cases hi : s.interleaved = true
  · rw [if_pos hi, hsize]
    congr 1
    rw [Bool.eq_iff_iff]
    simp only [Bool.and_eq_true, Covers, Granular]
    constructor
    · grind [contains_inRange]
    · grind
  · rw [if_neg hi]
    simp [Covers, Granular, hi]

end AddrRange

namespace AddrRangeMap

open AddrRange

variable {V : Type} {prm : Params} {m m' : AddrRangeMap V}
  {cond : AddrRange → Except Panic Bool}

theorem test_ok {β : Type} {test : Except Panic Bool} {yes no : Except Panic β} {found : β}
    (h : (do if ← test then yes else no) = .ok found) :
    (test = .ok true ∧ yes = .ok found) ∨ (test = .ok false ∧ no = .ok found) := by
  cases test with
  | error => cases h
  | ok b =>
    cases b with
    | true => exact Or.inl ⟨rfl, h⟩
    | false => exact Or.inr ⟨rfl, h⟩

theorem walk_some {l : List (AddrRange × V)} {i : AddrRange × V} (h : walk cond l = .ok (some i)) :
    cond i.1 = .ok true ∧
      ∃ pre post, l = pre ++ i :: post ∧ ∀ x ∈ pre, x.1.mergesWith i.1 = true := by
  induction l with
  | nil => simp [walk] at h
  | cons x rest ih =>
    rcases test_ok h with ⟨hc, found⟩ | ⟨hc, h⟩
    · cases found
      exact ⟨hc, [], rest, rfl, by simp⟩
    · cases rest with
      | nil => cases h
      | cons next rest =>
        dsimp only at h
        split at h
        · rename_i hmerge
          obtain ⟨hi, pre, post, heq, hpre⟩ := ih h
          refine ⟨hi, x :: pre, post, by rw [heq]; rfl, ?_⟩
          intro y hy
          rcases List.mem_cons.mp hy with rfl | hy
          · cases pre with
            | nil => grind [mergesWith_symm]
            | cons z pre => grind [mergesWith_trans, mergesWith_symm]
          · exact hpre y hy
        · cases h

theorem walk_none {l : List (AddrRange × V)} (h : walk cond l = .ok none)
    {pre post : List (AddrRange × V)} {i : AddrRange × V} (split : l = pre ++ i :: post)
    (merging : ∀ x ∈ pre, x.1.mergesWith i.1 = true) : cond i.1 = .ok false := by
  induction l generalizing pre with
  | nil => simp at split
  | cons x rest ih =>
    rcases test_ok h with ⟨-, found⟩ | ⟨hc, h⟩
    · cases found
    · cases pre with
      | nil => grind
      | cons y pre =>
        injection split with heq htail
        subst heq
        cases rest with
        | nil => simp at htail
        | cons next rest =>
          have hnext : next.1.mergesWith i.1 = true := by
            cases pre with
            | nil =>
              injection htail with hnext _
              rw [hnext, mergesWith_iff]
              exact ⟨rfl, rfl, rfl⟩
            | cons z pre => simp_all
          have hmerge : next.1.mergesWith x.1 = true :=
            mergesWith_trans hnext (mergesWith_symm (merging x List.mem_cons_self))
          dsimp only at h
          rw [if_pos hmerge] at h
          exact ih h htail fun z hz => merging z (List.mem_cons_of_mem _ hz)

theorem scanCache_none {seen l : List (AddrRange × V)} (h : scanCache cond seen l = .ok none) :
    ∀ it ∈ l, cond it.1 = .ok false := by
  induction l generalizing seen with
  | nil => simp
  | cons x rest ih =>
    rcases test_ok h with ⟨-, found⟩ | ⟨hc, h⟩
    · cases found
    · grind

theorem scanCache_some {seen l cache : List (AddrRange × V)} {it : AddrRange × V}
    (h : scanCache cond seen l = .ok (some (it, cache))) :
    it ∈ l ∧ cond it.1 = .ok true ∧ cache.Perm (seen ++ l) := by
  induction l generalizing seen with
  | nil => simp [scanCache] at h
  | cons x rest ih =>
    rcases test_ok h with ⟨hc, found⟩ | ⟨-, h⟩
    · cases found
      have order : (seen.reverse ++ rest).Perm (seen ++ rest) :=
        (List.reverse_perm seen).append_right rest
      exact ⟨List.mem_cons_self, hc, (order.cons it).trans List.perm_middle.symm⟩
    · obtain ⟨hit, hcond, hcache⟩ := ih h
      exact ⟨List.mem_cons_of_mem _ hit, hcond, hcache.trans List.perm_middle.symm⟩

def Sorted (m : AddrRangeMap V) : Prop := m.tree.Pairwise fun x y => x.1.key < y.1.key

theorem below_append_above (m : AddrRangeMap V) (r : AddrRange) :
    m.below r ++ m.above r = m.tree := List.takeWhile_append_dropWhile

theorem mem_below_le {r : AddrRange} {x : AddrRange × V} (h : x ∈ m.below r) : x.1.key ≤ r.key := by
  have hx := List.mem_takeWhile_imp h
  rw [Bool.not_eq_eq_eq_not, Bool.not_true, ← Bool.not_eq_true, lt_iff] at hx
  exact not_lt.mp hx

theorem mem_above_lt (sorted : m.Sorted) {r : AddrRange} {x : AddrRange × V}
    (h : x ∈ m.above r) : r.key < x.1.key := by
  have hsub : (m.above r).Pairwise fun x y => x.1.key < y.1.key :=
    List.Pairwise.sublist (List.dropWhile_sublist _) sorted
  cases habove : m.above r with
  | nil =>
    rw [habove] at h
    simp at h
  | cons y rest =>
    have hy : r.key < y.1.key := by
      have hne : m.above r ≠ [] := by rw [habove]; simp
      have hhead := List.head_dropWhile_not (fun e : AddrRange × V => ! r.lt e.1) hne
      simp only [above] at habove
      simp only [habove, Bool.not_eq_eq_eq_not] at hhead
      exact lt_iff.mp hhead
    rw [habove] at h hsub
    rcases List.mem_cons.mp h with rfl | h
    · exact hy
    · exact lt_trans hy (List.rel_of_pairwise_cons hsub h)

theorem mem_above (sorted : m.Sorted) {r : AddrRange} {x : AddrRange × V} :
    x ∈ m.above r ↔ x ∈ m.tree ∧ r.key < x.1.key := by
  have htree := below_append_above m r
  constructor
  · grind [mem_above_lt]
  · rintro ⟨hx, hlt⟩
    rw [← htree] at hx
    rcases List.mem_append.mp hx with h | h
    · exact absurd hlt (not_lt.mpr (mem_below_le h))
    · exact h

theorem mem_below (sorted : m.Sorted) {r : AddrRange} {x : AddrRange × V} :
    x ∈ m.below r ↔ x ∈ m.tree ∧ x.1.key ≤ r.key := by
  have htree := below_append_above m r
  constructor
  · grind [mem_below_le]
  · rintro ⟨hx, hle⟩
    rw [← htree] at hx
    rcases List.mem_append.mp hx with h | h
    · exact h
    · exact absurd (mem_above_lt sorted h) (not_lt.mpr hle)

theorem below_sorted (sorted : m.Sorted) (r : AddrRange) :
    (m.below r).Pairwise fun x y => x.1.key < y.1.key :=
  List.Pairwise.sublist (List.takeWhile_sublist _) sorted

theorem above_sorted (sorted : m.Sorted) (r : AddrRange) :
    (m.above r).Pairwise fun x y => x.1.key < y.1.key :=
  List.Pairwise.sublist (List.dropWhile_sublist _) sorted

theorem below_split (sorted : m.Sorted) {r : AddrRange} {i : AddrRange × V}
    {pre post : List (AddrRange × V)} (split : (m.below r).reverse = pre ++ i :: post) :
    ∀ x, x ∈ pre ↔ x ∈ m.tree ∧ i.1.key < x.1.key ∧ x.1.key ≤ r.key := by
  have hbelow : m.below r = post.reverse ++ i :: pre.reverse := by grind
  have hsorted := below_sorted sorted r
  rw [hbelow, List.pairwise_append] at hsorted
  obtain ⟨-, hback, hfront⟩ := hsorted
  intro x
  constructor
  · grind [mem_below, mem_below_le]
  · rintro ⟨hx, hlt, hle⟩
    have hmem : x ∈ m.below r := (mem_below sorted).mpr ⟨hx, hle⟩
    rw [hbelow] at hmem
    rcases List.mem_append.mp hmem with h | h
    · exact absurd (hfront x h i List.mem_cons_self) (not_lt.mpr hlt.le)
    · grind

/-- A search that finds nothing has looked at the first entry above the range and at all
that it reaches from there. -/
theorem search_none (sorted : m.Sorted) {r : AddrRange} (h : m.search r cond = .ok none) :
    (∀ next rest, m.above r = next :: rest → cond next.1 = .ok false) ∧
    ∀ e ∈ m.tree, e.1.key ≤ r.key →
      (∀ x ∈ m.tree, e.1.key < x.1.key → x.1.key ≤ r.key → x.1.mergesWith e.1 = true) →
      cond e.1 = .ok false := by
  have reached (hwalk : walk cond (m.below r).reverse = .ok none) :
      ∀ e ∈ m.tree, e.1.key ≤ r.key →
        (∀ x ∈ m.tree, e.1.key < x.1.key → x.1.key ≤ r.key → x.1.mergesWith e.1 = true) →
        cond e.1 = .ok false := by
    intro e he hle merging
    have hmem : e ∈ (m.below r).reverse :=
      List.mem_reverse.mpr ((mem_below sorted).mpr ⟨he, hle⟩)
    obtain ⟨pre, post, split⟩ := List.append_of_mem hmem
    refine walk_none hwalk split fun x hx => ?_
    obtain ⟨hxt, hlt, hxr⟩ := (below_split sorted split x).mp hx
    exact merging x hxt hlt hxr
  rw [search] at h
  cases habove : m.above r with
  | nil => grind
  | cons next rest =>
    rw [habove] at h
    rcases test_ok h with ⟨-, found⟩ | ⟨hc, h⟩
    · cases found
    · grind

/-- What a search finds satisfies the condition; it is the first entry above the range, or
one with only merging entries in between. -/
theorem search_some (sorted : m.Sorted) {r : AddrRange} {e : AddrRange × V}
    (h : m.search r cond = .ok (some e)) :
    e ∈ m.tree ∧ cond e.1 = .ok true ∧
      ((r.key < e.1.key ∧ ∀ x ∈ m.tree, r.key < x.1.key → e.1.key ≤ x.1.key) ∨
        (e.1.key ≤ r.key ∧ ∀ x ∈ m.tree, e.1.key < x.1.key → x.1.key ≤ r.key →
          x.1.mergesWith e.1 = true)) := by
  have walked (hwalk : walk cond (m.below r).reverse = .ok (some e)) :
      e ∈ m.tree ∧ cond e.1 = .ok true ∧ (e.1.key ≤ r.key ∧ ∀ x ∈ m.tree,
        e.1.key < x.1.key → x.1.key ≤ r.key → x.1.mergesWith e.1 = true) := by
    obtain ⟨hc, pre, post, split, merging⟩ := walk_some hwalk
    have hmem : e ∈ m.below r := by simp_all
    obtain ⟨htree, hle⟩ := (mem_below sorted).mp hmem
    refine ⟨htree, hc, hle, fun x hx hlt hxr => merging x ?_⟩
    exact (below_split sorted split x).mpr ⟨hx, hlt, hxr⟩
  rw [search] at h
  cases habove : m.above r with
  | nil => grind
  | cons next rest =>
    rw [habove] at h
    rcases test_ok h with ⟨hc, found⟩ | ⟨-, h⟩
    · cases found
      have hmem : e ∈ m.above r := by rw [habove]; exact List.mem_cons_self
      obtain ⟨htree, hlt⟩ := (mem_above sorted).mp hmem
      refine ⟨htree, hc, Or.inl ⟨hlt, fun x hx hxr => ?_⟩⟩
      have hxa : x ∈ m.above r := (mem_above sorted).mpr ⟨hx, hxr⟩
      have hsorted := above_sorted sorted r
      rw [habove] at hxa hsorted
      rcases List.mem_cons.mp hxa with rfl | hxa
      · exact le_rfl
      · exact (List.rel_of_pairwise_cons hsorted hxa).le
    · grind

theorem walk_total (p : AddrRange → Bool) (l : List (AddrRange × V)) :
    ∃ found, walk (fun s => .ok (p s)) l = .ok found := by
  induction l with
  | nil => exact ⟨none, rfl⟩
  | cons x rest ih =>
    rw [walk.eq_def]
    dsimp only
    cases hp : p x.1 with
    | true => exact ⟨some x, rfl⟩
    | false => aesop

theorem scanCache_total (p : AddrRange → Bool) (seen l : List (AddrRange × V)) :
    ∃ found, scanCache (fun s => .ok (p s)) seen l = .ok found := by
  induction l generalizing seen with
  | nil => exact ⟨none, rfl⟩
  | cons x rest ih =>
    rw [scanCache]
    cases hp : p x.1 with
    | true => exact ⟨_, rfl⟩
    | false => exact ih (x :: seen)

theorem search_total (p : AddrRange → Bool) (r : AddrRange) :
    ∃ found, m.search r (fun s => .ok (p s)) = .ok found := by
  rw [search]
  cases m.above r with
  | nil => exact walk_total p _
  | cons next rest =>
    dsimp only
    cases hp : p next.1 with
    | true => exact ⟨some next, rfl⟩
    | false => exact walk_total p _

theorem mem_addNewEntryToCache {it c : AddrRange × V}
    (h : c ∈ (m.addNewEntryToCache prm it).cache) : c = it ∨ c ∈ m.cache := by
  rw [addNewEntryToCache] at h
  split at h
  · grind [List.mem_of_mem_dropLast]
  · exact Or.inr h

theorem addNewEntryToCache_tree (it : AddrRange × V) :
    (m.addNewEntryToCache prm it).tree = m.tree := by
  rw [addNewEntryToCache]
  repeat' split
  all_goals rfl

theorem find_cases {r : AddrRange} {found : Option (AddrRange × V)}
    (h : m.find prm r cond = .ok (found, m')) :
    (∃ it, found = some it ∧ it ∈ m.cache ∧ cond it.1 = .ok true ∧ m'.tree = m.tree ∧
      m'.cache.Perm m.cache) ∨
    ((∀ it ∈ m.cache, cond it.1 = .ok false) ∧
      ((∃ it, found = some it ∧ m.search r cond = .ok (some it) ∧
          m' = m.addNewEntryToCache prm it) ∨
        (found = none ∧ m.search r cond = .ok none ∧ m' = m))) := by
  rw [find] at h
  cases hs : scanCache cond [] m.cache with
  | error =>
    rw [hs] at h
    cases h
  | ok hit =>
    rw [hs] at h
    cases hit with
    | some hit =>
      obtain ⟨it, cache⟩ := hit
      cases h
      obtain ⟨hmem, hcond, hcache⟩ := scanCache_some hs
      exact Or.inl ⟨it, rfl, hmem, hcond, rfl, hcache⟩
    | none =>
      refine Or.inr ⟨scanCache_none hs, ?_⟩
      cases hse : m.search r cond with
      | error =>
        rw [hse] at h
        cases h
      | ok result =>
        rw [hse] at h
        cases result with
        | some it =>
          cases h
          exact Or.inl ⟨it, rfl, rfl, rfl⟩
        | none =>
          cases h
          exact Or.inr ⟨rfl, rfl, rfl⟩

structure Wellformed (m : AddrRangeMap V) : Prop where
  sorted : m.Sorted
  cached : ∀ c ∈ m.cache, c ∈ m.tree

theorem Wellformed.find (h : m.Wellformed) {r : AddrRange} {found : Option (AddrRange × V)}
    (hf : m.find prm r cond = .ok (found, m')) : m'.Wellformed ∧ m'.tree = m.tree := by
  rcases find_cases hf with ⟨it, -, hmem, -, htree, hcache⟩ | ⟨-, ⟨it, -, hs, rfl⟩ | ⟨-, -, rfl⟩⟩
  · refine ⟨⟨?_, fun c hc => ?_⟩, htree⟩
    · rw [Sorted, htree]
      exact h.sorted
    · rw [htree]
      exact h.cached c (hcache.mem_iff.mp hc)
  · have htree : (m.addNewEntryToCache prm it).tree = m.tree := addNewEntryToCache_tree it
    refine ⟨⟨?_, fun c hc => ?_⟩, htree⟩
    · rw [Sorted, htree]
      exact h.sorted
    · rw [htree]
      rcases mem_addNewEntryToCache hc with rfl | hc
      · exact (search_some h.sorted hs).1
      · exact h.cached c hc
  · exact ⟨h, rfl⟩

theorem mem_treeInsert {e x : AddrRange × V} {tree : List (AddrRange × V)}
    (h : x ∈ treeInsert e tree) : x = e ∨ x ∈ tree := by
  induction tree with
  | nil => simpa [treeInsert] using h
  | cons y tree ih => grind [treeInsert]

theorem mem_treeInsert_of_mem {e x : AddrRange × V} {tree : List (AddrRange × V)}
    (h : x ∈ tree) : x ∈ treeInsert e tree := by
  induction tree with
  | nil => simp at h
  | cons y tree ih => grind [treeInsert]

theorem treeInsert_sorted {e : AddrRange × V} {tree : List (AddrRange × V)}
    (h : tree.Pairwise fun x y => x.1.key < y.1.key) :
    (treeInsert e tree).Pairwise fun x y => x.1.key < y.1.key := by
  induction tree with
  | nil => simp [treeInsert]
  | cons y tree ih =>
    rw [treeInsert]
    split
    · rename_i hlt
      refine List.Pairwise.cons (fun x hx => ?_) h
      rcases List.mem_cons.mp hx with rfl | hx
      · exact lt_iff.mp hlt
      · exact lt_trans (lt_iff.mp hlt) (List.rel_of_pairwise_cons h hx)
    · split
      · rename_i hlt
        refine List.Pairwise.cons (fun x hx => ?_) (ih (List.Pairwise.of_cons h))
        rcases mem_treeInsert hx with rfl | hx
        · exact lt_iff.mp hlt
        · exact List.rel_of_pairwise_cons h hx
      · exact h

theorem insert_cases {r : AddrRange} {d : V} {accepted : Bool}
    (h : m.insert prm r d = .ok (accepted, m')) :
    ∃ found m₁, m.find prm r r.intersects = .ok (found, m₁) ∧
      ((accepted = false ∧ m' = m₁) ∨
        (accepted = true ∧ found = none ∧ m' = { m₁ with tree := treeInsert (r, d) m₁.tree })) := by
  rw [insert] at h
  cases hf : m.find prm r r.intersects with
  | error =>
    rw [hf] at h
    cases h
  | ok result =>
    obtain ⟨found, m₁⟩ := result
    rw [hf] at h
    refine ⟨found, m₁, rfl, ?_⟩
    cases found with
    | some =>
      cases h
      exact Or.inl ⟨rfl, rfl⟩
    | none =>
      cases h
      exact Or.inr ⟨rfl, rfl, rfl⟩

theorem Reachable.wellformed (h : Reachable prm m) : m.Wellformed := by
  induction h with
  | empty => exact ⟨List.Pairwise.nil, by simp⟩
  | insert r d _ hins ih =>
    obtain ⟨found, m₁, hf, ⟨-, rfl⟩ | ⟨-, -, rfl⟩⟩ := insert_cases hins
    · exact (ih.find hf).1
    · obtain ⟨hw, -⟩ := ih.find hf
      exact ⟨treeInsert_sorted hw.sorted, fun c hc => mem_treeInsert_of_mem (hw.cached c hc)⟩
  | contains a _ hc ih => exact (ih.find hc).1

end AddrRangeMap

end Gem5.Base
