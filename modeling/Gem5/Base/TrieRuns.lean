import Gem5.Base.TrieRemove

/-!
# Tries as prefix maps

A trie maps prefixes to values. Each handle in use stands for one prefix and its value, and a
lookup gives the value of the shortest prefix of the key.
-/

namespace Gem5.Base.Trie

open Prefixes Option BitVec

variable {n : Nat} {Value : Type} {t t' : Trie n Value} {cells : Cells n Value}
  {m m' m'' : Entries n Value} {x y z : Handle} {c d : Cell n Value} {e : Entry n Value}
  {key : BitVec n} {fuel : Nat}

inductive Op (n : Nat) (Value : Type) where
  | insert (key : BitVec n) (width : Nat) (val : Value)
  | remove (handle : Handle)
  | removeKey (key : BitVec n)
  | clear

inductive Outcome (Value : Type) where
  | inserted (handle : Handle)
  | removed (val : Option Value)
  | cleared

def perform (fuel : Nat) (t : Trie n Value) : Op n Value → Option (Trie n Value × Outcome Value)
  | .insert key width val =>
    (t.insert fuel key width (some val)).map fun r => (r.1, .inserted r.2)
  | .remove handle => (t.remove fuel handle).map fun r => (r.1, .removed r.2)
  | .removeKey key => (t.removeKey fuel key).map fun r => (r.1, .removed r.2)
  | .clear => (t.clear fuel).map fun t => (t, .cleared)

def Entry.Matches (e : Entry n Value) (key : BitVec n) : Prop := key &&& Prefixes.mask n e.width = e.key

/-- The shortest prefix of a key. -/
def Shortest (m : Entries n Value) (key : BitVec n) (h : Handle) (e : Entry n Value) : Prop :=
  m h = some e ∧ e.Matches key ∧ ∀ h' e', m h' = some e' → e'.Matches key → e.width ≤ e'.width

def NoneMatches (m : Entries n Value) (key : BitVec n) : Prop := ∀ h e, m h = some e → ¬e.Matches key

/-- A width from 1 to the bits of a key and a prefix that is not there, or a handle in use. -/
def Allowed (m : Entries n Value) : Op n Value → Prop
  | .insert key width _ => 1 ≤ width ∧ width ≤ n ∧
      ∀ h e, m h = some e → ¬(e.width = width ∧ e.key = key &&& Prefixes.mask n width)
  | .remove handle => m handle ≠ none
  | .removeKey _ => True
  | .clear => True

/-- What an operation does to the map and returns. -/
def Performs (m : Entries n Value) : Op n Value → Outcome Value → Entries n Value → Prop
  | .insert key width val, .inserted h, m' =>
    m h = none ∧ m' = Function.update m h (some ⟨key &&& Prefixes.mask n width, width, val⟩)
  | .remove h, .removed val, m' => val = (m h).map Entry.value ∧ m' = Function.update m h none
  | .removeKey key, .removed val, m' =>
    (∃ h e, Shortest m key h e ∧ val = some e.value ∧ m' = Function.update m h none) ∨
      NoneMatches m key ∧ val = none ∧ m' = m
  | .clear, .cleared, m' => m' = fun _ => none
  | _, _, _ => False

/-- An operation on a trie, and on the map that it stands for. -/
def Performed (fuel : Nat) (s s' : Trie n Value × Entries n Value) : Prop :=
  ∃ op out, Allowed s.2 op ∧ s.1.perform fuel op = some (s'.1, out) ∧ Performs s.2 op out s'.2

theorem entries_eq_some_iff : entries cells x = some e ↔
    ∃ c, cells x = some c ∧ c.value = some e.value ∧ c.key = e.key ∧ c.width = e.width := by
  rw [entries, bind_eq_some_iff]
  refine exists_congr fun c => and_congr_right fun _ => ?_
  rw [Cell.entry, map_eq_some_iff]
  constructor
  · grind
  · simp_all

theorem matches_iff (wf : Wf cells) (here : cells x = some c) (keys : c.key = e.key)
    (width : c.width = e.width) : e.Matches key ↔ Agree c.width c.key key := by
  obtain ⟨bound, masked⟩ := wf.format here
  rw [Entry.Matches, ← keys, ← width]
  exact and_mask_eq_left_iff bound masked

theorem noneMatches_of_finds (wf : Wf cells) (finds : Finds cells key none) :
    NoneMatches (entries cells) key := by
  intro h e entry hit
  obtain ⟨c, here, stored, keys, width⟩ := entries_eq_some_iff.mp entry
  refine finds h c here ?_ ((matches_iff wf here keys width).mp hit)
  rw [stored]
  exact some_ne_none _

theorem shortest_of_finds (wf : Wf cells) (finds : Finds cells key (some x)) :
    ∃ c e, cells x = some c ∧ c.value = some e.value ∧ Shortest (entries cells) key x e := by
  obtain ⟨c, here, value, agree, least⟩ := finds
  obtain ⟨v, stored⟩ := Option.ne_none_iff_exists'.mp value
  refine ⟨c, ⟨c.key, c.width, v⟩, here, stored,
    entries_eq_some_iff.mpr ⟨c, here, stored, rfl, rfl⟩, (matches_iff wf here rfl rfl).mpr agree, ?_⟩
  intro h' e' entry hit
  obtain ⟨c', here', stored', keys, width⟩ := entries_eq_some_iff.mp entry
  rw [← width]
  refine least h' c' here' ?_ ((matches_iff wf here' keys width).mp hit)
  rw [stored']
  exact some_ne_none _

theorem shortest_unique (wf : Wf cells) {h h' : Handle} {e e' : Entry n Value}
    (first : Shortest (entries cells) key h e) (second : Shortest (entries cells) key h' e') :
    h = h' := by
  obtain ⟨c, here, -, keys, width⟩ := entries_eq_some_iff.mp first.1
  obtain ⟨c', here', -, keys', width'⟩ := entries_eq_some_iff.mp second.1
  have agree := (matches_iff wf here keys width).mp first.2.1
  have agree' := (matches_iff wf here' keys' width').mp second.2.1
  have same : c.width = c'.width := by
    rw [width, width']
    exact Nat.le_antisymm (first.2.2 h' e' second.1 second.2.1)
      (second.2.2 h e first.1 first.2.1)
  exact eq_of_same_prefix wf here here' same (agree.trans (same ▸ agree'.symm))

theorem lookup_spec (rep : Rep t cells) (enough : n < fuel) (key : BitVec n) :
    ∃ found, t.lookup fuel key = some found ∧
      (∀ v, found = some v ↔ ∃ h e, Shortest (entries cells) key h e ∧ e.value = v) ∧
      (found = none ↔ NoneMatches (entries cells) key) := by
  obtain ⟨node, looked, finds⟩ := lookupHandle_spec rep.wf rep.holds enough key
  cases node with
  | none =>
    have nowhere := noneMatches_of_finds rep.wf finds
    refine ⟨none, by rw [lookup, looked]; rfl, fun v => ?_, iff_of_true rfl nowhere⟩
    apply iff_of_false (some_ne_none v).symm
    rintro ⟨h, e, ⟨entry, hit, -⟩, -⟩
    exact nowhere h e entry hit
  | some x =>
    obtain ⟨c, e, here, stored, shortest⟩ := shortest_of_finds rep.wf finds
    have found : t.lookup fuel key = some c.value := by
      rw [lookup, looked]
      change (t.nodes x).map Node.value = _
      rw [rep.holds.node here]
      rfl
    refine ⟨some e.value, found.trans (congrArg some stored), fun v => ⟨fun eq => ?_, ?_⟩, ?_⟩
    · exact ⟨x, e, shortest, Option.some.inj eq⟩
    · rintro ⟨h, e', shortest', rfl⟩
      cases shortest_unique rep.wf shortest shortest'
      cases shortest.1.symm.trans shortest'.1
      rfl
    · exact iff_of_false (some_ne_none _) fun nowhere =>
        nowhere x e shortest.1 shortest.2.1

theorem perform_spec (rep : Rep t cells) (enough : n + 1 < fuel) {op : Op n Value}
    (allowed : Allowed (entries cells) op) :
    ∃ t' out cells', t.perform fuel op = some (t', out) ∧ Rep t' cells' ∧
      Performs (entries cells) op out (entries cells') := by
  have walks : n < fuel := Nat.lt_of_succ_lt enough
  have two : 2 ≤ fuel := by omega
  cases op with
  | insert key width val =>
    obtain ⟨pos, bound, absent⟩ := allowed
    obtain ⟨⟨t', h⟩, inserted, cells', rep', unused, entries'⟩ :=
      insert_spec rep walks key pos bound val absent
    exact ⟨t', .inserted h, cells', by rw [perform, inserted]; rfl, rep', unused, entries'⟩
  | remove =>
    obtain ⟨e, entry⟩ := Option.ne_none_iff_exists'.mp allowed
    obtain ⟨c, here, stored, -⟩ := entries_eq_some_iff.mp entry
    obtain ⟨t', removed, cells', rep', entries'⟩ := remove_spec rep two here (by
      rw [stored]
      exact some_ne_none _)
    refine ⟨t', .removed c.value, cells', by rw [perform, removed]; rfl, rep', ?_, entries'⟩
    rw [entry, stored]
    rfl
  | removeKey key =>
    obtain ⟨node, looked, finds⟩ := lookupHandle_spec rep.wf rep.holds walks key
    cases node with
    | none =>
      refine ⟨t, .removed none, cells, ?_, rep, .inr ⟨noneMatches_of_finds rep.wf finds, rfl, rfl⟩⟩
      rw [perform, removeKey, looked]
      rfl
    | some x =>
      obtain ⟨c, e, here, stored, shortest⟩ := shortest_of_finds rep.wf finds
      obtain ⟨t', removed, cells', rep', entries'⟩ := remove_spec rep two here (by
        rw [stored]
        exact some_ne_none _)
      refine ⟨t', .removed c.value, cells', ?_, rep', .inl ⟨x, e, shortest, stored, entries'⟩⟩
      rw [perform, removeKey, looked]
      change (t.remove fuel x).map _ = _
      rw [removed]
      rfl
  | clear =>
    obtain ⟨t', cells', cleared, rep', none_⟩ := clear_spec rep walks
    exact ⟨t', .cleared, cells', by rw [perform, cleared]; rfl, rep', none_⟩

theorem performs_unique (wf : Wf cells) {op : Op n Value} {out : Outcome Value}
    (first : Performs (entries cells) op out m) (second : Performs (entries cells) op out m') :
    m = m' := by
  cases op <;> cases out <;> try exact first.elim
  · exact first.2.trans second.2.symm
  · exact first.2.trans second.2.symm
  · rcases first with ⟨h, e, shortest, -, rfl⟩ | ⟨nowhere, -, rfl⟩ <;>
      rcases second with ⟨h', e', shortest', -, rfl⟩ | ⟨nowhere', -, rfl⟩
    · rw [shortest_unique wf shortest shortest']
    · exact absurd shortest.2.1 (nowhere' h e shortest.1)
    · exact absurd shortest'.2.1 (nowhere h' e' shortest'.1)
    · rfl
  · exact Eq.trans first (Eq.symm second)

theorem rep_new : Rep (new n Value) (put (fun _ => none) head (some ⟨0, 0, none, none, []⟩)) := by
  apply rep_root
  · have whole : Prefixes.mask n 0 = 0 := by
      rw [Prefixes.mask, Nat.sub_zero, shiftLeft_eq_zero (Nat.le_refl n)]
      rfl
    have stored : (new n Value).nodes head = some (Node.new 0 0 none) := rfl
    rw [stored, Cell.node, whole, Node.new, BitVec.and_self]
    rfl
  · exact Nat.lt_succ_self head
  · rfl
  · exact zero_and
  · rfl
  · rfl
  · rfl

theorem rep_of_run {s : Trie n Value × Entries n Value} (enough : n + 1 < fuel)
    (run : Relation.ReflTransGen (Performed fuel) (new n Value, fun _ => none) s) :
    ∃ cells, Rep s.1 cells ∧ entries cells = s.2 := by
  induction run with
  | refl => exact ⟨_, rep_new, entries_root rfl⟩
  | tail _ step ih =>
    obtain ⟨cells, rep, eq⟩ := ih
    obtain ⟨op, out, allowed, performed, performs⟩ := step
    rw [← eq] at allowed performs
    obtain ⟨t', out', cells', performed', rep', performs'⟩ := perform_spec rep enough allowed
    cases performed.symm.trans performed'
    exact ⟨cells', rep', performs_unique rep.wf performs' performs⟩

/-- After every run each allowed operation succeeds and does to the map what it should, and a lookup
gives the value of the shortest prefix of the key, or null if there is none. -/
theorem prefix_map (enough : n + 1 < fuel)
    (run : Relation.ReflTransGen (Performed fuel) (new n Value, fun _ => none) (t, m)) :
    (∀ op, Allowed m op → ∃ t' out m', t.perform fuel op = some (t', out) ∧ Performs m op out m') ∧
      ∀ key, ∃ found, t.lookup fuel key = some found ∧
        (∀ v, found = some v ↔ ∃ h e, Shortest m key h e ∧ e.value = v) ∧
        (found = none ↔ NoneMatches m key) := by
  obtain ⟨cells, rep, eq⟩ := rep_of_run enough run
  dsimp only at rep eq
  subst eq
  constructor
  · intro op allowed
    obtain ⟨t', out, cells', performed, -, performs⟩ := perform_spec rep enough allowed
    exact ⟨t', out, _, performed, performs⟩
  · exact lookup_spec rep (Nat.lt_of_succ_lt enough)

theorem prefix_map_one_entry :
    ∃ t m, Relation.ReflTransGen (Performed 6) (new 4 Nat, fun _ => none) (t, m) ∧ m 1 ≠ none ∧
      ∃ found, t.lookup 6 11#4 = some found ∧
        (∀ v, found = some v ↔ ∃ h e, Shortest m 11#4 h e ∧ e.value = v) ∧
        (found = none ↔ NoneMatches m 11#4) := by
  obtain ⟨t, inserted⟩ : ∃ t, (new 4 Nat).insert 6 10#4 2 (some 7) = some (t, 1) := ⟨_, rfl⟩
  have run : Relation.ReflTransGen (Performed 6) (new 4 Nat, fun _ => none)
      (t, Function.update (fun _ => none) 1 (some ⟨10#4 &&& Prefixes.mask 4 2, 2, 7⟩)) := by
    refine .single ⟨.insert 10#4 2 7, .inserted 1, ⟨by decide, by decide, ?_⟩, ?_, rfl, rfl⟩
    · intro h e none_
      cases none_
    · rw [perform, inserted]
      rfl
  refine ⟨t, _, run, ?_, (prefix_map (by decide) run).2 11#4⟩
  rw [Function.update_self]
  exact Option.some_ne_none _

end Gem5.Base.Trie
