import Gem5.Base.Trie
import Gem5.Lib.Prefixes
import Mathlib.Logic.Relation

/-!
# The shape of a trie

The nodes of a trie as cells, with the width of the prefix in place of the mask and the kids as a
list, and what always holds of their links. Putting a node above at most one kid and taking such a
node out keep the shape.
-/

namespace Gem5.Base.Trie

open Prefixes

structure Cell (n : Nat) (Value : Type) where
  key : BitVec n
  width : Nat
  value : Option Value
  parent : Option Handle
  kids : List Handle

variable {n : Nat} {Value : Type}

def Cell.node (c : Cell n Value) : Node n Value :=
  ⟨c.key, Prefixes.mask n c.width, c.value, c.parent, fun i => c.kids[i]?⟩

abbrev Cells (n : Nat) (Value : Type) := Handle → Option (Cell n Value)

/-- The prefix of the second cell goes on where the first one ends. -/
def Extends (c d : Cell n Value) : Prop := c.width < d.width ∧ Agree c.width c.key d.key

structure Wf (cells : Cells n Value) : Prop where
  root : ∃ c, cells head = some c ∧ c.width = 0 ∧ c.value = none ∧ c.parent = none
  format : ∀ {x c}, cells x = some c → c.width ≤ n ∧ c.key &&& Prefixes.mask n c.width = c.key
  kid : ∀ {x c y}, cells x = some c → y ∈ c.kids →
    ∃ d, cells y = some d ∧ d.parent = some x ∧ Extends c d
  parent : ∀ {y d}, cells y = some d → y ≠ head →
    ∃ x c, d.parent = some x ∧ cells x = some c ∧ y ∈ c.kids
  nodup : ∀ {x c}, cells x = some c → c.kids.Nodup
  differ : ∀ {x c y z d e}, cells x = some c → y ∈ c.kids → z ∈ c.kids → cells y = some d →
    cells z = some e → d.key.getMsbD c.width = e.key.getMsbD c.width → y = z

/-- Only the root and a loose node may have neither a value nor two kids. -/
def Full (cells : Cells n Value) (loose : Option Handle) : Prop :=
  ∀ x c, cells x = some c → x ≠ head → loose ≠ some x → c.value ≠ none ∨ 2 ≤ c.kids.length

variable {cells : Cells n Value} {x y z : Handle} {c d e : Cell n Value}

def put (cells : Cells n Value) (x : Handle) (c : Option (Cell n Value)) : Cells n Value :=
  Function.update cells x c

@[simp] theorem put_self (cells : Cells n Value) (x : Handle) (c : Option (Cell n Value)) :
    put cells x c x = c := by rw [put, Function.update_self]

theorem put_of_ne (cells : Cells n Value) (c : Option (Cell n Value)) (ne : y ≠ x) :
    put cells x c y = cells y := by rw [put, Function.update_of_ne ne]

theorem put_eq_some_iff (cells : Cells n Value) (c : Option (Cell n Value)) :
    put cells x c y = some d ↔ y = x ∧ c = some d ∨ y ≠ x ∧ cells y = some d := by
  by_cases same : y = x
  · grind [put_self]
  · rw [put_of_ne cells c same]
    exact ⟨fun h => .inr ⟨same, h⟩, fun h => h.elim (fun h => absurd h.1 same) And.right⟩

/-- A node, if any, gets the parent `p`, and `x` these kids. -/
def relink (cells : Cells n Value) (kid : Option Handle) (p x : Handle) (kids : List Handle) :
    Cells n Value := fun z =>
  (cells z).map fun b =>
    { b with
      parent := if kid = some z then some p else b.parent
      kids := if z = x then kids else b.kids }

variable {kid : Option Handle} {kids : List Handle}

theorem relink_eq_some_iff {p : Handle} :
    relink cells kid p x kids z = some e ↔
      ∃ b, cells z = some b ∧
        { b with
          parent := if kid = some z then some p else b.parent
          kids := if z = x then kids else b.kids } = e :=
  Option.map_eq_some_iff

/-- The node `y` below `x` and above one of its kids, if any. -/
def insertNode (cells : Cells n Value) (x y : Handle) (d : Cell n Value) (kid : Option Handle)
    (kids : List Handle) : Cells n Value :=
  put (relink cells kid y x kids) y (some d)

/-- The node `y` below `x` makes way for its kid, if any. -/
def removeNode (cells : Cells n Value) (x y : Handle) (kid : Option Handle) (kids : List Handle) :
    Cells n Value :=
  put (relink cells kid x x kids) y none

theorem wf_setValue (wf : Wf cells) (here : cells x = some c) (other : x ≠ head)
    (val : Option Value) : Wf (put cells x (some { c with value := val })) := by
  have old : ∀ {z e}, put cells x (some { c with value := val }) z = some e →
      ∃ b v, cells z = some b ∧ e = { b with value := v } := by
    intro z e h
    rcases (put_eq_some_iff _ _).mp h with ⟨rfl, eq⟩ | ⟨_, h⟩
    · exact ⟨c, val, here, (Option.some.inj eq).symm⟩
    · exact ⟨e, e.value, h, rfl⟩
  have new : ∀ {z b}, cells z = some b →
      ∃ v, put cells x (some { c with value := val }) z = some { b with value := v } := by
    intro z b h
    by_cases same : z = x
    · grind [put_self]
    · exact ⟨b.value, (put_of_ne _ _ same).trans h⟩
  constructor
  · obtain ⟨r, root, rest⟩ := wf.root
    exact ⟨r, (put_of_ne _ _ other.symm).trans root, rest⟩
  · intro z e h
    obtain ⟨b, v, was, rfl⟩ := old h
    have format := wf.format was
    exact format
  · intro z e y h mem
    obtain ⟨b, v, was, rfl⟩ := old h
    obtain ⟨d, below, up, more⟩ := wf.kid was mem
    obtain ⟨v', now⟩ := new below
    exact ⟨_, now, up, more⟩
  · intro y d h out
    obtain ⟨b, v, was, rfl⟩ := old h
    obtain ⟨z, e, up, above, mem⟩ := wf.parent was out
    obtain ⟨v', now⟩ := new above
    exact ⟨z, _, up, now, mem⟩
  · intro z e h
    obtain ⟨b, v, was, rfl⟩ := old h
    have nodup := wf.nodup was
    exact nodup
  · intro z e y y' d d' h mem mem' below below' same
    obtain ⟨b, v, was, rfl⟩ := old h
    obtain ⟨k, _, wasKid, rfl⟩ := old below
    obtain ⟨k', _, wasKid', rfl⟩ := old below'
    exact wf.differ was mem mem' wasKid wasKid' same

theorem Extends.trans (h : Extends c d) (h' : Extends d e) : Extends c e :=
  ⟨Nat.lt_trans h.1 h'.1, h.2.trans (h'.2.mono (Nat.le_of_lt h.1))⟩

theorem Wf.ne_of_kid (wf : Wf cells) (here : cells x = some c) (mem : y ∈ c.kids) : y ≠ x := by
  rintro rfl
  obtain ⟨d, below, -, wider, -⟩ := wf.kid here mem
  cases here.symm.trans below
  exact Nat.lt_irrefl _ wider

theorem Wf.unique_parent (wf : Wf cells) (above : cells x = some c) (above' : cells y = some d)
    (mem : z ∈ c.kids) (mem' : z ∈ d.kids) : x = y := by
  obtain ⟨e, below, up, -⟩ := wf.kid above mem
  obtain ⟨e', below', up', -⟩ := wf.kid above' mem'
  cases below.symm.trans below'
  exact Option.some.inj (up.symm.trans up')

theorem Wf.root_no_kid (wf : Wf cells) (above : cells x = some c) : head ∉ c.kids := by
  intro mem
  obtain ⟨d, below, up, -⟩ := wf.kid above mem
  obtain ⟨r, root, -, -, none⟩ := wf.root
  cases below.symm.trans root
  cases up.symm.trans none

theorem wf_insertNode (wf : Wf cells) (here : cells x = some c) (fresh : cells y = none) (up : d.parent = some x) (down : d.kids = kid.toList)
    (format : d.width ≤ n ∧ d.key &&& Prefixes.mask n d.width = d.key) (below : Extends c d)
    (moves : ∀ k, kid = some k → k ∈ c.kids ∧ ∀ e, cells k = some e → Extends d e)
    (mem_iff : ∀ z, z ∈ kids ↔ z = y ∨ z ∈ c.kids ∧ kid ≠ some z) (nodup : kids.Nodup)
    (differ : ∀ z e, z ∈ c.kids → kid ≠ some z → cells z = some e →
      e.key.getMsbD c.width ≠ d.key.getMsbD c.width) :
    Wf (insertNode cells x y d kid kids) := by
  have live : ∀ {z b}, cells z = some b → z ≠ y := by grind
  have new : ∀ {z b}, cells z = some b → insertNode cells x y d kid kids z =
      some { b with
        parent := if kid = some z then some y else b.parent
        kids := if z = x then kids else b.kids } := by
    intro z b h
    exact (put_of_ne _ _ (live h)).trans (relink_eq_some_iff.mpr ⟨b, h, rfl⟩)
  have self : insertNode cells x y d kid kids y = some d := put_self _ _ _
  have old : ∀ {z e}, insertNode cells x y d kid kids z = some e → z = y ∧ e = d ∨
      ∃ b, cells z = some b ∧ e = { b with
        parent := if kid = some z then some y else b.parent
        kids := if z = x then kids else b.kids } := by
    intro z e h
    rcases (put_eq_some_iff _ _).mp h with ⟨rfl, eq⟩ | ⟨_, h⟩
    · exact .inl ⟨rfl, (Option.some.inj eq).symm⟩
    · obtain ⟨b, was, eq⟩ := relink_eq_some_iff.mp h
      exact .inr ⟨b, was, eq.symm⟩
  constructor
  · obtain ⟨r, root, width, value, none⟩ := wf.root
    have still : kid ≠ some head := fun eq => wf.root_no_kid here (moves head eq).1
    refine ⟨_, new root, width, value, ?_⟩
    rw [if_neg still]
    exact none
  · intro z e h
    rcases old h with ⟨rfl, rfl⟩ | ⟨b, was, rfl⟩
    · exact format
    · have format := wf.format was
      exact format
  · intro z e w h mem
    rcases old h with ⟨rfl, rfl⟩ | ⟨b, was, rfl⟩
    · rw [down, Option.mem_toList] at mem
      obtain ⟨above, more⟩ := moves w mem
      obtain ⟨b, was, -⟩ := wf.kid here above
      exact ⟨_, new was, if_pos mem, more b was⟩
    · by_cases at_ : z = x
      · subst at_
        cases here.symm.trans was
        rw [if_pos rfl] at mem
        rcases (mem_iff w).mp mem with rfl | ⟨above, stays⟩
        · exact ⟨d, self, up, below⟩
        · obtain ⟨b, was, up, more⟩ := wf.kid here above
          exact ⟨_, new was, (if_neg stays).trans up, more⟩
      · rw [if_neg at_] at mem
        obtain ⟨k, wasKid, up, more⟩ := wf.kid was mem
        have stays : kid ≠ some w := fun eq =>
          at_ (wf.unique_parent was here mem (moves w eq).1)
        exact ⟨_, new wasKid, (if_neg stays).trans up, more⟩
  · intro w e h out
    rcases old h with ⟨rfl, rfl⟩ | ⟨b, was, rfl⟩
    · grind
    · by_cases moved : kid = some w
      · simp_all
      · obtain ⟨z, e, up, above, mem⟩ := wf.parent was out
        refine ⟨z, _, (if_neg moved).trans up, new above, ?_⟩
        by_cases at_ : z = x
        · grind
        · rw [if_neg at_]
          exact mem
  · intro z e h
    rcases old h with ⟨rfl, rfl⟩ | ⟨b, was, rfl⟩
    · grind
    · by_cases at_ : z = x
      · rw [if_pos at_]
        exact nodup
      · rw [if_neg at_]
        have kept := wf.nodup was
        exact kept
  · intro z e w w' k k' h mem mem' isKid isKid' same
    rcases old h with ⟨rfl, rfl⟩ | ⟨b, was, rfl⟩
    · grind
    · by_cases at_ : z = x
      · subst at_
        cases here.symm.trans was
        rw [if_pos rfl] at mem mem'
        rcases (mem_iff w).mp mem with rfl | ⟨above, stays⟩ <;>
          rcases (mem_iff w').mp mem' with rfl | ⟨above', stays'⟩
        · rfl
        · cases self.symm.trans isKid
          rcases old isKid' with ⟨rfl, rfl⟩ | ⟨b', was', rfl⟩
          · rfl
          · exact absurd same.symm (differ w' b' above' stays' was')
        · cases self.symm.trans isKid'
          rcases old isKid with ⟨rfl, rfl⟩ | ⟨b', was', rfl⟩
          · rfl
          · exact absurd same (differ w b' above stays was')
        · obtain ⟨b, was, -⟩ := wf.kid here above
          obtain ⟨b', was', -⟩ := wf.kid here above'
          cases (new was).symm.trans isKid
          cases (new was').symm.trans isKid'
          exact wf.differ here above above' was was' same
      · rw [if_neg at_] at mem mem'
        obtain ⟨b, wasKid, -⟩ := wf.kid was mem
        obtain ⟨b', wasKid', -⟩ := wf.kid was mem'
        cases (new wasKid).symm.trans isKid
        cases (new wasKid').symm.trans isKid'
        exact wf.differ was mem mem' wasKid wasKid' same

theorem wf_removeNode (wf : Wf cells) (here : cells x = some c) (node : cells y = some d)
    (below : y ∈ c.kids) (down : d.kids = kid.toList)
    (mem_iff : ∀ z, z ∈ kids ↔ z ∈ c.kids ∧ z ≠ y ∨ kid = some z) (nodup : kids.Nodup) :
    Wf (removeNode cells x y kid kids) := by
  obtain ⟨d', node', up, wider⟩ := wf.kid here below
  cases node.symm.trans node'
  have moves : ∀ {k}, kid = some k → k ∈ d.kids := by simp [down]
  have new : ∀ {z b}, cells z = some b → z ≠ y → removeNode cells x y kid kids z =
      some { b with
        parent := if kid = some z then some x else b.parent
        kids := if z = x then kids else b.kids } := by
    intro z b h other
    exact (put_of_ne _ _ other).trans (relink_eq_some_iff.mpr ⟨b, h, rfl⟩)
  have old : ∀ {z e}, removeNode cells x y kid kids z = some e → z ≠ y ∧
      ∃ b, cells z = some b ∧ e = { b with
        parent := if kid = some z then some x else b.parent
        kids := if z = x then kids else b.kids } := by
    intro z e h
    rcases (put_eq_some_iff _ _).mp h with ⟨_, eq⟩ | ⟨other, h⟩
    · cases eq
    · obtain ⟨b, was, eq⟩ := relink_eq_some_iff.mp h
      exact ⟨other, b, was, eq.symm⟩
  have notRoot : head ≠ y := by
    rintro rfl
    exact wf.root_no_kid here below
  constructor
  · obtain ⟨r, root, width, value, none⟩ := wf.root
    have still : kid ≠ some head := fun eq => wf.root_no_kid node (moves eq)
    refine ⟨_, new root notRoot, width, value, ?_⟩
    rw [if_neg still]
    exact none
  · intro z e h
    obtain ⟨-, b, was, rfl⟩ := old h
    have format := wf.format was
    exact format
  · intro z e w h mem
    obtain ⟨other, b, was, rfl⟩ := old h
    by_cases at_ : z = x
    · subst at_
      cases here.symm.trans was
      rw [if_pos rfl] at mem
      rcases (mem_iff w).mp mem with ⟨mem, other'⟩ | moved
      · obtain ⟨k, wasKid, up', more⟩ := wf.kid here mem
        have stays : kid ≠ some w := fun eq =>
          other (wf.unique_parent here node mem (moves eq))
        exact ⟨_, new wasKid other', (if_neg stays).trans up', more⟩
      · obtain ⟨k, wasKid, -, more⟩ := wf.kid node (moves moved)
        have other' := wf.ne_of_kid node (moves moved)
        exact ⟨_, new wasKid other', if_pos moved, wider.trans more⟩
    · rw [if_neg at_] at mem
      obtain ⟨k, wasKid, up', more⟩ := wf.kid was mem
      have other' : w ≠ y := by grind
      have stays : kid ≠ some w := fun eq =>
        other (wf.unique_parent was node mem (moves eq))
      exact ⟨_, new wasKid other', (if_neg stays).trans up', more⟩
  · intro w e h out
    obtain ⟨other, b, was, rfl⟩ := old h
    by_cases moved : kid = some w
    · grind
    · obtain ⟨z, e, up', above, mem⟩ := wf.parent was out
      have other' : z ≠ y := by grind
      refine ⟨z, _, (if_neg moved).trans up', new above other', ?_⟩
      by_cases at_ : z = x
      · grind
      · rw [if_neg at_]
        exact mem
  · intro z e h
    obtain ⟨-, b, was, rfl⟩ := old h
    by_cases at_ : z = x
    · rw [if_pos at_]
      exact nodup
    · rw [if_neg at_]
      have kept := wf.nodup was
      exact kept
  · intro z e w w' k k' h mem mem' isKid isKid' same
    obtain ⟨other, b, was, rfl⟩ := old h
    obtain ⟨apart, v, wasKid, rfl⟩ := old isKid
    obtain ⟨apart', v', wasKid', rfl⟩ := old isKid'
    by_cases at_ : z = x
    · subst at_
      cases here.symm.trans was
      rw [if_pos rfl] at mem mem'
      -- the kid that moves up goes on as the removed node does
      have bit : ∀ {k v}, kid = some k → cells k = some v →
          d.key.getMsbD c.width = v.key.getMsbD c.width := by
        intro k v moved wasKid
        obtain ⟨v', wasKid', -, more⟩ := wf.kid node (moves moved)
        cases wasKid.symm.trans wasKid'
        exact more.2 c.width wider.1
      rcases (mem_iff w).mp mem with ⟨mem, -⟩ | moved <;>
        rcases (mem_iff w').mp mem' with ⟨mem', -⟩ | moved'
      · exact wf.differ here mem mem' wasKid wasKid' same
      · exact absurd (wf.differ here mem below wasKid node (same.trans (bit moved' wasKid').symm))
          apart
      · exact absurd (wf.differ here below mem' node wasKid' ((bit moved wasKid).trans same)).symm
          apart'
      · exact Option.some.inj (moved.symm.trans moved')
    · rw [if_neg at_] at mem mem'
      exact wf.differ was mem mem' wasKid wasKid' same

/-- From a node to its kid whose prefix the key has. -/
def Step (cells : Cells n Value) (key : BitVec n) (x y : Handle) : Prop :=
  ∃ c d, cells x = some c ∧ y ∈ c.kids ∧ cells y = some d ∧ Agree d.width d.key key

abbrev Path (cells : Cells n Value) (key : BitVec n) : Handle → Handle → Prop :=
  Relation.ReflTransGen (Step cells key)

variable {key : BitVec n}

theorem step_unique (wf : Wf cells) : Relator.RightUnique (Step cells key) := by
  rintro x y z ⟨c, d, here, mem, below, agree⟩ ⟨c', e, here', mem', below', agree'⟩
  cases here.symm.trans here'
  obtain ⟨d', wasKid, -, wider, -⟩ := wf.kid here mem
  cases below.symm.trans wasKid
  obtain ⟨e', wasKid', -, wider', -⟩ := wf.kid here mem'
  cases below'.symm.trans wasKid'
  exact wf.differ here mem mem' below below'
    ((agree c.width wider).trans (agree' c.width wider').symm)

theorem path_of_agree (wf : Wf cells) (here : cells x = some c) (agree : Agree c.width c.key key) :
    Path cells key head x := by
  induction width : c.width using Nat.strongRecOn generalizing x c with
  | ind w ih =>
    by_cases top : x = head
    · subst top
      exact .refl
    · obtain ⟨y, d, -, above, mem⟩ := wf.parent here top
      obtain ⟨c', here', -, wider, prefix_⟩ := wf.kid above mem
      cases here.symm.trans here'
      have agree' : Agree d.width d.key key := prefix_.trans (agree.mono (Nat.le_of_lt wider))
      exact (ih d.width (width ▸ wider) above agree' rfl).tail ⟨d, c, above, mem, here, agree⟩

theorem width_le_of_path (wf : Wf cells) (path : Path cells key x y) (here : cells x = some c)
    (there : cells y = some d) : x = y ∨ c.width < d.width := by
  induction path generalizing d with
  | refl => exact .inl rfl
  | tail _ step ih =>
    obtain ⟨b, e, above, mem, below, -⟩ := step
    obtain ⟨e', below', -, wider, -⟩ := wf.kid above mem
    cases below.symm.trans below'
    cases below.symm.trans there
    rcases ih above with rfl | less
    · cases here.symm.trans above
      exact .inr wider
    · exact .inr (Nat.lt_trans less wider)

theorem path_of_le (wf : Wf cells) (here : cells x = some c) (there : cells y = some d)
    (agree : Agree c.width c.key key) (agree' : Agree d.width d.key key) (le : c.width ≤ d.width) :
    Path cells key x y := by
  rcases Relation.ReflTransGen.total_of_right_unique (step_unique wf) (path_of_agree wf here agree)
    (path_of_agree wf there agree') with path | path
  · exact path
  · rcases width_le_of_path wf path there here with rfl | less
    · exact .refl
    · exact absurd le (Nat.not_le_of_lt less)

theorem eq_of_same_prefix (wf : Wf cells) (here : cells x = some c) (there : cells y = some d)
    (width : c.width = d.width) (agree : Agree c.width c.key d.key) : x = y := by
  have path := path_of_le wf here there agree (Agree.refl d.width d.key) (Nat.le_of_eq width)
  rcases width_le_of_path wf path here there with eq | less
  · exact eq
  · exact absurd width (Nat.ne_of_lt less)

theorem kids_cases (wf : Wf cells) (here : cells x = some c) :
    c.kids = [] ∨ (∃ y, c.kids = [y]) ∨ ∃ y z, c.kids = [y, z] := by
  match eq : c.kids with
  | [] => exact .inl rfl
  | [y] => exact .inr (.inl ⟨y, rfl⟩)
  | [y, z] => exact .inr (.inr ⟨y, z, rfl⟩)
  | y :: z :: w :: rest =>
    exfalso
    have nodup := wf.nodup here
    have first : y ∈ c.kids := by rw [eq]; exact List.mem_cons_self
    have second : z ∈ c.kids := by rw [eq]; exact List.mem_cons_of_mem _ List.mem_cons_self
    have third : w ∈ c.kids := by simp [eq]
    obtain ⟨a, isA, -⟩ := wf.kid here first
    obtain ⟨b, isB, -⟩ := wf.kid here second
    obtain ⟨e, isE, -⟩ := wf.kid here third
    have yz : y ≠ z := by grind
    have yw : y ≠ w := by grind
    have zw : z ≠ w := by grind
    -- of three bits two are equal
    have one := Bool.eq_not.mpr (mt (wf.differ here first second isA isB) yz)
    have two := Bool.eq_not.mpr (mt (wf.differ here first third isA isE) yw)
    exact mt (wf.differ here second third isB isE) zw (Bool.not_inj (one.symm.trans two))

end Gem5.Base.Trie

namespace Gem5.Base.Trie

open Prefixes

variable {n : Nat} {Value : Type} {t : Trie n Value} {cells : Cells n Value} {x y z : Handle}
  {c d e : Cell n Value} {key : BitVec n} {w fuel : Nat}

/-- The cells are allocated nodes. -/
structure Holds (t : Trie n Value) (cells : Cells n Value) : Prop where
  node : ∀ {x c}, cells x = some c → t.nodes x = some c.node
  bound : ∀ {x c}, cells x = some c → x < t.next

theorem matchesKey_iff (wf : Wf cells) (here : cells x = some c) (key : BitVec n) :
    c.node.matchesKey key = true ↔ Agree c.width c.key key := by
  obtain ⟨bound, masked⟩ := wf.format here
  exact beq_iff_eq.trans (and_mask_eq_left_iff bound masked)

theorem nextKid_first {nd : Node n Value} {follow : Option Handle → Option (Option Handle)}
    {kid : Handle} (found : follow (nd.kids 0) = some (some kid)) :
    nextKid nd follow = some (some kid) := by
  rw [nextKid, found]
  rfl

theorem nextKid_second {nd : Node n Value} {follow : Option Handle → Option (Option Handle)}
    (missed : follow (nd.kids 0) = some none) : nextKid nd follow = follow (nd.kids 1) := by
  rw [nextKid, missed]
  rfl

theorem nextKid_spec (wf : Wf cells) (holds : Holds t cells) (here : cells x = some c)
    (test : Node n Value → Bool) :
    (∃ y d, y ∈ c.kids ∧ cells y = some d ∧ test d.node = true ∧
      nextKid c.node (t.kidThat test) = some (some y)) ∨
    (∀ y d, y ∈ c.kids → cells y = some d → test d.node = false) ∧
      nextKid c.node (t.kidThat test) = some none := by
  have follow : ∀ {y d}, cells y = some d →
      t.kidThat test (some y) = some (if test d.node then some y else none) := by
    intro y d below
    rw [kidThat, holds.node below]
    rfl
  have nothing : t.kidThat test none = some none := rfl
  rcases kids_cases wf here with eq | ⟨y, eq⟩ | ⟨y, z, eq⟩
  · right
    refine ⟨fun y d mem => ?_, ?_⟩
    · rw [eq] at mem
      cases mem
    · unfold nextKid Cell.node
      rw [eq]
      rfl
  · have mem : y ∈ c.kids := by rw [eq]; exact List.mem_singleton_self y
    obtain ⟨d, below, -⟩ := wf.kid here mem
    have front : c.node.kids 0 = some y := by
      unfold Cell.node
      rw [eq]
      rfl
    have back : c.node.kids 1 = none := by
      unfold Cell.node
      rw [eq]
      rfl
    cases passes : test d.node with
    | true =>
      refine .inl ⟨y, d, mem, below, passes, nextKid_first ?_⟩
      rw [front, follow below, passes, if_pos rfl]
    | false =>
      have missed : t.kidThat test (c.node.kids 0) = some none := by
        rw [front, follow below, passes, if_neg Bool.false_ne_true]
      rw [nextKid_second missed, back, nothing]
      grind
  · have first : y ∈ c.kids := by rw [eq]; exact List.mem_cons_self
    have second : z ∈ c.kids := by rw [eq]; exact List.mem_cons_of_mem _ (List.mem_singleton_self z)
    obtain ⟨d, below, -⟩ := wf.kid here first
    obtain ⟨e, below', -⟩ := wf.kid here second
    have front : c.node.kids 0 = some y := by
      unfold Cell.node
      rw [eq]
      rfl
    have back : c.node.kids 1 = some z := by
      unfold Cell.node
      rw [eq]
      rfl
    cases passes : test d.node with
    | true =>
      refine .inl ⟨y, d, first, below, passes, nextKid_first ?_⟩
      rw [front, follow below, passes, if_pos rfl]
    | false =>
      have missed : t.kidThat test (c.node.kids 0) = some none := by
        rw [front, follow below, passes, if_neg Bool.false_ne_true]
      rw [nextKid_second missed, back, follow below']
      grind

theorem walk_spec (wf : Wf cells) (holds : Holds t cells) (bound : w ≤ n) (here : cells x = some c)
    (enough : n < fuel + c.width) (agree : Agree c.width c.key key) (le : c.width ≤ w) :
    ∃ y d, t.walk key (Prefixes.mask n w) fuel x = some y ∧ cells y = some d ∧ Agree d.width d.key key ∧
      d.width ≤ w ∧
        ∀ z e, z ∈ d.kids → cells z = some e → Agree e.width e.key key → w < e.width := by
  induction fuel generalizing x c with
  | zero => exact absurd (wf.format here).1 (by omega)
  | succ fuel ih =>
    have test : ∀ {y d}, cells y = some d →
        ((d.node.matchesKey key && (d.node.mask &&& Prefixes.mask n w == d.node.mask)) = true ↔
          Agree d.width d.key key ∧ d.width ≤ w) := by
      intro y d below
      rw [Bool.and_eq_true, matchesKey_iff wf below, beq_iff_eq]
      exact and_congr_right fun _ => mask_and_mask_iff (wf.format below).1 bound
    rw [walk, holds.node here, Option.bind_eq_bind, Option.bind_some]
    rcases nextKid_spec wf holds here
        (fun nd => nd.matchesKey key && (nd.mask &&& Prefixes.mask n w == nd.mask)) with
      ⟨y, d, mem, below, passes, next⟩ | ⟨none, next⟩
    · obtain ⟨agree', le'⟩ := (test below).mp passes
      obtain ⟨d', below', -, wider, -⟩ := wf.kid here mem
      cases below.symm.trans below'
      unfold goesAfter
      rw [next]
      exact ih below (by omega) agree' le'
    · unfold goesAfter
      rw [next]
      refine ⟨x, c, rfl, here, agree, le, fun z e mem below agree' => ?_⟩
      by_contra less
      have passes := (test below).mpr ⟨agree', by omega⟩
      rw [none z e mem below] at passes
      cases passes

/-- What a lookup finds: the shortest prefix of the key that has a value. -/
def Finds (cells : Cells n Value) (key : BitVec n) : Option Handle → Prop
  | some y => ∃ d, cells y = some d ∧ d.value ≠ none ∧ Agree d.width d.key key ∧
      ∀ z e, cells z = some e → e.value ≠ none → Agree e.width e.key key → d.width ≤ e.width
  | none => ∀ z e, cells z = some e → e.value ≠ none → ¬Agree e.width e.key key

theorem lookupFrom_spec (wf : Wf cells) (holds : Holds t cells) (here : cells x = some c)
    (enough : n < fuel + c.width) (agree : Agree c.width c.key key) (ahead : ∀ z e, cells z = some e
    → e.value ≠ none → Agree e.width e.key key → Path cells key x z) :
    ∃ found, t.lookupFrom key fuel x = some found ∧ Finds cells key found := by
  induction fuel generalizing x c with
  | zero => exact absurd (wf.format here).1 (by omega)
  | succ fuel ih =>
    have round : t.lookupFrom key (fuel + 1) x = if c.value.isSome then some (some x)
        else (nextKid c.node (t.kidThat (·.matchesKey key))).bind fun next =>
          match next with
          | some kid => t.lookupFrom key fuel kid
          | none => some none := by
      rw [lookupFrom, holds.node here]
      rfl
    rw [round]
    by_cases value : c.value.isSome = true
    · rw [if_pos value]
      refine ⟨some x, rfl, c, here, Option.isSome_iff_ne_none.mp value, agree, ?_⟩
      intro z e there some_ agree'
      rcases width_le_of_path wf (ahead z e there some_ agree') here there with rfl | less
      · grind
      · exact Nat.le_of_lt less
    · rw [if_neg value]
      -- a node with a value is not this one, so that the way to it leads to a kid
      have onward : ∀ z e, cells z = some e → e.value ≠ none → Agree e.width e.key key →
          ∃ y, Step cells key x y ∧ Path cells key y z := by
        intro z e there some_ agree'
        rcases (ahead z e there some_ agree').cases_head with rfl | ⟨y, step, path⟩
        · simp_all
        · exact ⟨y, step, path⟩
      rcases nextKid_spec wf holds here (·.matchesKey key) with
        ⟨y, d, mem, below, passes, next⟩ | ⟨nowhere, next⟩
      · rw [next]
        have agree' := (matchesKey_iff wf below key).mp passes
        obtain ⟨d', below', -, wider, -⟩ := wf.kid here mem
        cases below.symm.trans below'
        apply ih below (by omega) agree'
        intro z e there some_ agreeZ
        obtain ⟨y', step, path⟩ := onward z e there some_ agreeZ
        cases step_unique wf step ⟨c, d, here, mem, below, agree'⟩
        exact path
      · rw [next]
        refine ⟨none, rfl, fun z e there some_ agree' => ?_⟩
        obtain ⟨y, ⟨c', d, here', mem, below, agreeY⟩, -⟩ := onward z e there some_ agree'
        cases here.symm.trans here'
        have passes := (matchesKey_iff wf below key).mpr agreeY
        rw [nowhere y d mem below] at passes
        cases passes

theorem lookupHandle_spec (wf : Wf cells) (holds : Holds t cells) (enough : n < fuel)
    (key : BitVec n) : ∃ found, t.lookupHandle fuel key = some found ∧ Finds cells key found := by
  obtain ⟨r, root, width, -⟩ := wf.root
  have agree : Agree r.width r.key key := by
    rw [width]
    exact fun i lt => absurd lt (Nat.not_lt_zero i)
  exact lookupFrom_spec wf holds root (by omega) agree fun z e there _ agree' =>
    path_of_agree wf there agree'

end Gem5.Base.Trie
