import Gem5.Base.TrieInsert

/-!
# Removal from a trie

A node that makes way for its kid, if it has one, leaves the trie in shape, and at most one node
above it has to go with it.
-/

namespace Gem5.Base.Trie

open Prefixes

variable {n : Nat} {Value : Type} {t t' : Trie n Value} {cells : Cells n Value}
  {p x y z : Handle} {b c d e : Cell n Value} {kid : Option Handle} {fuel : Nat}

/-- The kids of a node after one of them made way for its own kid, if any. -/
def spliced (kids : List Handle) (x : Handle) (kid : Option Handle) : List Handle :=
  kids.flatMap fun z => if z = x then kid.toList else [z]

theorem mem_spliced_iff {kids : List Handle} (mem : x ∈ kids) (z : Handle) :
    z ∈ spliced kids x kid ↔ z ∈ kids ∧ z ≠ x ∨ kid = some z := by
  rw [spliced, List.mem_flatMap]
  constructor
  · grind
  · grind

theorem kids_with (wf : Wf cells) (here : cells p = some b) (mem : x ∈ b.kids) :
    b.kids = [x] ∨ ∃ z, z ≠ x ∧ (b.kids = [x, z] ∨ b.kids = [z, x]) := by
  have nodup := wf.nodup here
  rcases kids_cases wf here with eq | ⟨y, eq⟩ | ⟨y, z, eq⟩
  · rw [eq] at mem
    cases mem
  · grind
  · grind

theorem wf_splice (kid : Option Handle) (wf : Wf cells) (above : cells p = some b) (mem : x ∈ b.kids)
    (here : cells x = some c) (down : c.kids = kid.toList) :
    Wf (removeNode cells p x kid (spliced b.kids x kid)) := by
  apply wf_removeNode wf above here mem down (mem_spliced_iff mem)
  have apart : ∀ k, kid = some k → k ∉ b.kids := by
    rintro k rfl mem'
    have moves : k ∈ c.kids := by rw [down]; exact List.mem_singleton_self k
    exact wf.ne_of_kid above mem (wf.unique_parent here above moves mem')
  rcases kids_with wf above mem with eq | ⟨z, ne, eq | eq⟩
  · cases kid <;> simp [spliced, eq]
  · cases kid with
    | none => simp [spliced, eq, ne]
    | some k =>
      have other := apart k rfl
      rw [eq, List.mem_cons, List.mem_singleton, not_or] at other
      simp [spliced, eq, ne, other.2]
  · cases kid with
    | none => simp [spliced, eq, ne]
    | some k =>
      have other := apart k rfl
      rw [eq, List.mem_cons, List.mem_singleton, not_or] at other
      simp [spliced, eq, ne, Ne.symm other.1]

theorem onlyKidFirst_setKid (wf : Wf cells) (above : cells p = some b) (mem : x ∈ b.kids)
    (kid : Option Handle) :
    ∃ i : Fin 2, b.node.kids i = some x ∧ (i = 0 ∨ i = 1 ∧ b.node.kids 0 ≠ some x) ∧
      (b.node.setKid i kid).onlyKidFirst = { b with kids := spliced b.kids x kid }.node := by
  rcases kids_with wf above mem with eq | ⟨z, apart, eq | eq⟩
  · refine ⟨0, by rw [Cell.node, eq]; rfl, .inl rfl, ?_⟩
    cases kid <;>
      simp [Node.onlyKidFirst, Node.setKid, Cell.node, spliced, eq, funext_iff]
  · refine ⟨0, by rw [Cell.node, eq]; rfl, .inl rfl, ?_⟩
    cases kid <;>
      simp [Node.onlyKidFirst, Node.setKid, Cell.node, spliced, eq, funext_iff, apart]
  · have first : b.node.kids 0 = some z := by rw [Cell.node, eq]; rfl
    refine ⟨1, by rw [Cell.node, eq]; rfl, .inr ⟨rfl, ?_⟩, ?_⟩
    · grind
    · cases kid <;>
        simp [Node.onlyKidFirst, Node.setKid, Cell.node, spliced, eq, funext_iff, apart]

theorem replaceKid_spec (wf : Wf cells) (above : cells p = some b) (mem : x ∈ b.kids)
    (read : t.nodes p = some b.node) (kid : Option Handle) :
    ∃ t', ((t.replaceKid p x kid).bind fun t₁ => t₁.modify p Node.onlyKidFirst) = some t' ∧
      t'.nodes = Function.update t.nodes p (some { b with kids := spliced b.kids x kid }.node) ∧
      t'.next = t.next := by
  obtain ⟨i, slot, order, result⟩ := onlyKidFirst_setKid wf above mem kid
  have replaced : t.replaceKid p x kid = t.modify p (Node.setKid i kid) := by
    rw [replaceKid, read]
    rcases order with rfl | ⟨rfl, other⟩
    · exact if_pos slot
    · exact (if_neg other).trans (if_pos slot)
  rw [replaced, modify_eq read, Option.bind_some, modify_eq (Function.update_self _ _ _)]
  refine ⟨_, rfl, ?_, rfl⟩
  rw [Function.update_idem, result]

theorem ne_of_grandkid (wf : Wf cells) (above : cells p = some b) (mem : x ∈ b.kids)
    (here : cells x = some c) (mem' : y ∈ c.kids) : y ≠ p := by
  rintro rfl
  obtain ⟨e, isKid, -, wider, -⟩ := wf.kid here mem'
  obtain ⟨c', here', -, wider', -⟩ := wf.kid above mem
  cases here.symm.trans here'
  cases isKid.symm.trans above
  exact Nat.lt_asymm wider wider'

theorem unlink_spec (kid : Option Handle) (wf : Wf cells) (holds : Holds t cells)
    (above : cells p = some b) (mem : x ∈ b.kids) (here : cells x = some c) (down : c.kids = kid.toList) :
    ∃ t', t.unlink p x kid = some t' ∧
      (∀ z, z ≠ p → kid ≠ some z → t'.nodes z = t.nodes z) ∧
      t'.nodes p = some { b with kids := spliced b.kids x kid }.node ∧
      Holds t' (removeNode cells p x kid (spliced b.kids x kid)) := by
  have moves : ∀ {k}, kid = some k → k ∈ c.kids := by simp [down]
  -- after the kid, if any, got its new parent
  have moved : ∃ t₁, t.fixParent kid p = some t₁ ∧ t₁.next = t.next ∧
      (∀ k e, kid = some k → cells k = some e → t₁.nodes k = some { e with parent := some p }.node) ∧
      ∀ z, kid ≠ some z → t₁.nodes z = t.nodes z := by
    cases kid with
    | none => exact ⟨t, rfl, rfl, (fun k e eq => by cases eq), fun z _ => rfl⟩
    | some =>
      obtain ⟨e, isKid, -⟩ := wf.kid here (moves rfl)
      refine ⟨_, modify_eq (holds.node isKid) _, rfl, fun k' e' eq isKid' => ?_, fun z ne => ?_⟩
      · aesop
      · exact Function.update_of_ne (fun eq => ne (congrArg some eq.symm)) _ _
  obtain ⟨t₁, reparented, next₁, atKid, others⟩ := moved
  have notKid : ∀ k, kid = some k → k ≠ p := by
    intro k isOne
    exact ne_of_grandkid wf above mem here (moves isOne)
  have read : t₁.nodes p = some b.node :=
    (others p fun eq => notKid p eq rfl).trans (holds.node above)
  obtain ⟨t', replaced, nodes, next⟩ := replaceKid_spec wf above mem read kid
  have unlinked : t.unlink p x kid = some t' := by grind [unlink]
  refine ⟨t', unlinked, ?_, ?_, ?_⟩
  · simp_all
  · rw [nodes, Function.update_self]
  · constructor
    · intro z e h
      rcases (put_eq_some_iff _ _).mp h with ⟨-, none⟩ | ⟨other, h⟩
      · cases none
      · refine holds_relink holds above notKid ?_ ?_ ?_ other h
        · rw [nodes, Function.update_self]
        · simp_all
        · simp_all
    · intro z e h
      rw [next, next₁]
      rcases (put_eq_some_iff _ _).mp h with ⟨-, none⟩ | ⟨-, h⟩
      · cases none
      · obtain ⟨e', was, -⟩ := relink_eq_some_iff.mp h
        exact holds.bound was

theorem full_removeNode {loose loose' : Option Handle} (full : Full cells loose)
    (above : cells p = some b) {kids : List Handle}
    (node : loose' ≠ some p → p ≠ head → b.value ≠ none ∨ 2 ≤ kids.length)
    (others : ∀ z, z ≠ p → z ≠ x → loose' ≠ some z → loose ≠ some z) :
    Full (removeNode cells p x kid kids) loose' := by
  intro z e h out kept
  rcases (put_eq_some_iff _ _).mp h with ⟨_, none⟩ | ⟨other, h⟩
  · cases none
  · obtain ⟨e', was, rfl⟩ := relink_eq_some_iff.mp h
    by_cases at_ : z = p
    · grind
    · aesop

theorem entries_removeNode (cells : Cells n Value) (p x : Handle) (kid : Option Handle)
    (kids : List Handle) :
    entries (removeNode cells p x kid kids) = Function.update (entries cells) x none := by
  rw [removeNode, entries_put, entries_relink]
  rfl

theorem removeNode_none (other : z ≠ x) (none_ : cells z = none) (kids : List Handle) :
    removeNode cells p x kid kids z = none := by
  rw [removeNode, put_of_ne _ _ other, relink, none_]
  rfl

theorem removeNode_above (above : cells p = some b) (other : p ≠ x) (notKid : kid ≠ some p)
    (kids : List Handle) : removeNode cells p x kid kids p = some { b with kids := kids } := by
  rw [removeNode, put_of_ne _ _ other, relink, above, Option.map_some, if_neg notKid, if_pos rfl]

theorem delete_spec (holds : Holds t cells) (gone : cells x = none) {nd : Node n Value}
    (read : t.nodes x = some nd) :
    ∃ t', t.delete x = some t' ∧ Holds t' cells ∧ ∀ z, z ≠ x → t'.nodes z = t.nodes z := by
  have deleted : t.delete x = some { t with nodes := Function.update t.nodes x none } := by
    rw [delete, read]
    rfl
  refine ⟨_, deleted, ⟨fun {z e} h => ?_, fun h => holds.bound h⟩, fun z other =>
    Function.update_of_ne other _ _⟩
  have other : z ≠ x := by grind
  exact (Function.update_of_ne other _ _).trans (holds.node h)

theorem remove_eq (fuel : Nat) (kid : Option Handle) (holds : Holds t cells)
    (here : cells x = some c) (down : c.kids = kid.toList) (up : c.parent = some p) :
    t.remove (fuel + 1) x = (t.unlink p x kid).bind fun t₁ => (t₁.nodes p).bind fun pd =>
      (if pd.kids 1 = none ∧ pd.value = none ∧ pd.parent.isSome then
        (t₁.remove fuel p).map Prod.fst
      else some t₁).bind fun t₂ => (t₂.delete x).map fun t₃ => (t₃, c.value) := by
  have first : c.node.kids 0 = kid := by
    rw [Cell.node, down]
    cases kid <;> rfl
  have second : c.node.kids 1 = none := by
    rw [Cell.node, down]
    cases kid <;> rfl
  change (t.nodes x).bind _ = _
  rw [holds.node here, Option.bind_some, second, first]
  change (c.parent.bind _) = _
  rw [up, Option.bind_some]
  simp only [Option.map_eq_bind]
  refine congrArg (Option.bind _) (funext fun t₁ => congrArg (Option.bind _) (funext fun pd => ?_))
  by_cases unneeded : pd.kids 1 = none ∧ pd.value = none ∧ pd.parent.isSome
  · rw [if_pos unneeded, if_pos unneeded]
    rfl
  · rw [if_neg unneeded, if_neg unneeded]
    rfl

/-- The trie is left without an entry. -/
def Removes (cells : Cells n Value) (x : Handle) (t' : Trie n Value) : Prop :=
  ∃ cells', Rep t' cells' ∧ entries cells' = Function.update (entries cells) x none

theorem unneeded_iff (wf : Wf cells) (here : cells x = some c) :
    (c.node.kids 1 = none ∧ c.node.value = none ∧ c.node.parent.isSome) ↔
      c.kids.length < 2 ∧ c.value = none ∧ x ≠ head := by
  have slot : c.node.kids 1 = none ↔ c.kids.length < 2 :=
    List.getElem?_eq_none_iff.trans Nat.lt_succ_iff.symm
  have root : c.node.parent.isSome = true ↔ x ≠ head := by
    constructor
    · rintro some_ rfl
      obtain ⟨r, root, -, -, none⟩ := wf.root
      cases here.symm.trans root
      rw [Cell.node, none] at some_
      cases some_
    · intro out
      obtain ⟨p, b, up, -⟩ := wf.parent here out
      rw [Cell.node, up]
      rfl
  rw [slot, root]
  rfl

theorem remove_single (fuel : Nat) (wf : Wf cells) (full : Full cells (some x))
    (holds : Holds t cells) (here : cells x = some c) (out : x ≠ head) (down : c.kids = [y]) :
    ∃ t' cells', t.remove (fuel + 1) x = some (t', c.value) ∧ Rep t' cells' ∧
      entries cells' = Function.update (entries cells) x none ∧
      ∀ z, cells z = none → t'.nodes z = t.nodes z ∧ cells' z = none := by
  obtain ⟨p, b, up, above, mem⟩ := wf.parent here out
  obtain ⟨t₁, unlinked, others, at_, holds₁⟩ :=
    unlink_spec (some y) wf holds above mem here down
  have apart := wf.ne_of_kid above mem
  have lower : y ∈ c.kids := by rw [down]; exact List.mem_singleton_self y
  have grandkid := ne_of_grandkid wf above mem here lower
  have length : (spliced b.kids x (some y)).length = b.kids.length := by
    rcases kids_with wf above mem with eq | ⟨z, ne, eq | eq⟩
    · simp [spliced, eq]
    · simp [spliced, eq, ne]
    · simp [spliced, eq, ne]
  have full₁ : Full (removeNode cells p x (some y) (spliced b.kids x (some y))) none := by
    apply full_removeNode full above
    · aesop
    · exact fun z _ other _ eq => other (Option.some.inj eq).symm
  have wf₁ := wf_splice (some y) wf above mem here down
  have gone : removeNode cells p x (some y) (spliced b.kids x (some y)) x = none := put_self _ _ _
  have at₁ : removeNode cells p x (some y) (spliced b.kids x (some y)) p =
      some { b with kids := spliced b.kids x (some y) } :=
    removeNode_above above apart.symm (fun eq => grandkid (Option.some.inj eq)) _
  have needed := mt (unneeded_iff wf₁ at₁).mp fun ⟨one, none_, out'⟩ =>
    (full₁ p _ at₁ out' (Option.some_ne_none _).symm).elim (fun some_ => some_ none_)
      (Nat.not_le_of_lt one)
  obtain ⟨t', deleted, holds', others'⟩ := delete_spec holds₁ gone
    ((others x apart fun eq => wf.ne_of_kid here lower (Option.some.inj eq)).trans (holds.node here))
  refine ⟨t', _, ?_, ⟨wf₁, full₁, holds'⟩, entries_removeNode cells p x _ _, ?_⟩
  · rw [remove_eq fuel (some y) holds here down up, unlinked, Option.bind_some, at_,
      Option.bind_some, if_neg needed, Option.bind_some, deleted]
    rfl
  · intro z none_
    have dead : ∀ {w e}, cells w = some e → z ≠ w := by grind
    obtain ⟨e, isKid, -⟩ := wf.kid here lower
    refine ⟨(others' z (dead here)).trans (others z (dead above) fun eq => ?_),
      removeNode_none (dead here) none_ _⟩
    exact dead isKid (Option.some.inj eq).symm

theorem entries_of_live (here : cells x = some c) : entries cells x = c.entry := by
  rw [entries, here]
  rfl

theorem remove_leaf (rep : Rep t cells) (here : cells x = some c) (out : x ≠ head)
    (down : c.kids = []) :
    ∃ t', t.remove (fuel + 2) x = some (t', c.value) ∧ Removes cells x t' := by
  obtain ⟨wf, full, holds⟩ := rep
  obtain ⟨p, b, up, above, mem⟩ := wf.parent here out
  obtain ⟨t₁, unlinked, others, at_, holds₁⟩ :=
    unlink_spec none wf holds above mem here down
  have apart := wf.ne_of_kid above mem
  have wf₁ := wf_splice none wf above mem here down
  have gone : removeNode cells p x none (spliced b.kids x none) x = none := put_self _ _ _
  have at₁ : removeNode cells p x none (spliced b.kids x none) p =
      some { b with kids := spliced b.kids x none } :=
    removeNode_above above apart.symm (Option.some_ne_none _).symm _
  have still : t₁.nodes x = some c.node :=
    (others x apart (Option.some_ne_none _).symm).trans (holds.node here)
  have removed := remove_eq (fuel + 1) none holds here down up
  rw [unlinked, Option.bind_some, at_, Option.bind_some] at removed
  by_cases unneeded : (spliced b.kids x none).length < 2 ∧ b.value = none ∧ p ≠ head
  · obtain ⟨one, none_, out'⟩ := unneeded
    rw [if_pos ((unneeded_iff wf₁ at₁).mpr ⟨one, none_, out'⟩)] at removed
    -- without a value the parent had two kids
    have two := (full p b above out' (Option.some_ne_none _).symm).resolve_left fun some_ =>
      some_ none_
    obtain ⟨s, only⟩ : ∃ s, spliced b.kids x none = [s] := by
      rcases kids_with wf above mem with eq | ⟨z, ne, eq | eq⟩
      · grind
      · exact ⟨z, by simp [spliced, eq, ne]⟩
      · exact ⟨z, by simp [spliced, eq, ne]⟩
    have full₁ : Full (removeNode cells p x none (spliced b.kids x none)) (some p) := by
      apply full_removeNode full above
      · exact fun kept => absurd rfl kept
      · exact fun _ _ _ _ => (Option.some_ne_none _).symm
    obtain ⟨t₂, cells₂, inner, rep₂, entries₂, frame⟩ :=
      remove_single fuel wf₁ full₁ holds₁ at₁ out' only
    obtain ⟨still₂, gone₂⟩ := frame x gone
    obtain ⟨t₃, deleted, holds₃, -⟩ := delete_spec rep₂.holds gone₂ (still₂.trans still)
    rw [inner, Option.map_some, Option.bind_some, deleted] at removed
    refine ⟨t₃, removed, cells₂, ⟨rep₂.wf, rep₂.full, holds₃⟩, ?_⟩
    rw [entries₂, entries_removeNode]
    apply Function.update_eq_self_iff.mpr
    rw [Function.update_of_ne apart.symm, entries_of_live above, Cell.entry, none_]
    rfl
  · rw [if_neg (mt (unneeded_iff wf₁ at₁).mp unneeded), Option.bind_some] at removed
    obtain ⟨t₂, deleted, holds₂, -⟩ := delete_spec holds₁ gone still
    rw [deleted] at removed
    refine ⟨t₂, removed, _, ⟨wf₁, ?_, holds₂⟩, entries_removeNode cells p x none _⟩
    apply full_removeNode full above
    · grind
    · exact fun _ _ _ _ => (Option.some_ne_none _).symm

theorem remove_spec (rep : Rep t cells) (enough : 2 ≤ fuel) (here : cells x = some c)
    (value : c.value ≠ none) : ∃ t', t.remove fuel x = some (t', c.value) ∧ Removes cells x t' := by
  obtain ⟨fuel, rfl⟩ : ∃ k, fuel = k + 2 := ⟨fuel - 2, by omega⟩
  have out : x ≠ head := by
    rintro rfl
    obtain ⟨r, root, -, none_, -⟩ := rep.wf.root
    cases here.symm.trans root
    exact value none_
  rcases kids_cases rep.wf here with eq | ⟨y, eq⟩ | ⟨y, z, eq⟩
  · exact remove_leaf rep here out eq
  · have full : Full cells (some x) := fun z e live out' _ =>
      rep.full z e live out' (Option.some_ne_none _).symm
    obtain ⟨t', cells', removed, rep', entries', -⟩ :=
      remove_single (fuel + 1) rep.wf full rep.holds here out eq
    exact ⟨t', removed, cells', rep', entries'⟩
  · obtain ⟨t', set, holds'⟩ := set_value rep.holds here none
    refine ⟨t', ?_, _, ⟨wf_setValue rep.wf here out none, ?_, holds'⟩, ?_⟩
    · have second : c.node.kids 1 = some z := by rw [Cell.node, eq]; rfl
      have stored : c.node.value.isSome = true := Option.isSome_iff_ne_none.mpr value
      change (t.nodes x).bind _ = _
      rw [rep.holds.node here, Option.bind_some, second, Option.isSome_some, if_pos rfl,
        if_pos stored, set]
      rfl
    · intro w e h out' kept
      rcases (put_eq_some_iff _ _).mp h with ⟨rfl, same⟩ | ⟨_, h⟩
      · grind
      · exact rep.full w e h out' kept
    · rw [entries_put]
      rfl

end Gem5.Base.Trie

namespace Gem5.Base.Trie

open Prefixes

variable {n : Nat} {Value : Type} {t t' : Trie n Value} {cells : Cells n Value}
  {x y z : Handle} {c d e : Cell n Value} {fuel : Nat}

/-- The node is this one or below it. -/
def Under (cells : Cells n Value) (c : Cell n Value) (z : Handle) : Prop :=
  ∃ e, cells z = some e ∧ c.width ≤ e.width ∧ Agree c.width c.key e.key

/-- The trie has what the cells say under a node. -/
def HoldsUnder (t : Trie n Value) (cells : Cells n Value) (c : Cell n Value) : Prop :=
  ∀ z e, Under cells c z → cells z = some e → t.nodes z = some e.node

theorem under_of_kid (below : Extends c d) (under : Under cells d z) : Under cells c z := by
  obtain ⟨e, live, wider, agree⟩ := under
  exact ⟨e, live, Nat.le_trans (Nat.le_of_lt below.1) wider,
    below.2.trans (agree.mono (Nat.le_of_lt below.1))⟩

theorem not_under_kid (here : cells x = some c) (below : Extends c d) : ¬Under cells d x := by
  rintro ⟨e, live, wider, -⟩
  cases here.symm.trans live
  exact absurd below.1 (Nat.not_lt_of_le wider)

theorem under_unique (wf : Wf cells) (here : cells x = some c) (mem : y ∈ c.kids)
    (mem' : z ∈ c.kids) (isKid : cells y = some d) (isKid' : cells z = some e) {w : Handle}
    (under : Under cells d w) (under' : Under cells e w) : y = z := by
  obtain ⟨d', live, -, wider, -⟩ := wf.kid here mem
  cases isKid.symm.trans live
  obtain ⟨e', live', -, wider', -⟩ := wf.kid here mem'
  cases isKid'.symm.trans live'
  obtain ⟨b, found, -, agree⟩ := under
  obtain ⟨b', found', -, agree'⟩ := under'
  cases found.symm.trans found'
  exact wf.differ here mem mem' isKid isKid'
    ((agree c.width wider).trans (agree' c.width wider').symm)

/-- What clearing a node does. -/
def Clears (cells : Cells n Value) (clear : Trie n Value → Handle → Option (Trie n Value))
    (x : Handle) (c : Cell n Value) : Prop :=
  ∀ t, HoldsUnder t cells c → ∃ t', clear t x = some t' ∧ t'.next = t.next ∧
    t'.nodes x = some { c with kids := [] }.node ∧ ∀ z, ¬Under cells c z → t'.nodes z = t.nodes z

theorem clearKid_spec (wf : Wf cells) (here : cells x = some c) {i : Fin 2} {nd : Node n Value}
    (read : t.nodes x = some nd) {clear : Trie n Value → Handle → Option (Trie n Value)}
    (kids : ∀ k, nd.kids i = some k → k ∈ c.kids)
    (clears : ∀ k d, nd.kids i = some k → cells k = some d → Clears cells clear k d)
    (holds : ∀ k d, nd.kids i = some k → cells k = some d → HoldsUnder t cells d) :
    ∃ t', clearKid clear t x i = some t' ∧ t'.next = t.next ∧
      t'.nodes x = some (nd.setKid i none) ∧
      ∀ z, z ≠ x → (∀ k d, nd.kids i = some k → cells k = some d → ¬Under cells d z) →
        t'.nodes z = t.nodes z := by
  cases slot : nd.kids i with
  | none =>
    have ran : clearKid clear t x i = some t := by simp [clearKid, read, slot]
    have same : nd.setKid i none = nd := by
      unfold Node.setKid
      rw [← slot, Function.update_eq_self]
    exact ⟨t, ran, rfl, read.trans (congrArg some same.symm), fun _ _ _ => rfl⟩
  | some k =>
    obtain ⟨d, isKid, -, below⟩ := wf.kid here (kids k slot)
    obtain ⟨t₁, cleared, next, atKid, frame⟩ := clears k d slot isKid t (holds k d slot isKid)
    have apart : x ≠ k := (wf.ne_of_kid here (kids k slot)).symm
    have still : (Function.update t₁.nodes k none) x = some nd :=
      (Function.update_of_ne apart _ _).trans ((frame x (not_under_kid here below)).trans read)
    have deleted : t₁.delete k = some { t₁ with nodes := Function.update t₁.nodes k none } := by
      rw [delete, atKid]
      rfl
    have ran : clearKid clear t x i =
        (clear t k).bind fun t => (t.delete k).bind fun t => t.modify x (Node.setKid i none) := by
      rw [clearKid, read, Option.bind_eq_bind, Option.bind_some, slot]
      rfl
    rw [ran, cleared, Option.bind_some, deleted, Option.bind_some, modify_eq still]
    refine ⟨_, rfl, next, Function.update_self _ _ _, fun z other notUnder => ?_⟩
    have notKid : z ≠ k := by
      rintro rfl
      exact notUnder z d rfl isKid ⟨d, isKid, Nat.le_refl _, Agree.refl _ _⟩
    exact (Function.update_of_ne other _ _).trans ((Function.update_of_ne notKid _ _).trans
      (frame z (notUnder k d rfl isKid)))

theorem clearNode_spec (wf : Wf cells) (here : cells x = some c) (enough : n < fuel + c.width) :
    Clears cells (clearNode fuel) x c := by
  induction fuel generalizing x c with
  | zero => exact absurd (wf.format here).1 (by omega)
  | succ fuel ih =>
    intro t holds
    have read := holds x c ⟨c, here, Nat.le_refl _, Agree.refl _ _⟩ here
    have kids : ∀ {i : Fin 2} {k}, c.node.kids i = some k → k ∈ c.kids := fun slot =>
      List.mem_of_getElem? slot
    have clears : ∀ {i : Fin 2} {k d}, c.node.kids i = some k → cells k = some d →
        Clears cells (clearNode fuel) k d := by
      intro i k d slot isKid
      obtain ⟨d', live, -, wider, -⟩ := wf.kid here (kids slot)
      cases isKid.symm.trans live
      exact ih isKid (by omega)
    have holdsKid : ∀ {i : Fin 2} {k d}, c.node.kids i = some k → cells k = some d →
        HoldsUnder t cells d := by
      intro i k d slot isKid z e under live
      obtain ⟨d', isKid', -, below⟩ := wf.kid here (kids slot)
      cases isKid.symm.trans isKid'
      exact holds z e (under_of_kid below under) live
    obtain ⟨t₁, first, next₁, read₁, frame₁⟩ := clearKid_spec (i := 1) wf here read
      (fun k slot => kids slot) (fun k d slot isKid => clears slot isKid)
      fun k d slot isKid => holdsKid slot isKid
    have slot₁ : (c.node.setKid 1 none).kids 0 = c.node.kids 0 := rfl
    obtain ⟨t₂, second, next₂, read₂, frame₂⟩ := clearKid_spec (i := 0) wf here read₁
      (fun k slot => kids (slot₁ ▸ slot)) (fun k d slot isKid => clears (slot₁ ▸ slot) isKid)
      fun k d slot isKid z e under live => by
        obtain ⟨d', isKid', -, below⟩ := wf.kid here (kids slot)
        have other : z ≠ x := by grind [not_under_kid]
        refine (frame₁ z other fun k' d' slot' live' under' => ?_).trans
          (holdsKid slot isKid z e under live)
        have same := under_unique wf here (kids slot) (kids slot') isKid live' under under'
        subst same
        obtain ⟨taken, -⟩ := List.getElem?_eq_some_iff.mp slot
        have index := (List.getElem?_inj taken (wf.nodup here)).mp (slot.trans slot'.symm)
        cases index
    refine ⟨t₂, ?_, next₂.trans next₁, ?_, fun z notUnder => ?_⟩
    · rw [clearNode, first]
      exact second
    · rw [read₂]
      exact congrArg (fun f => some (Node.mk c.key (Prefixes.mask n c.width) c.value c.parent f))
        (funext (Fin.forall_fin_two.mpr ⟨rfl, rfl⟩))
    · have other : z ≠ x := by
        rintro rfl
        exact notUnder ⟨c, here, Nat.le_refl _, Agree.refl _ _⟩
      have notKid : ∀ {i : Fin 2} {k d}, c.node.kids i = some k → cells k = some d →
          ¬Under cells d z := by
        intro i k d slot isKid under
        obtain ⟨d', isKid', -, below⟩ := wf.kid here (kids slot)
        cases isKid.symm.trans isKid'
        exact notUnder (under_of_kid below under)
      exact (frame₂ z other fun k d slot isKid => notKid (slot₁ ▸ slot) isKid).trans
        (frame₁ z other fun k d slot isKid => notKid slot isKid)

theorem rep_root (root : t.nodes head = some c.node) (bound : head < t.next) (width : c.width = 0)
    (masked : c.key &&& Prefixes.mask n c.width = c.key) (value : c.value = none) (up : c.parent = none)
    (kids : c.kids = []) : Rep t (put (fun _ => none) head (some c)) := by
  have only : ∀ {z e}, put (fun _ => none) head (some c) z = some e → z = head ∧ e = c := by
    intro z e h
    rcases (put_eq_some_iff _ _).mp h with ⟨at_, eq⟩ | ⟨_, h⟩
    · exact ⟨at_, (Option.some.inj eq).symm⟩
    · cases h
  refine ⟨?_, fun z e h out => absurd (only h).1 out, fun h => ?_, fun h => ?_⟩
  · constructor
    · exact ⟨c, put_self _ _ _, width, value, up⟩
    · grind
    · grind
    · intro z e h out
      exact absurd (only h).1 out
    · grind
    · grind
  · obtain ⟨rfl, rfl⟩ := only h
    exact root
  · obtain ⟨rfl, -⟩ := only h
    exact bound

theorem entries_root (value : c.value = none) :
    entries (put (fun _ => none) head (some c)) = fun _ => none := by
  rw [entries_put, Option.bind_some, Cell.entry, value]
  exact Function.update_eq_self_iff.mpr rfl

theorem clear_spec (rep : Rep t cells) (enough : n < fuel) :
    ∃ t' cells', t.clear fuel = some t' ∧ Rep t' cells' ∧ entries cells' = fun _ => none := by
  obtain ⟨r, root, width, value, up⟩ := rep.wf.root
  obtain ⟨t', cleared, next, read, -⟩ := clearNode_spec rep.wf root
    (show n < fuel + r.width by omega) t fun z e _ live => rep.holds.node live
  refine ⟨t', _, cleared, rep_root read ?_ width (rep.wf.format root).2 value up rfl,
    entries_root value⟩
  rw [next]
  exact rep.holds.bound root

end Gem5.Base.Trie
