import Gem5.Base.TrieShape

/-!
# Insertion into a trie

The handles that are in use and their prefixes and values, and what an insertion does to them.
-/

namespace Gem5.Base.Trie

open Prefixes List Function Option BitVec Bool

variable {kid : Option Handle} {kids : List Handle} {i : Fin 2}

variable {n : Nat} {Value : Type} {t t' : Trie n Value} {cells : Cells n Value} {x y z : Handle}
  {c d e : Cell n Value} {key : BitVec n} {v w fuel : Nat}

structure Entry (n : Nat) (Value : Type) where
  key : BitVec n
  width : Nat
  value : Value

abbrev Entries (n : Nat) (Value : Type) := Handle → Option (Entry n Value)

def Cell.entry (c : Cell n Value) : Option (Entry n Value) :=
  c.value.map fun v => ⟨c.key, c.width, v⟩

def entries (cells : Cells n Value) : Entries n Value := fun x => (cells x).bind Cell.entry

theorem entries_put (cells : Cells n Value) (x : Handle) (c : Option (Cell n Value)) :
    entries (put cells x c) = Function.update (entries cells) x (c.bind Cell.entry) := by
  funext y
  by_cases same : y = x
  · subst same
    rw [entries, put_self, update_self]
  · rw [entries, put_of_ne _ _ same, update_of_ne same]
    rfl

theorem entries_relink (cells : Cells n Value) (kid : Option Handle) (p x : Handle)
    (kids : List Handle) : entries (relink cells kid p x kids) = entries cells := by
  funext y
  unfold entries relink
  cases cells y <;> rfl

theorem modify_eq {nd : Node n Value} (h : t.nodes x = some nd) (f : Node n Value → Node n Value) :
    t.modify x f = some { t with nodes := Function.update t.nodes x (some (f nd)) } := by
  rw [modify, h]
  rfl

theorem holds_relink (holds : Holds t cells) (here : cells x = some c) {p : Handle} (isKid : ∀ k, kid = some k → k ≠ x)
    (atNode : t'.nodes x = some { c with kids := kids }.node)
    (atKid : ∀ k b, kid = some k → cells k = some b →
      t'.nodes k = some { b with parent := some p }.node)
    (others : ∀ z, z ≠ x → z ≠ y → kid ≠ some z → t'.nodes z = t.nodes z) (other : z ≠ y)
    (h : relink cells kid p x kids z = some e) : t'.nodes z = some e.node := by
  obtain ⟨b, was, rfl⟩ := relink_eq_some_iff.mp h
  by_cases at_ : z = x
  · grind
  · rw [if_neg at_]
    by_cases moved : kid = some z
    · rw [if_pos moved]
      exact atKid z b moved was
    · rw [if_neg moved]
      exact (others z at_ other moved).trans (holds.node was)

theorem holds_insertNode (holds : Holds t cells) (here : cells x = some c) (isKid : ∀ k, kid = some k → k ≠ x)
    (atNode : t'.nodes x = some { c with kids := kids }.node) (atNew : t'.nodes t.next = some d.node)
    (atKid : ∀ k b, kid = some k → cells k = some b →
      t'.nodes k = some { b with parent := some t.next }.node)
    (others : ∀ z, z ≠ x → z ≠ t.next → kid ≠ some z → t'.nodes z = t.nodes z)
    (next : t'.next = t.next + 1) : Holds t' (insertNode cells x t.next d kid kids) := by
  constructor
  · intro z e h
    rcases (put_eq_some_iff _ _).mp h with ⟨rfl, eq⟩ | ⟨other, h⟩
    · cases eq
      exact atNew
    · exact holds_relink holds here isKid atNode atKid others other h
  · intro z e h
    rw [next]
    rcases (put_eq_some_iff _ _).mp h with ⟨rfl, eq⟩ | ⟨other, h⟩
    · exact Nat.lt_succ_self _
    · obtain ⟨b, was, -⟩ := relink_eq_some_iff.mp h
      exact Nat.lt_succ_of_lt (holds.bound was)

theorem Holds.fresh (holds : Holds t cells) : cells t.next = none := by
  cases h : cells t.next with
  | none => rfl
  | some => exact absurd (holds.bound h) (Nat.lt_irrefl _)

theorem node_append_kid (c : Cell n Value) (free : (i : Nat) = c.kids.length)
    (y : Handle) : c.node.setKid i (some y) = { c with kids := c.kids ++ [y] }.node := by
  have kids : Function.update (fun j : Fin 2 => c.kids[j]?) i (some y) =
      fun j : Fin 2 => (c.kids ++ [y])[j]? := by
    funext j
    by_cases same : j = i
    · grind
    · grind
  exact congrArg (Node.mk c.key (Prefixes.mask n c.width) c.value c.parent) kids

theorem node_set_kid (c : Cell n Value) (taken : (i : Nat) < c.kids.length)
    (y : Handle) : c.node.setKid i (some y) = { c with kids := c.kids.set i y }.node := by
  have kids : Function.update (fun j : Fin 2 => c.kids[j]?) i (some y) =
      fun j : Fin 2 => (c.kids.set i y)[j]? := by
    funext j
    by_cases same : j = i
    · grind
    · grind
  exact congrArg (Node.mk c.key (Prefixes.mask n c.width) c.value c.parent) kids

theorem new_setParent (key : BitVec n) (w : Nat) (val : Option Value) (x : Handle) :
    (Node.new key (Prefixes.mask n w) val).setParent (some x) =
      Cell.node ⟨key &&& Prefixes.mask n w, w, val, some x, []⟩ := rfl

theorem attach_leaf (holds : Holds t cells) (here : cells x = some c)
    (free : (i : Nat) = c.kids.length) (key : BitVec n) (w : Nat) (val : Option Value) :
    ∃ t', (t.alloc ((Node.new key (Prefixes.mask n w) val).setParent (some x))).1.modify x
        (Node.setKid i (some t.next)) = some t' ∧
      Holds t' (insertNode cells x t.next ⟨key &&& Prefixes.mask n w, w, val, some x, []⟩ none
        (c.kids ++ [t.next])) := by
  have apart : x ≠ t.next := Nat.ne_of_lt (holds.bound here)
  have read : (t.alloc ((Node.new key (Prefixes.mask n w) val).setParent (some x))).1.nodes x =
      some c.node := (update_of_ne apart _ _).trans (holds.node here)
  refine ⟨_, modify_eq read _, ?_⟩
  apply holds_insertNode holds here (fun k eq => by cases eq)
  · simp [node_append_kid c free]
  · change Function.update (Function.update _ _ _) x _ t.next = _
    rw [update_of_ne apart.symm, update_self, new_setParent]
  · intro k b eq
    cases eq
  · intro z other other' _
    exact (update_of_ne other _ _).trans (update_of_ne other' _ _)
  · rfl

theorem split_edge (wf : Wf cells) (holds : Holds t cells) (here : cells x = some c)
    (slot : c.kids[(i : Nat)]? = some y) (key : BitVec n) (w : Nat) :
    ∃ t', ((((t.alloc ((Node.new key (Prefixes.mask n w) none).setParent (some x))).1.modify y
        (Node.setParent (some t.next))).bind fun t₁ => t₁.modify t.next (Node.setKid 0 (some y))).bind
          fun t₂ => t₂.modify x (Node.setKid i (some t.next))) = some t' ∧
      Holds t' (insertNode cells x t.next ⟨key &&& Prefixes.mask n w, w, none, some x, [y]⟩ (some y)
        (c.kids.set i t.next)) ∧ t'.next = t.next + 1 := by
  have mem : y ∈ c.kids := mem_of_getElem? slot
  obtain ⟨taken, -⟩ := List.getElem?_eq_some_iff.mp slot
  obtain ⟨b, isKid, -⟩ := wf.kid here mem
  have node_next : x ≠ t.next := Nat.ne_of_lt (holds.bound here)
  have kid_next : y ≠ t.next := Nat.ne_of_lt (holds.bound isKid)
  have kid_node : y ≠ x := wf.ne_of_kid here mem
  rw [modify_eq ((update_of_ne kid_next _ _).trans (holds.node isKid)), bind_some,
    modify_eq ((update_of_ne kid_next.symm _ _).trans (update_self _ _ _)),
    bind_some, modify_eq ((update_of_ne node_next _ _).trans
      ((update_of_ne kid_node.symm _ _).trans
        ((update_of_ne node_next _ _).trans (holds.node here))))]
  refine ⟨_, rfl, ?_, rfl⟩
  apply holds_insertNode holds here
  · intro k eq
    cases eq
    exact kid_node
  · simp [node_set_kid c taken]
  · refine (update_of_ne node_next.symm _ _).trans ((update_self _ _ _).trans ?_)
    exact congrArg some (node_append_kid (i := 0) ⟨key &&& Prefixes.mask n w, w, none, some x, []⟩ rfl y)
  · aesop
  · intro z other other' notKid
    have apart : z ≠ y := fun eq => notKid (congrArg some eq.symm)
    exact (update_of_ne other _ _).trans ((update_of_ne other' _ _).trans
      ((update_of_ne apart _ _).trans (update_of_ne other' _ _)))
  · rfl

theorem set_value (holds : Holds t cells) (here : cells x = some c) (val : Option Value) :
    ∃ t', t.modify x (Node.setValue val) = some t' ∧
      Holds t' (put cells x (some { c with value := val })) := by
  refine ⟨_, modify_eq (holds.node here) _, fun h => ?_, fun h => ?_⟩
  · rcases (put_eq_some_iff _ _).mp h with ⟨rfl, eq⟩ | ⟨other, h⟩
    · cases eq
      exact update_self _ _ _
    · exact (update_of_ne other _ _).trans (holds.node h)
  · rcases (put_eq_some_iff _ _).mp h with ⟨rfl, -⟩ | ⟨-, h⟩
    · exact holds.bound here
    · exact holds.bound h

theorem extendMask_mask (less : v < n) : extendMask (Prefixes.mask n v) = Prefixes.mask n (v + 1) := by
  apply eq_of_getMsbD_eq
  intro i lt
  rw [extendMask, getMsbD_or, getMsbD_or, getMsbD_ushiftRight,
    getMsbD_shiftLeft, getMsbD_one, mask_getMsbD (Nat.le_of_lt less),
    mask_getMsbD (Nat.le_of_lt less), mask_getMsbD less, decide_eq_true lt, Bool.true_and]
  rw [Bool.eq_iff_iff]
  simp only [or_eq_true, and_eq_true, not_eq_true', decide_eq_true_eq,
    decide_eq_false_iff_not]
  omega

theorem commonMask_spec (key kidKey : BitVec n) (bound : w ≤ n) (le : v ≤ w) (enough : w < fuel + v)
    (agree : Agree v key kidKey) :
    ∃ l, commonMask key kidKey (Prefixes.mask n w) fuel (Prefixes.mask n v) = some (Prefixes.mask n l) ∧ v ≤ l ∧ l ≤ w ∧
      Agree l key kidKey ∧ (l = w ∨ key.getMsbD l ≠ kidKey.getMsbD l) := by
  induction fuel generalizing v with
  | zero => omega
  | succ fuel ih =>
    rw [commonMask]
    by_cases last : v = w
    · grind
    · have less : v < n := by omega
      have further := mt (mask_inj (Nat.le_of_lt less) bound).mp last
      have agree_iff : key &&& Prefixes.mask n (v + 1) = kidKey &&& Prefixes.mask n (v + 1) ↔
          Agree v key kidKey ∧ key.getMsbD v = kidKey.getMsbD v :=
        (and_mask_eq_iff (Nat.succ_le_of_lt less)).trans agree_succ_iff
      rw [extendMask_mask less]
      by_cases bit : key.getMsbD v = kidKey.getMsbD v
      · rw [if_neg (by
          rintro (apart | eq)
          · exact apart (agree_iff.mpr ⟨agree, bit⟩)
          · exact further eq)]
        obtain ⟨l, eq, le', rest⟩ := ih (v := v + 1) (by omega) (by omega)
          (agree_succ_iff.mpr ⟨agree, bit⟩)
        exact ⟨l, eq, by omega, rest⟩
      · grind

theorem insertAt_none (holds : Holds t cells) (here : cells x = some c)
    (free : c.kids[(i : Nat)]? = none) (key new_mask : BitVec n) (val : Option Value) :
    t.insertAt fuel x key new_mask val i =
      ((t.alloc ((Node.new key new_mask val).setParent (some x))).1.modify x
        (Node.setKid i (some t.next))).map fun t' => some (t', t.next) := by
  have slot : c.node.kids i = none := free
  rw [insertAt, holds.node here, Option.bind_eq_bind, Option.bind_some, slot]
  rw [map_eq_bind]
  rfl

theorem insertAt_some (holds : Holds t cells) (here : cells x = some c)
    (taken : c.kids[(i : Nat)]? = some y) (isKid : cells y = some d) (key new_mask : BitVec n)
    (val : Option Value) {cur_mask : BitVec n}
    (common : commonMask key d.key new_mask fuel (Prefixes.mask n c.width) = some cur_mask) :
    t.insertAt fuel x key new_mask val i =
      if cur_mask = Prefixes.mask n c.width then some none
      else
        ((((t.alloc ((Node.new key cur_mask none).setParent (some x))).1.modify y
          (Node.setParent (some t.next))).bind fun t₁ =>
            t₁.modify t.next (Node.setKid 0 (some y))).bind fun t₂ =>
              t₂.modify x (Node.setKid i (some t.next))).bind fun t' =>
                if cur_mask = new_mask then
                  (t'.modify t.next (Node.setValue val)).map fun t'' => some (t'', t.next)
                else
                  ((t'.alloc ((Node.new key new_mask val).setParent (some t.next))).1.modify t.next
                    (Node.setKid 1 (some t'.next))).map fun t'' => some (t'', t'.next) := by
  have slot : c.node.kids i = some y := taken
  rw [insertAt, holds.node here, Option.bind_eq_bind, Option.bind_some, slot]
  change (t.nodes y).bind _ = _
  rw [holds.node isKid]
  change (commonMask key d.key new_mask fuel (Prefixes.mask n c.width)).bind _ = _
  rw [common, bind_some]
  by_cases skip : cur_mask = Prefixes.mask n c.width
  · rw [if_pos skip]
    exact if_pos skip
  · rw [if_neg skip, Option.bind_assoc, Option.bind_assoc]
    simp only [map_eq_bind]
    exact if_neg skip

theorem mem_set_iff {l : List Handle} (nodup : l.Nodup) {i : Nat} (get : l[i]? = some y)
    (new z : Handle) : z ∈ l.set i new ↔ z = new ∨ z ∈ l ∧ z ≠ y := by
  induction l generalizing i with
  | nil => cases get
  | cons a l ih =>
    cases i with
    | zero => grind
    | succ i => grind

/-- The trie has the nodes of the cells, and those have their shape. -/
structure Rep (t : Trie n Value) (cells : Cells n Value) : Prop where
  wf : Wf cells
  full : Full cells none
  holds : Holds t cells

/-- The trie is left with one more entry, under a handle that was not in use. -/
def Inserts (cells : Cells n Value) (entry : Entry n Value) (result : Trie n Value × Handle) :
    Prop :=
  ∃ cells', Rep result.1 cells' ∧ entries cells result.2 = none ∧
    entries cells' = Function.update (entries cells) result.2 (some entry)

theorem full_insertNode {loose loose' : Option Handle} (full : Full cells loose)
    (here : cells x = some c) (new : loose' ≠ some y → d.value ≠ none ∨ 2 ≤ d.kids.length)
    (above : loose' ≠ some x → x ≠ head → c.value ≠ none ∨ 2 ≤ kids.length)
    (others : ∀ z, z ≠ x → loose' ≠ some z → loose ≠ some z) :
    Full (insertNode cells x y d kid kids) loose' := by
  intro z e h out kept
  rcases (put_eq_some_iff _ _).mp h with ⟨rfl, eq⟩ | ⟨_, h⟩
  · cases eq
    exact new kept
  · obtain ⟨b, was, rfl⟩ := relink_eq_some_iff.mp h
    by_cases at_ : z = x
    · grind
    · aesop

theorem entries_insertNode (cells : Cells n Value) (x y : Handle) (d : Cell n Value)
    (kid : Option Handle) (kids : List Handle) :
    entries (insertNode cells x y d kid kids) = Function.update (entries cells) y d.entry := by
  rw [insertNode, entries_put, entries_relink]
  rfl

theorem wf_leaf (wf : Wf cells) (here : cells x = some c) (fresh : cells y = none)
    (val : Option Value) (format : w ≤ n ∧ key &&& Prefixes.mask n w = key) (wider : c.width < w)
    (agree : Agree c.width c.key key)
    (differ : ∀ z e, z ∈ c.kids → cells z = some e → e.key.getMsbD c.width ≠ key.getMsbD c.width) :
    Wf (insertNode cells x y ⟨key, w, val, some x, []⟩ none (c.kids ++ [y])) := by
  apply wf_insertNode wf here fresh rfl rfl format ⟨wider, agree⟩
  · intro k eq
    cases eq
  · grind
  · apply List.nodup_append.mpr
    refine ⟨wf.nodup here, List.nodup_singleton _, fun z mem z' mem' => ?_⟩
    rintro rfl
    obtain ⟨e, live, -⟩ := wf.kid here mem
    rw [List.mem_singleton.mp mem'] at live
    cases fresh.symm.trans live
  · intro z e mem _
    exact differ z e mem

theorem insertAt_leaf (fuel : Nat) (rep : Rep t cells) (here : cells x = some c)
    (free : (i : Nat) = c.kids.length) (wider : c.width < w) (bound : w ≤ n)
    (masked : key &&& Prefixes.mask n w = key) (agree : Agree c.width c.key key) (val : Value)
    (differ : ∀ z e, z ∈ c.kids → cells z = some e → e.key.getMsbD c.width ≠ key.getMsbD c.width) :
    ∃ result, t.insertAt fuel x key (Prefixes.mask n w) (some val) i = some (some result) ∧
      Inserts cells ⟨key, w, val⟩ result := by
  have slot : c.kids[(i : Nat)]? = none := List.getElem?_eq_none (Nat.le_of_eq free.symm)
  obtain ⟨t', attached, holds⟩ := attach_leaf rep.holds here free key w (some val)
  rw [masked] at holds
  have fresh := rep.holds.fresh
  refine ⟨(t', t.next), ?_, _, ⟨?_, ?_, holds⟩, ?_, ?_⟩
  · rw [insertAt_none rep.holds here slot, attached]
    rfl
  · exact wf_leaf rep.wf here fresh (some val) ⟨bound, masked⟩ wider agree differ
  · apply full_insertNode rep.full here
    · exact fun _ => .inl (some_ne_none val)
    · intro _ out
      rw [length_append]
      exact (rep.full x c here out (some_ne_none _).symm).imp_right fun two =>
        Nat.le_add_right_of_le two
    · exact fun _ _ kept => kept
  · change (cells t.next).bind _ = none
    rw [fresh]
    rfl
  · exact entries_insertNode cells x t.next _ none _

theorem insertAt_skip (rep : Rep t cells) (here : cells x = some c)
    (taken : c.kids[(i : Nat)]? = some y) (isKid : cells y = some d) (enough : n < fuel)
    (wider : c.width < w) (bound : w ≤ n) (agree : Agree c.width c.key key) (val : Option Value)
    (apart : d.key.getMsbD c.width ≠ key.getMsbD c.width) :
    t.insertAt fuel x key (Prefixes.mask n w) val i = some none := by
  obtain ⟨d', isKid', -, -, below⟩ := rep.wf.kid here (mem_of_getElem? taken)
  cases isKid.symm.trans isKid'
  obtain ⟨l, common, le, -, same, -⟩ := commonMask_spec key d.key bound
    (Nat.le_of_lt wider) (show w < fuel + c.width by omega) (agree.symm.trans below)
  rw [insertAt_some rep.holds here taken isKid key (Prefixes.mask n w) val common]
  apply if_pos
  rcases Nat.eq_or_lt_of_le le with rfl | less
  · rfl
  · exact absurd (same c.width less).symm apart

theorem insertAt_split (rep : Rep t cells) (here : cells x = some c)
    (taken : c.kids[(i : Nat)]? = some y) (isKid : cells y = some d) (enough : n < fuel)
    (wider : c.width < w) (bound : w ≤ n) (masked : key &&& Prefixes.mask n w = key)
    (agree : Agree c.width c.key key) (val : Value)
    (bit : d.key.getMsbD c.width = key.getMsbD c.width)
    (beyond : Agree d.width d.key key → w < d.width) :
    ∃ result, t.insertAt fuel x key (Prefixes.mask n w) (some val) i = some (some result) ∧
      Inserts cells ⟨key, w, val⟩ result := by
  have mem := mem_of_getElem? taken
  obtain ⟨d', isKid', -, widerKid, below⟩ := rep.wf.kid here mem
  cases isKid.symm.trans isKid'
  obtain ⟨l, common, le, le', same, ends⟩ := commonMask_spec key d.key bound
    (Nat.le_of_lt wider) (show w < fuel + c.width by omega) (agree.symm.trans below)
  have longer : c.width < l := by grind
  have shorter : l < d.width := by
    by_contra less
    have := beyond (same.symm.mono (by omega))
    omega
  have boundL : l ≤ n := Nat.le_trans le' bound
  have further : Prefixes.mask n l ≠ Prefixes.mask n c.width :=
    mt (mask_inj boundL (rep.wf.format here).1).mp (Nat.ne_of_gt longer)
  have prefix_ : Agree l (key &&& Prefixes.mask n l) key := agree_and_mask boundL
  have fresh := rep.holds.fresh
  obtain ⟨t₁, split, holds₁, next₁⟩ := split_edge rep.wf rep.holds here taken key l
  -- the trie with the new node between the two
  have wf₁ : Wf (insertNode cells x t.next ⟨key &&& Prefixes.mask n l, l, none, some x, [y]⟩ (some y)
      (c.kids.set i t.next)) := by
    apply wf_insertNode rep.wf here fresh rfl rfl
      ⟨boundL, and_mask_and_mask key l⟩ ⟨longer, agree.trans (prefix_.symm.mono le)⟩
    · intro k eq
      cases eq
      refine ⟨mem, fun e live => ?_⟩
      cases isKid.symm.trans live
      exact ⟨shorter, prefix_.trans same⟩
    · intro z
      rw [mem_set_iff (rep.wf.nodup here) taken]
      exact or_congr_right (and_congr_right fun _ => ⟨fun ne eq => ne (Option.some.inj eq).symm,
        fun ne eq => ne (congrArg some eq.symm)⟩)
    · apply (rep.wf.nodup here).set
      intro mem
      obtain ⟨e, live, -⟩ := rep.wf.kid here mem
      cases fresh.symm.trans live
    · intro z e mem' other live eq
      have bits : e.key.getMsbD c.width = d.key.getMsbD c.width :=
        eq.trans ((prefix_.trans same) c.width longer)
      exact other (congrArg some (rep.wf.differ here mem' mem live isKid bits).symm)
  have full₁ : Full (insertNode cells x t.next ⟨key &&& Prefixes.mask n l, l, none, some x, [y]⟩ (some y)
      (c.kids.set i t.next)) (some t.next) := by
    apply full_insertNode rep.full here
    · exact fun kept => absurd rfl kept
    · intro _ out
      rw [length_set]
      exact rep.full x c here out (some_ne_none _).symm
    · exact fun _ _ _ => (some_ne_none _).symm
  rw [insertAt_some rep.holds here taken isKid key (Prefixes.mask n w) (some val) common, if_neg further,
    split, bind_some]
  have new₁ := put_self (relink cells (some y) t.next x (c.kids.set i t.next)) t.next
    (some ⟨key &&& Prefixes.mask n l, l, none, some x, [y]⟩)
  have unused : entries cells t.next = none := by
    rw [entries, fresh]
    rfl
  by_cases last : l = w
  · -- the bits ran out, so that the value goes into the new node
    subst last
    obtain ⟨t₂, set, holds₂⟩ := set_value holds₁ new₁ (some val)
    refine ⟨(t₂, t.next), by rw [if_pos rfl, set]; rfl, _, ⟨?_, ?_, holds₂⟩, unused, ?_⟩
    · apply wf_setValue wf₁ new₁
      rintro eq
      obtain ⟨r, root, -⟩ := rep.wf.root
      rw [← eq, fresh] at root
      cases root
    · intro z e h out _
      rcases (put_eq_some_iff _ _).mp h with ⟨rfl, eq⟩ | ⟨other, h⟩
      · grind
      · exact full₁ z e h out fun eq => other (Option.some.inj eq).symm
    · rw [entries_put, entries_insertNode, update_idem, masked]
      rfl
  · -- the rest of the bits gets a leaf of its own
    obtain ⟨t₂, attached, holds₂⟩ := attach_leaf holds₁ new₁ (i := 1) rfl key w (some val)
    rw [masked] at holds₂
    refine ⟨(t₂, t₁.next), by
      rw [if_neg (mt (mask_inj boundL bound).mp last), attached]; rfl, _, ⟨?_, ?_, holds₂⟩, ?_, ?_⟩
    · apply wf_leaf wf₁ new₁ holds₁.fresh (some val) ⟨bound, masked⟩
        (Nat.lt_of_le_of_ne le' last) prefix_
      intro z e mem' live eq
      rw [List.mem_singleton] at mem'
      subst mem'
      rcases (put_eq_some_iff _ _).mp live with ⟨rfl, -⟩ | ⟨-, live⟩
      · cases fresh.symm.trans isKid
      · obtain ⟨b, was, rfl⟩ := relink_eq_some_iff.mp live
        cases isKid.symm.trans was
        exact (ends.resolve_left last) eq.symm
    · apply full_insertNode full₁ new₁
      · exact fun _ => .inl (some_ne_none val)
      · exact fun _ _ => .inr (Nat.le_refl 2)
      · exact fun z other _ eq => other (Option.some.inj eq).symm
    · have fresh₁ : cells t₁.next = none := by
        cases live : cells t₁.next with
        | none => rfl
        | some =>
          have := rep.holds.bound live
          rw [next₁] at this
          exact absurd this (Nat.not_lt.mpr (Nat.le_succ _))
      rw [entries, fresh₁]
      rfl
    · rw [entries_insertNode, entries_insertNode]
      congr 1
      exact Function.update_eq_self_iff.mpr unused.symm

theorem insertMask_eq (bound : w ≤ n) : insertMask n w = Prefixes.mask n w := by
  unfold insertMask Prefixes.mask
  split
  · rfl
  · grind

theorem insertAt_either (rep : Rep t cells) (here : cells x = some c) (enough : n < fuel)
    (wider : c.width < w) (bound : w ≤ n) (masked : key &&& Prefixes.mask n w = key)
    (agree : Agree c.width c.key key) (val : Value)
    (beyond : ∀ z e, z ∈ c.kids → cells z = some e → Agree e.width e.key key → w < e.width) :
    ∃ result, Inserts cells ⟨key, w, val⟩ result ∧
      (t.insertAt fuel x key (Prefixes.mask n w) (some val) 0 = some (some result) ∨
        t.insertAt fuel x key (Prefixes.mask n w) (some val) 0 = some none ∧
          t.insertAt fuel x key (Prefixes.mask n w) (some val) 1 = some (some result)) := by
  rcases kids_cases rep.wf here with eq | ⟨y, eq⟩ | ⟨y, z, eq⟩
  · obtain ⟨result, at_, inserts⟩ := insertAt_leaf fuel (i := 0) rep here
      (by rw [eq]; rfl) wider bound masked agree val (fun z e mem => by rw [eq] at mem; cases mem)
    exact ⟨result, inserts, .inl at_⟩
  · have mem : y ∈ c.kids := by rw [eq]; exact List.mem_singleton_self y
    have slot : c.kids[((0 : Fin 2) : Nat)]? = some y := by rw [eq]; rfl
    obtain ⟨d, isKid, -⟩ := rep.wf.kid here mem
    by_cases bit : d.key.getMsbD c.width = key.getMsbD c.width
    · obtain ⟨result, at_, inserts⟩ := insertAt_split rep here slot isKid enough wider bound masked
        agree val bit (beyond y d mem isKid)
      exact ⟨result, inserts, .inl at_⟩
    · have skip := insertAt_skip rep here slot isKid enough wider bound agree (some val) bit
      obtain ⟨result, at_, inserts⟩ := insertAt_leaf fuel (i := 1) rep here
        (by rw [eq]; rfl) wider bound masked agree val (fun z e mem' live => by
          rw [eq, List.mem_singleton] at mem'
          subst mem'
          cases isKid.symm.trans live
          exact bit)
      exact ⟨result, inserts, .inr ⟨skip, at_⟩⟩
  · have first : y ∈ c.kids := by rw [eq]; exact List.mem_cons_self
    have second : z ∈ c.kids := by rw [eq]; exact List.mem_cons_of_mem _ (List.mem_singleton_self z)
    have slot : c.kids[((0 : Fin 2) : Nat)]? = some y := by rw [eq]; rfl
    have slot' : c.kids[((1 : Fin 2) : Nat)]? = some z := by rw [eq]; rfl
    obtain ⟨d, isKid, -⟩ := rep.wf.kid here first
    obtain ⟨e, isKid', -⟩ := rep.wf.kid here second
    by_cases bit : d.key.getMsbD c.width = key.getMsbD c.width
    · obtain ⟨result, at_, inserts⟩ := insertAt_split rep here slot isKid enough wider bound masked
        agree val bit (beyond y d first isKid)
      exact ⟨result, inserts, .inl at_⟩
    · have skip := insertAt_skip rep here slot isKid enough wider bound agree (some val) bit
      -- the bits of the two kids differ, so that the other one goes on as the key does
      have apart : y ≠ z := by
        have nodup := rep.wf.nodup here
        rw [eq] at nodup
        rintro rfl
        exact (List.nodup_cons.mp nodup).1 (List.mem_singleton_self y)
      have kids := mt (rep.wf.differ here first second isKid isKid') apart
      have bit' : e.key.getMsbD c.width = key.getMsbD c.width :=
        Bool.not_inj ((Bool.eq_not.mpr kids).symm.trans (Bool.eq_not.mpr bit))
      obtain ⟨result, at_, inserts⟩ := insertAt_split rep here slot' isKid' enough wider bound masked
        agree val bit' (beyond z e second isKid')
      exact ⟨result, inserts, .inr ⟨skip, at_⟩⟩

theorem insert_spec (rep : Rep t cells) (enough : n < fuel) (key : BitVec n) (pos : 0 < w)
    (bound : w ≤ n) (val : Value)
    (absent : ∀ z e, entries cells z = some e → ¬(e.width = w ∧ e.key = key &&& Prefixes.mask n w)) :
    ∃ result, t.insert fuel key w (some val) = some result ∧
      Inserts cells ⟨key &&& Prefixes.mask n w, w, val⟩ result := by
  obtain ⟨r, root, width, -⟩ := rep.wf.root
  have masked : key &&& Prefixes.mask n w &&& Prefixes.mask n w = key &&& Prefixes.mask n w := and_mask_and_mask key w
  have start : Agree r.width r.key (key &&& Prefixes.mask n w) := by
    rw [width]
    exact fun i lt => absurd lt (Nat.not_lt_zero i)
  obtain ⟨x, c, walked, here, agree, le, beyond⟩ :=
    walk_spec rep.wf rep.holds bound root (show n < fuel + r.width by omega) start (by omega)
  obtain ⟨next, done, skipped, inserted⟩ : ∃ next : Option (Trie n Value × Handle) → _,
      (∀ result, next (some result) = some result) ∧
      next none =
        (t.insertAt fuel x (key &&& Prefixes.mask n w) (Prefixes.mask n w) (some val) 1).join ∧
      t.insert fuel key w (some val) =
        if Prefixes.mask n c.width = Prefixes.mask n w then
          if c.value.isSome then none
          else (t.modify x (Node.setValue (some val))).map fun t' => (t', x)
        else
          (t.insertAt fuel x (key &&& Prefixes.mask n w) (Prefixes.mask n w) (some val) 0).bind
            next := by
    apply Exists.intro
    refine ⟨?done, ?skipped, ?inserted⟩
    case inserted =>
      rw [insert, insertMask_eq bound]
      change (t.walk (key &&& Prefixes.mask n w) (Prefixes.mask n w) fuel head).bind _ = _
      rw [walked, bind_some]
      change (t.nodes x).bind _ = _
      rw [rep.holds.node here, bind_some, map_eq_bind]
      rfl
    case done => exact fun _ => rfl
    case skipped => rfl
  rw [inserted]
  by_cases at_ : c.width = w
  · subst at_
    obtain ⟨-, format⟩ := rep.wf.format here
    have same : c.key = key &&& Prefixes.mask n c.width := eq_of_agree bound format masked agree
    have value : c.value = none := by
      cases stored : c.value with
      | none => rfl
      | some v =>
        have entry : entries cells x = some ⟨c.key, c.width, v⟩ := by
          rw [entries, here, bind_some, Cell.entry, stored]
          rfl
        exact absurd ⟨rfl, same⟩ (absent x _ entry)
    have unused : entries cells x = none := by
      rw [entries, here, bind_some, Cell.entry, value]
      rfl
    have out : x ≠ head := by grind
    obtain ⟨t', set, holds⟩ := set_value rep.holds here (some val)
    refine ⟨(t', x), ?_, _, ⟨wf_setValue rep.wf here out _, ?_, holds⟩, unused, ?_⟩
    · grind
    · intro z e h out kept
      rcases (put_eq_some_iff _ _).mp h with ⟨rfl, eq⟩ | ⟨_, h⟩
      · grind
      · exact rep.full z e h out kept
    · rw [entries_put, ← same]
      rfl
  · obtain ⟨result, inserts, either⟩ := insertAt_either rep here enough
      (Nat.lt_of_le_of_ne le at_) bound masked agree val fun z e mem live agree' =>
        beyond z e mem live agree'
    refine ⟨result, ?_, inserts⟩
    have other := mt (mask_inj (rep.wf.format here).1 bound).mp at_
    rw [if_neg other]
    rcases either with first | ⟨skip, second⟩
    · rw [first, bind_some, done]
    · rw [skip, bind_some, skipped, second]
      rfl

end Gem5.Base.Trie
