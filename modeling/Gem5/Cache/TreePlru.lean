import Gem5.Lib.HeapPaths

/-!
# Tree-PLRU replacement

The entries of a set are the leaves of a tree of bits, which is shared. The victim is where the bits
lead from the root; a touch turns the bits on the way to an entry away from it, an invalidation
turns them to it.
-/

namespace Gem5.Cache

open HeapPaths List Option

namespace TreePlru

abbrev PLRUTree := List Bool

def parentIndex (index : Nat) : Nat := (index - 1) / 2

def leftSubtreeIndex (index : Nat) : Nat := 2 * index + 1

def rightSubtreeIndex (index : Nat) : Nat := 2 * index + 2

def isRightSubtree (index : Nat) : Bool := index % 2 = 0

/-- The index of the entry, and the tree that it shares. -/
structure TreePLRUReplData where
  index : Nat
  tree : Nat
  deriving DecidableEq

end TreePlru

open TreePlru

/-- The policy, with all trees made so far; `treeInstance` is the last. -/
structure TreePLRURP where
  numLeaves : Nat
  count : Nat
  trees : List PLRUTree

namespace TreePLRURP

/-- The loops of `invalidate` and `touch`, which differ in the bit they write. Fails where `at` would
throw, or without fuel. -/
def update (bit : Bool → Bool) : Nat → PLRUTree → Nat → Option PLRUTree
  | 0, _, _ => none
  | fuel + 1, tree, treeIndex =>
    let right := isRightSubtree treeIndex
    let treeIndex := parentIndex treeIndex
    if treeIndex < tree.length then
      let tree := tree.set treeIndex (bit right)
      if treeIndex ≠ 0 then update bit fuel tree treeIndex else some tree
    else none

variable (p : TreePLRURP)

/-- An index is greater than that of its parent, so that it is enough fuel. -/
def updateTree (bit : Bool → Bool) (data : TreePLRUReplData) : Option TreePLRURP := do
  let tree ← p.trees[data.tree]?
  let tree ← update bit data.index tree data.index
  some { p with trees := p.trees.set data.tree tree }

def invalidate (data : TreePLRUReplData) : Option TreePLRURP := p.updateTree (fun right => right) data

def touch (data : TreePLRUReplData) : Option TreePLRURP := p.updateTree (fun right => ! right) data

def reset (data : TreePLRUReplData) : Option TreePLRURP := p.touch data

/-- The loop of `getVictim`. -/
def descend (tree : PLRUTree) : Nat → Nat → Option Nat
  | 0, _ => none
  | fuel + 1, treeIndex =>
    match tree[treeIndex]? with
    | none => some treeIndex
    | some true => descend tree fuel (rightSubtreeIndex treeIndex)
    | some false => descend tree fuel (leftSubtreeIndex treeIndex)

/-- Fails where an index is out of bounds. -/
def getVictim (candidates : List TreePLRUReplData) : Option TreePLRUReplData := do
  let first ← candidates[0]?
  let tree ← p.trees[first.tree]?
  let treeIndex ← descend tree (tree.length + 1) 0
  candidates[treeIndex - (p.numLeaves - 1)]?

def instantiateEntry : TreePLRURP × TreePLRUReplData :=
  let trees := if p.count % p.numLeaves = 0 then p.trees ++ [List.replicate (p.numLeaves - 1) false]
    else p.trees
  ({ p with count := p.count + 1, trees := trees },
    ⟨p.count % p.numLeaves + p.numLeaves - 1, trees.length - 1⟩)

/-- Consecutive calls. -/
def instantiateEntries : Nat → TreePLRURP → TreePLRURP × List TreePLRUReplData
  | 0, p => (p, [])
  | n + 1, p =>
    let (p, first) := p.instantiateEntry
    let (p, rest) := instantiateEntries n p
    (p, first :: rest)

/-- The calls, the entries being named by their places in the set. -/
inductive Call where
  | touch (x : Nat)
  | reset (x : Nat)
  | invalidate (x : Nat)
  | getVictim

/-- A call on the entries of a set. -/
def call (entries : List TreePLRUReplData) : Call → Option TreePLRURP
  | .touch x => entries[x]?.bind p.touch
  | .reset x => entries[x]?.bind p.reset
  | .invalidate x => entries[x]?.bind p.invalidate
  | .getVictim => (p.getVictim entries).map fun _ => p

/-- The call names entries of the set. -/
def Call.Inside (n : Nat) : Call → Prop
  | .touch x | .reset x | .invalidate x => x < n
  | .getVictim => True

/-- `y` is in the subtree of `2 ^ j` entries next to that of `x`. -/
def Sibling (j x y : Nat) : Prop := y / 2 ^ (j + 1) = x / 2 ^ (j + 1) ∧ y / 2 ^ j ≠ x / 2 ^ j

variable {p} {p' : TreePLRURP} {tree tree' : PLRUTree} {k t x y : Nat} {path leaf : List Bool}

theorem update_spec (bit : Bool → Bool) {fuel : Nat} (size : tree.length = 2 ^ k - 1)
    (some_ : path ≠ []) (inside : path.length ≤ k) (enough : path.length ≤ fuel) :
    ∃ tree', update bit fuel tree (node path) = some tree' ∧ tree'.length = tree.length ∧
      ∀ q, tree'[node q]? = ((turn path q).map bit).or tree[node q]? := by
  induction path generalizing fuel tree with
  | nil => exact absurd rfl some_
  | cons b path ih =>
    obtain ⟨fuel, rfl⟩ := Nat.exists_eq_add_of_lt (Nat.lt_of_lt_of_le (Nat.zero_lt_succ _) enough)
    have here : node path < tree.length := by
      rw [size, node_lt_iff]
      exact inside
    have written : ∀ q, (tree.set (node path) (bit b))[node q]?
        = if path = q then some (bit b) else tree[node q]? := by
      intro q
      rw [List.getElem?_set]
      by_cases same : path = q
      · rw [if_pos same, if_pos (congrArg node same), if_pos here]
      · rw [if_neg same, if_neg fun nodes => same (node_injective nodes)]
    rw [Nat.zero_add, update, show isRightSubtree (node (b :: path)) = b from node_turn b path,
      show parentIndex (node (b :: path)) = node path from node_parent b path]
    rw [if_pos here]
    by_cases root : path = []
    · subst root
      refine ⟨_, rfl, length_set, fun q => ?_⟩
      rw [written, turn]
      split <;> rfl
    · have below : node path ≠ 0 := fun zero => root (node_injective zero)
      rw [if_pos below]
      have size' : (tree.set (node path) (bit b)).length = 2 ^ k - 1 := by
        rw [length_set, size]
      obtain ⟨tree', updated, length, bits⟩ := ih size' root (Nat.le_of_succ_le inside)
        (show path.length ≤ fuel by rw [length_cons] at enough; omega)
      refine ⟨tree', updated, length.trans length_set, fun q => ?_⟩
      rw [bits, written, turn]
      by_cases same : path = q
      · subst same
        have notBelow : turn path path = none := by
          rw [eq_none_iff_forall_ne_some]
          intro c passes
          have le := (turn_eq_some_iff.mp passes).length_le
          rw [length_cons] at le
          omega
        rw [notBelow, if_pos rfl, if_pos rfl]
        rfl
      · rw [if_neg same, if_neg same]

/-- The bits lead along the path. -/
def Follows (tree : PLRUTree) (path : List Bool) : Prop :=
  ∀ c q, turn path q = some c → tree[node q]? = some c

theorem descend_spec (size : tree.length = 2 ^ k - 1) {fuel : Nat} (inside : path.length ≤ k)
    (follows : Follows tree path) (enough : k - path.length < fuel) :
    ∃ leaf, descend tree fuel (node path) = some (node leaf) ∧ leaf.length = k ∧
      Follows tree leaf := by
  induction fuel generalizing path with
  | zero => cases enough
  | succ fuel ih =>
    rw [descend]
    cases found : tree[node path]? with
    | none => grind [node_lt_iff]
    | some b =>
      have less : path.length < k := by grind [node_lt_iff]
      have next : Follows tree (b :: path) := by
        intro c q passes
        rw [turn] at passes
        split at passes
        case isTrue here => rw [← here, found, passes]
        case isFalse => exact follows c q passes
      have rest := ih (show (b :: path).length ≤ k from less) next (by rw [length_cons]; omega)
      cases b with
      | true | false => exact rest

theorem follows_unique (length : leaf.length = path.length) (follows : Follows tree leaf)
    (follows' : Follows tree path) : leaf = path := by
  induction leaf generalizing path with
  | nil => exact (List.length_eq_zero_iff.mp length.symm).symm
  | cons b leaf ih =>
    obtain ⟨c, path, rfl⟩ := exists_cons_of_length_eq_add_one length.symm
    have tail : ∀ {c : Bool} {path : List Bool}, Follows tree (c :: path) → Follows tree path := by
      intro c path follows d q passes
      exact follows d q (turn_eq_some_iff.mpr
        ((turn_eq_some_iff.mp passes).trans (suffix_cons c path)))
    have same := ih (Nat.succ.inj length) (tail follows) (tail follows')
    subst same
    have first := follows b leaf (if_pos rfl)
    have second := follows' c leaf (if_pos rfl)
    rw [Option.some.inj (first.symm.trans second)]

/-- The entries of a set, and their tree. -/
def entriesOf (k t : Nat) : List TreePLRUReplData :=
  (List.range (2 ^ k)).map fun x => ⟨x + 2 ^ k - 1, t⟩

theorem entriesOf_getElem? (inside : x < 2 ^ k) :
    (entriesOf k t)[x]? = some ⟨node (pathTo k x), t⟩ := by
  rw [entriesOf, List.getElem?_map, List.getElem?_range inside, node_pathTo inside, map_some]
  congr 2
  omega

theorem entriesOf_inj (inside : x < 2 ^ k) (inside' : y < 2 ^ k)
    (same : (entriesOf k t)[x]? = (entriesOf k t)[y]?) : x = y := by
  rw [entriesOf_getElem? inside, entriesOf_getElem? inside'] at same
  have index := congrArg TreePLRUReplData.index (Option.some.inj same)
  exact pathTo_injective inside inside' (node_injective index)

/-- The policy keeps the tree. -/
structure Has (p : TreePLRURP) (k t : Nat) (tree : PLRUTree) : Prop where
  leaves : p.numLeaves = 2 ^ k
  here : p.trees[t]? = some tree
  size : tree.length = 2 ^ k - 1

theorem Has.updateTree (has : p.Has k t tree) (deep : 1 ≤ k) (x : Nat) (bit : Bool → Bool) :
    ∃ p' tree', p.updateTree bit ⟨node (pathTo k x), t⟩ = some p' ∧ p'.Has k t tree' ∧
      ∀ q, tree'[node q]? = ((turn (pathTo k x) q).map bit).or tree[node q]? := by
  have length := length_pathTo k x
  have some_ : pathTo k x ≠ [] := by grind
  obtain ⟨tree', updated, size, written⟩ := update_spec bit has.size some_
    (Nat.le_of_eq length) (length_le_node (pathTo k x))
  have exists_ : t < p.trees.length := (List.getElem?_eq_some_iff.mp has.here).1
  refine ⟨{ p with trees := p.trees.set t tree' }, tree', ?_, ⟨has.leaves, ?_,
    size.trans has.size⟩, written⟩
  · rw [TreePLRURP.updateTree, has.here]
    simp [updated]
  · rw [List.getElem?_set, if_pos rfl, if_pos exists_]

theorem Has.getVictim (has : p.Has k t tree) :
    ∃ v < 2 ^ k, p.getVictim (entriesOf k t) = (entriesOf k t)[v]? ∧ Follows tree (pathTo k v) := by
  have start : Follows tree [] := by
    intro c q passes
    cases passes
  have enough : k - ([] : List Bool).length < tree.length + 1 := by
    have power := Nat.lt_two_pow_self (n := k)
    rw [has.size, length_nil]
    omega
  obtain ⟨leaf, descends, length, follows⟩ :=
    descend_spec has.size (show ([] : List Bool).length ≤ k from Nat.zero_le k) start enough
  obtain ⟨v, inside, path⟩ := exists_leaf leaf
  rw [length] at inside path
  rw [path] at descends follows
  refine ⟨v, inside, ?_, follows⟩
  rw [TreePLRURP.getVictim, entriesOf_getElem? (Nat.two_pow_pos k)]
  simp only [bind_eq_bind, bind_some, has.here]
  rw [show (0 : Nat) = node [] from rfl, descends, bind_some, has.leaves, node_pathTo inside,
    Nat.add_sub_cancel_left]

/-- What a call writes to the bit at a node. -/
def Call.writes (k : Nat) : Call → List Bool → Option Bool
  | .touch x, q | .reset x, q => (turn (pathTo k x) q).map fun right => ! right
  | .invalidate x, q => turn (pathTo k x) q
  | .getVictim, _ => none

theorem Has.call (has : p.Has k t tree) (deep : 1 ≤ k) {c : Call} (inside : c.Inside (2 ^ k)) :
    ∃ p' tree', p.call (entriesOf k t) c = some p' ∧ p'.Has k t tree' ∧
      ∀ q, tree'[node q]? = (c.writes k q).or tree[node q]? := by
  cases c with
  | touch x =>
    rw [TreePLRURP.call, entriesOf_getElem? inside]
    exact has.updateTree deep x _
  | reset x =>
    rw [TreePLRURP.call, entriesOf_getElem? inside]
    exact has.updateTree deep x _
  | invalidate x =>
    rw [TreePLRURP.call, entriesOf_getElem? inside]
    obtain ⟨p', tree', updated, has', written⟩ := has.updateTree deep x fun right => right
    refine ⟨p', tree', updated, has', fun q => ?_⟩
    rw [written, Option.map_id']
    rfl
  | getVictim =>
    obtain ⟨v, less, victim, -⟩ := has.getVictim
    refine ⟨p, tree, ?_, has, fun q => rfl⟩
    rw [TreePLRURP.call, victim, entriesOf_getElem? less]
    rfl

theorem Has.calls (has : p.Has k t tree) (deep : 1 ≤ k) {calls : List Call}
    (inside : ∀ c ∈ calls, c.Inside (2 ^ k)) :
    ∃ p' tree', calls.foldlM (fun p c => p.call (entriesOf k t) c) p = some p' ∧ p'.Has k t tree' ∧
      ∀ q b, tree[node q]? = some b → (∀ c ∈ calls, c.writes k q = none ∨ c.writes k q = some b) →
        tree'[node q]? = some b := by
  induction calls generalizing p tree with
  | nil => exact ⟨p, tree, rfl, has, fun _ _ keeps _ => keeps⟩
  | cons c calls ih =>
    obtain ⟨p₁, tree₁, called, has₁, written⟩ := has.call deep (inside c List.mem_cons_self)
    obtain ⟨p', tree', rest, has', keeps⟩ :=
      ih has₁ fun c' mem => inside c' (List.mem_cons_of_mem c mem)
    refine ⟨p', tree', ?_, has', fun q b old writes => ?_⟩
    · rw [foldlM_cons, called]
      exact rest
    · grind

theorem instantiateEntries_more {i m : Nat} (some_ : 0 < i)
    (counts : ∀ j < m, (p.count + j) % p.numLeaves = i + j) :
    p.instantiateEntries m = ({ p with count := p.count + m },
      (List.range m).map fun x => ⟨x + i + p.numLeaves - 1, p.trees.length - 1⟩) := by
  induction m generalizing p i with
  | zero => rfl
  | succ m ih =>
    have here := counts 0 (Nat.zero_lt_succ m)
    rw [Nat.add_zero, Nat.add_zero] at here
    have one : p.instantiateEntry = ({ p with count := p.count + 1 },
        ⟨i + p.numLeaves - 1, p.trees.length - 1⟩) := by
      rw [instantiateEntry, here, if_neg (Nat.ne_of_gt some_)]
    have rest := ih (p := { p with count := p.count + 1 }) (Nat.succ_pos i) fun j less => by
      have next := counts (j + 1) (Nat.succ_lt_succ less)
      rw [Nat.add_assoc, Nat.add_comm 1 j, next]
      omega
    rw [instantiateEntries, one]
    dsimp only
    rw [rest, range_succ_eq_map, List.map_cons, List.map_map]
    refine Prod.ext ?_ ?_
    · simp [Nat.add_assoc, Nat.add_comm 1 m]
    · refine congrArg₂ List.cons ?_ (map_congr_left fun x _ => ?_)
      · rw [Nat.zero_add]
      · grind

theorem instantiateEntries_spec (leaves : p.numLeaves = 2 ^ k) (fresh : p.count % p.numLeaves = 0) :
    ∃ t, (p.instantiateEntries (2 ^ k)).2 = entriesOf k t ∧
      (p.instantiateEntries (2 ^ k)).1.Has k t (List.replicate (2 ^ k - 1) false) := by
  obtain ⟨m, size⟩ := Nat.exists_eq_add_of_lt (Nat.two_pow_pos k)
  rw [Nat.zero_add] at size
  have one : p.instantiateEntry = ({ p with
      count := p.count + 1
      trees := p.trees ++ [List.replicate (p.numLeaves - 1) false] },
      ⟨p.numLeaves - 1, p.trees.length⟩) := by
    rw [instantiateEntry, fresh]
    simp
  have rest := instantiateEntries_more (p := { p with
      count := p.count + 1
      trees := p.trees ++ [List.replicate (p.numLeaves - 1) false] }) (m := m) Nat.one_pos
    fun j less => by
      rw [Nat.add_assoc, Nat.add_mod, fresh, Nat.zero_add, Nat.mod_mod, Nat.mod_eq_of_lt]
      rw [leaves, size]
      omega
  refine ⟨p.trees.length, ?_, ?_⟩
  · rw [size, instantiateEntries, one]
    dsimp only
    rw [rest, entriesOf, size, range_succ_eq_map, List.map_cons, List.map_map]
    refine congrArg₂ List.cons ?_ (map_congr_left fun x _ => ?_)
    · rw [leaves, size, Nat.zero_add]
    · grind
  · rw [size, instantiateEntries, one]
    dsimp only
    rw [rest, ← size]
    refine ⟨leaves, ?_, length_replicate⟩
    rw [leaves, List.getElem?_append_right (Nat.le_refl _), Nat.sub_self]
    rfl

theorem writes_away {j : Nat} (low : j < k) (own : x < 2 ^ k) {c : Call} (inside : c.Inside (2 ^ k))
    (valid : ∀ y, c ≠ .invalidate y) (far : ∀ y, c = .touch y ∨ c = .reset y → ¬Sibling j x y) :
    c.writes k (pathTo (k - (j + 1)) (x / 2 ^ (j + 1))) = none ∨
      c.writes k (pathTo (k - (j + 1)) (x / 2 ^ (j + 1))) = some (! decide (x / 2 ^ j % 2 = 1)) := by
  have touches : ∀ y, y < 2 ^ k → ¬Sibling j x y →
      (turn (pathTo k y) (pathTo (k - (j + 1)) (x / 2 ^ (j + 1)))).map (fun right => ! right) = none ∨
        (turn (pathTo k y) (pathTo (k - (j + 1)) (x / 2 ^ (j + 1)))).map (fun right => ! right)
          = some (! decide (x / 2 ^ j % 2 = 1)) := by
    intro y other far
    cases passes : turn (pathTo k y) (pathTo (k - (j + 1)) (x / 2 ^ (j + 1))) with
    | none => exact .inl rfl
    | some =>
      obtain ⟨above, bit⟩ := (turn_pathTo_iff low own other).mp passes
      have same : y / 2 ^ j = x / 2 ^ j := by
        by_contra differ
        exact far ⟨above, differ⟩
      rw [same] at bit
      exact .inr (by rw [bit]; rfl)
  cases c with
  | touch y => exact touches y inside (far y (.inl rfl))
  | reset y => exact touches y inside (far y (.inr rfl))
  | invalidate y => exact absurd rfl (valid y)
  | getVictim => exact .inl rfl

theorem Has.invalidate_victim (has : p.Has k t tree) (deep : 1 ≤ k) (own : x < 2 ^ k) :
    ∃ p', p.call (entriesOf k t) (.invalidate x) = some p' ∧
      p'.getVictim (entriesOf k t) = (entriesOf k t)[x]? := by
  obtain ⟨p', tree', called, has', written⟩ := has.call deep (c := .invalidate x) own
  obtain ⟨v, less, victim, follows⟩ := has'.getVictim
  have leads : Follows tree' (pathTo k x) := by
    intro c q passes
    rw [written, Call.writes, passes]
    rfl
  have same := follows_unique (by rw [length_pathTo, length_pathTo]) follows leads
  exact ⟨p', called, by rw [victim, pathTo_injective less own same]⟩

/-- After a touch the bit above the subtree points away from the entry, and stays so while that subtree
is not touched. -/
theorem Has.touched_away (has : p.Has k t tree) (deep : 1 ≤ k) {j : Nat} (low : j < k)
    (own : x < 2 ^ k) {c : Call} {since : List Call}
    (touches : ∀ q, c.writes k q = (turn (pathTo k x) q).map fun right => ! right)
    (inside : ∀ c' ∈ c :: since, c'.Inside (2 ^ k)) (valid : ∀ y, .invalidate y ∉ since)
    (far : ∀ y, .touch y ∈ since ∨ .reset y ∈ since → ¬Sibling j x y)
    (run : (c :: since).foldlM (fun p c => p.call (entriesOf k t) c) p = some p') :
    p'.getVictim (entriesOf k t) ≠ (entriesOf k t)[x]? := by
  have at_ := turn_pathTo (x := x) low
  obtain ⟨p₁, tree₁, called, has₁, written⟩ := has.call deep (inside c List.mem_cons_self)
  obtain ⟨p₂, tree₂, run₂, has₂, keeps⟩ :=
    has₁.calls deep fun c' mem => inside c' (List.mem_cons_of_mem c mem)
  rw [foldlM_cons, called, bind_eq_bind, bind_some, run₂] at run
  cases run
  have away : tree₂[node (pathTo (k - (j + 1)) (x / 2 ^ (j + 1)))]?
      = some (! decide (x / 2 ^ j % 2 = 1)) := by
    refine keeps _ _ ?_ fun c' mem => ?_
    · rw [written, touches, at_]
      rfl
    · grind [writes_away]
  obtain ⟨v, less, victim, follows⟩ := has₂.getVictim
  intro chosen
  rw [victim] at chosen
  rw [entriesOf_inj less own chosen] at follows
  have toward := follows _ _ at_
  rw [away] at toward
  cases bit : decide (x / 2 ^ j % 2 = 1) <;> rw [bit] at toward <;> cases toward

/-- The entries of a set of `2 ^ k` after any calls on them: the victim is one of them, an entry that
is invalidated is the victim, and one that was touched is not while no entry is invalidated and in
one of the subtrees next to it none is touched. -/
theorem touched_not_victim (deep : 1 ≤ k) (leaves : p.numLeaves = 2 ^ k)
    (fresh : p.count % p.numLeaves = 0) {calls : List Call}
    (inside : ∀ c ∈ calls, c.Inside (2 ^ k)) :
    let entries := (p.instantiateEntries (2 ^ k)).2
    ∃ r, calls.foldlM (fun p c => p.call entries c) (p.instantiateEntries (2 ^ k)).1 = some r ∧
      (∃ v < 2 ^ k, ∃ data, entries[v]? = some data ∧ r.getVictim entries = some data) ∧
      (∀ x < 2 ^ k, ∃ r', r.call entries (.invalidate x) = some r' ∧
        r'.getVictim entries = entries[x]?) ∧
      ∀ before x since, x < 2 ^ k →
        (calls = before ++ .touch x :: since ∨ calls = before ++ .reset x :: since) →
        (∀ y, .invalidate y ∉ since) →
        (∃ j < k, ∀ y, .touch y ∈ since ∨ .reset y ∈ since → ¬Sibling j x y) →
        r.getVictim entries ≠ entries[x]? := by
  intro entries
  obtain ⟨t, made, has⟩ := instantiateEntries_spec leaves fresh
  dsimp only [entries]
  rw [made]
  generalize (p.instantiateEntries (2 ^ k)).1 = start at has ⊢
  obtain ⟨r, tree, run, has', -⟩ := has.calls deep inside
  refine ⟨r, run, ?_, fun x own => has'.invalidate_victim deep own,
    fun before x since own cut valid far => ?_⟩
  · obtain ⟨v, less, victim, -⟩ := has'.getVictim
    rw [entriesOf_getElem? less] at victim
    exact ⟨v, less, _, entriesOf_getElem? less, victim⟩
  · obtain ⟨j, low, far⟩ := far
    obtain ⟨c, rfl, touches⟩ : ∃ c, calls = before ++ c :: since ∧
        ∀ q, c.writes k q = (turn (pathTo k x) q).map fun right => ! right := by
      rcases cut with cut | cut
      · exact ⟨_, cut, fun _ => rfl⟩
      · exact ⟨_, cut, fun _ => rfl⟩
    obtain ⟨r₁, tree₁, run₁, has₁, -⟩ :=
      has.calls deep fun c' mem => inside c' (List.mem_append_left _ mem)
    rw [List.foldlM_append, run₁, Option.bind_eq_bind, Option.bind_some] at run
    exact has₁.touched_away deep low own touches
      (fun c' mem => inside c' (List.mem_append_right before mem)) valid far run

/-- Of four entries the first is touched, and then one of the other half. -/
theorem touched_not_victim_four :
    let entries := (instantiateEntries 4 ⟨4, 0, []⟩).2
    ∃ r, [Call.touch 0, .touch 2].foldlM (fun p c => p.call entries c)
        (instantiateEntries 4 ⟨4, 0, []⟩).1 = some r ∧
      r.getVictim entries ≠ entries[0]? := by
  have inside : ∀ c ∈ [Call.touch 0, .touch 2], c.Inside (2 ^ 2) := by
    intro c mem
    rcases List.mem_cons.mp mem with rfl | mem
    · exact (by decide : 0 < 2 ^ 2)
    · rw [List.mem_singleton.mp mem]
      exact (by decide : 2 < 2 ^ 2)
  obtain ⟨r, run, -, -, kept⟩ :=
    touched_not_victim (p := ⟨4, 0, []⟩) (by decide) rfl rfl inside
  refine ⟨r, run, kept [] 0 [.touch 2] (by decide) (.inl rfl) (fun y => by simp)
    ⟨0, by decide, fun y touched => ?_⟩⟩
  obtain rfl : y = 2 := by simpa using touched
  exact (by decide : ¬(2 / 2 ^ (0 + 1) = 0 / 2 ^ (0 + 1) ∧ 2 / 2 ^ 0 ≠ 0 / 2 ^ 0))

end TreePLRURP

end Gem5.Cache
