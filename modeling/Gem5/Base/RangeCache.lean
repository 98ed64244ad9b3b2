import Gem5.Base.AddrRangeSearch
import Gem5.Lib.Runs

/-!
# The iterators in the cache

An iterator stands for a node of the tree, not for a key: a range that is erased and inserted
again is another node. Every node gets a number of its own here, so the cache can be asked
whether each of its iterators still leads to a node of the tree.
-/

namespace Gem5.Base

open List

/-- The map, whose nodes carry their numbers, and the number of the next one. -/
structure NodeMap (V : Type) where
  map : AddrRangeMap (Nat × V)
  next : Nat

/-- An iterator; `none` is `end()`. -/
abbrev NodeIter := Option Nat

namespace NodeMap

variable {V : Type}

def nodeId (e : AddrRange × (Nat × V)) : Nat := e.2.1

def empty : NodeMap V := ⟨⟨[], []⟩, 0⟩

variable (prm : AddrRangeMap.Params) (m : NodeMap V)

def insert (r : AddrRange) (d : V) : Except Panic (NodeMap V) :=
  (m.map.insert prm r (m.next, d)).map fun result => ⟨result.2, m.next + 1⟩

def find (r : AddrRange) (cond : AddrRange → Except Panic Bool) : Except Panic (NodeMap V) :=
  (m.map.find prm r cond).map fun result => { m with map := result.2 }

/-- The place of an iterator in the order of the tree. -/
def place : NodeIter → Nat
  | some p => m.map.tree.findIdx fun e => nodeId e == p
  | none => m.map.tree.length

/-- The nodes from `p` up to `q`. -/
def between (p q : NodeIter) : List (AddrRange × (Nat × V)) :=
  (m.map.tree.drop (m.place p)).take (m.place q - m.place p)

/-- `std::list::remove` -/
def remove (p : NodeIter) (cache : List (AddrRange × (Nat × V))) :
    List (AddrRange × (Nat × V)) :=
  cache.filter fun e => some (nodeId e) != p

def erase (p : Nat) : NodeMap V :=
  { m with map := ⟨m.map.tree.filter fun e => nodeId e != p, remove p m.map.cache⟩ }

/-- The loop runs once for each node and removes the first one each time. -/
def eraseRange (p q : NodeIter) : NodeMap V :=
  { m with map := ⟨m.map.tree.take (m.place p) ++ m.map.tree.drop (m.place q),
    (m.between p q).foldl (fun cache _ => remove p cache) m.map.cache⟩ }

def clear : NodeMap V := { m with map := ⟨[], []⟩ }

inductive Call (V : Type) where
  | insert (r : AddrRange) (d : V)
  | contains (r : AddrRange)
  | containsAddr (a : Addr)
  | intersects (r : AddrRange)
  | erase (p : Nat)
  | eraseRange (p q : NodeIter)
  | clear

def call : Call V → Except Panic (NodeMap V)
  | .insert r d => m.insert prm r d
  | .contains r => m.find prm r (r.isSubset prm.overshift)
  | .containsAddr a =>
    m.find prm (AddrRange.ofSize a 1) ((AddrRange.ofSize a 1).isSubset prm.overshift)
  | .intersects r => m.find prm r r.intersects
  | .erase p => .ok (m.erase p)
  | .eraseRange p q => .ok (m.eraseRange p q)
  | .clear => .ok m.clear

/-- A panic ends the program; the map stays as it was. -/
def step (c : Call V) : NodeMap V :=
  match m.call prm c with
  | .ok m' => m'
  | .error _ => m

/-- The iterator leads to a node of the tree or is `end()`. -/
def Valid (p : NodeIter) : Prop := ∀ id ∈ p, ∃ e ∈ m.map.tree, nodeId e = id

/-- What `std::map` asks of the arguments. -/
def Accepts : Call V → Prop
  | .erase p => m.Valid (some p)
  | .eraseRange p q => m.Valid p ∧ m.Valid q ∧ m.place p ≤ m.place q
  | _ => True

/-- An erased range holds no cached node but the first. -/
def ForgetsAll : Call V → Prop
  | .eraseRange p q => ∀ c ∈ m.map.cache, c ∈ m.between p q → some (nodeId c) = p
  | _ => True

/-- The cache holds iterators of nodes of the tree, each once, and not too many. -/
structure CacheSound : Prop where
  live : ∀ c ∈ m.map.cache, c ∈ m.map.tree
  once : (m.map.cache.map nodeId).Nodup
  few : (m.map.cache.length : Int) ≤ prm.maxCacheSize

/-- What every call keeps of the tree. -/
structure Numbered : Prop where
  sorted : m.map.Sorted
  distinct : (m.map.tree.map nodeId).Nodup
  old : ∀ e ∈ m.map.tree, nodeId e < m.next

variable {prm m}

section Lookup

variable {r : AddrRange} {cond : AddrRange → Except Panic Bool}
  {found : Option (AddrRange × (Nat × V))} {map' : AddrRangeMap (Nat × V)}
  {it : AddrRange × (Nat × V)}

theorem addNewEntryToCache_perm (map : AddrRangeMap (Nat × V)) :
    ((map.addNewEntryToCache prm it).cache.Sublist (it :: map.cache))
      ∨ ((map.addNewEntryToCache prm it).cache.Perm (it :: map.cache.dropLast)) := by
  rw [AddrRangeMap.addNewEntryToCache]
  split
  · grind [perm_append_comm]
  · exact Or.inl (sublist_cons_self _ _)

theorem nodup_addNewEntryToCache {map : AddrRangeMap (Nat × V)}
    (once : (map.cache.map nodeId).Nodup) (fresh : nodeId it ∉ map.cache.map nodeId) :
    ((map.addNewEntryToCache prm it).cache.map nodeId).Nodup := by
  have all : ((it :: map.cache).map nodeId).Nodup := List.nodup_cons.mpr ⟨fresh, once⟩
  rcases addNewEntryToCache_perm map with sub | perm
  · exact all.sublist (sub.map nodeId)
  · grind [dropLast_sublist]

theorem length_addNewEntryToCache {map : AddrRangeMap (Nat × V)} (size : 0 ≤ prm.maxCacheSize)
    (few : (map.cache.length : Int) ≤ prm.maxCacheSize) :
    ((map.addNewEntryToCache prm it).cache.length : Int) ≤ prm.maxCacheSize := by
  rw [AddrRangeMap.addNewEntryToCache]
  split
  · grind
  · exact few

theorem Numbered.eq_of_nodeId (numbered : m.Numbered) {e f : AddrRange × (Nat × V)}
    (left : e ∈ m.map.tree) (right : f ∈ m.map.tree) (same : nodeId e = nodeId f) : e = f :=
  List.inj_on_of_nodup_map numbered.distinct left right same

theorem find_sound (size : 0 ≤ prm.maxCacheSize) (numbered : m.Numbered)
    (sound : m.CacheSound prm) (done : m.map.find prm r cond = .ok (found, map')) :
    map'.tree = m.map.tree ∧ CacheSound prm { m with map := map' }
      ∧ ∀ e ∈ found, e ∈ m.map.tree := by
  rcases AddrRangeMap.find_cases done with ⟨it, rfl, hit, -, tree, perm⟩ |
    ⟨missed, ⟨it, rfl, search, rfl⟩ | ⟨rfl, -, rfl⟩⟩
  · refine ⟨tree, ⟨fun c mem => ?_, ?_, ?_⟩, fun e eq => ?_⟩
    · rw [tree]
      exact sound.live c (perm.mem_iff.mp mem)
    · exact (perm.map nodeId).nodup_iff.mpr sound.once
    · rw [perm.length_eq]
      exact sound.few
    · cases eq
      exact sound.live it hit
  · have tree : (m.map.addNewEntryToCache prm it).tree = m.map.tree :=
      AddrRangeMap.addNewEntryToCache_tree it
    obtain ⟨mem, holds, -⟩ := AddrRangeMap.search_some numbered.sorted search
    have fresh : nodeId it ∉ m.map.cache.map nodeId := by
      intro cached
      obtain ⟨c, mem', same⟩ := List.mem_map.mp cached
      have eq := numbered.eq_of_nodeId (sound.live c mem') mem same
      have failed := missed c mem'
      rw [eq, holds] at failed
      exact Bool.false_ne_true (Except.ok.inj failed).symm
    refine ⟨tree, ⟨fun c mem' => ?_, nodup_addNewEntryToCache sound.once fresh,
      length_addNewEntryToCache size sound.few⟩, fun e eq => ?_⟩
    · rw [tree]
      rcases AddrRangeMap.mem_addNewEntryToCache mem' with rfl | mem'
      · exact mem
      · exact sound.live c mem'
    · cases eq
      exact mem
  · exact ⟨rfl, sound, fun e eq => by cases eq⟩

theorem find_ok {m' : NodeMap V} (done : m.find prm r cond = .ok m') :
    ∃ found map', m.map.find prm r cond = .ok (found, map') ∧ m' = { m with map := map' } := by
  rw [find] at done
  cases result : m.map.find prm r cond with
  | error =>
    rw [result] at done
    cases done
  | ok =>
    rw [result] at done
    cases done
    exact ⟨_, _, rfl, rfl⟩

theorem Numbered.congr {map' : AddrRangeMap (Nat × V)} (numbered : m.Numbered)
    (tree : map'.tree = m.map.tree) : Numbered { m with map := map' } := by
  refine ⟨?_, ?_, ?_⟩
  · rw [AddrRangeMap.Sorted, tree]
    exact numbered.sorted
  · rw [tree]
    exact numbered.distinct
  · rw [tree]
    exact numbered.old

end Lookup

section Tree

variable {e : AddrRange × (Nat × V)} {tree : List (AddrRange × (Nat × V))}

variable (e tree) in
theorem treeInsert_cases : AddrRangeMap.treeInsert e tree = tree
    ∨ (AddrRangeMap.treeInsert e tree).Perm (e :: tree) := by
  induction tree with
  | nil => exact Or.inr (List.Perm.refl _)
  | cons x tree ih =>
    rw [AddrRangeMap.treeInsert]
    split
    · exact Or.inr (List.Perm.refl _)
    · split
      · rcases ih with same | perm
        · rw [same]
          exact Or.inl rfl
        · exact Or.inr ((perm.cons x).trans (List.Perm.swap e x tree))
      · exact Or.inl rfl

theorem Numbered.treeInsert (numbered : m.Numbered) {map' : AddrRangeMap (Nat × V)} (r : AddrRange)
    (d : V) (tree : map'.tree = AddrRangeMap.treeInsert (r, (m.next, d)) m.map.tree) :
    Numbered ⟨map', m.next + 1⟩ := by
  refine ⟨?_, ?_, fun e mem => ?_⟩
  · rw [AddrRangeMap.Sorted, tree]
    exact AddrRangeMap.treeInsert_sorted numbered.sorted
  · rw [tree]
    rcases treeInsert_cases (r, (m.next, d)) m.map.tree with same | perm
    · rw [same]
      exact numbered.distinct
    · refine (perm.map nodeId).nodup_iff.mpr (List.nodup_cons.mpr ⟨fun mem => ?_, numbered.distinct⟩)
      obtain ⟨e, mem, same⟩ := List.mem_map.mp mem
      exact absurd same (numbered.old e mem).ne
  · rw [tree] at mem
    rcases AddrRangeMap.mem_treeInsert mem with rfl | mem
    · exact Nat.lt_succ_self m.next
    · exact Nat.lt_succ_of_lt (numbered.old e mem)

theorem Numbered.sublist (numbered : m.Numbered) {map' : AddrRangeMap (Nat × V)}
    (sub : map'.tree.Sublist m.map.tree) : Numbered { m with map := map' } :=
  ⟨numbered.sorted.sublist sub, numbered.distinct.sublist (sub.map nodeId),
    fun e mem => numbered.old e (sub.subset mem)⟩

end Tree

section Erase

variable {p q : NodeIter} {c : AddrRange × (Nat × V)} {cache : List (AddrRange × (Nat × V))}

theorem mem_remove : c ∈ remove p cache ↔ c ∈ cache ∧ some (nodeId c) ≠ p := by
  rw [remove, List.mem_filter, bne_iff_ne]

theorem foldl_remove_sublist {l : List (AddrRange × (Nat × V))} :
    (l.foldl (fun cache _ => remove p cache) cache).Sublist cache := by
  induction l generalizing cache with
  | nil => exact List.Sublist.refl _
  | cons _ l ih => exact ih.trans filter_sublist

theorem mem_foldl_remove {l : List (AddrRange × (Nat × V))} :
    c ∈ l.foldl (fun cache _ => remove p cache) cache
      ↔ c ∈ cache ∧ (l ≠ [] → some (nodeId c) ≠ p) := by
  induction l generalizing cache with
  | nil => simp
  | cons _ l ih =>
    rw [List.foldl_cons, ih, mem_remove]
    refine ⟨fun ⟨kept, _⟩ => ⟨kept.1, fun _ => kept.2⟩, fun ⟨mem, kept⟩ => ⟨⟨mem, ?_⟩, ?_⟩⟩
    · exact kept (cons_ne_nil _ _)
    · exact fun _ => kept (cons_ne_nil _ _)

theorem tree_split (order : m.place p ≤ m.place q) :
    m.map.tree = m.map.tree.take (m.place p) ++ (m.between p q ++ m.map.tree.drop (m.place q)) := by
  have rest : m.between p q ++ m.map.tree.drop (m.place q) = m.map.tree.drop (m.place p) := by
    have drop : m.map.tree.drop (m.place q)
        = (m.map.tree.drop (m.place p)).drop (m.place q - m.place p) := by
      rw [drop_drop, Nat.add_sub_of_le order]
    rw [between, drop, take_append_drop]
  rw [rest, take_append_drop]

theorem eraseRange_sublist (order : m.place p ≤ m.place q) :
    (m.eraseRange p q).map.tree.Sublist m.map.tree := by
  have sub : (m.map.tree.take (m.place p) ++ m.map.tree.drop (m.place q)).Sublist
      (m.map.tree.take (m.place p) ++ (m.between p q ++ m.map.tree.drop (m.place q))) :=
    (sublist_append_right _ _).append_left _
  rwa [← tree_split order] at sub

theorem mem_eraseRange (numbered : m.Numbered) (order : m.place p ≤ m.place q) :
    c ∈ (m.eraseRange p q).map.tree ↔ c ∈ m.map.tree ∧ c ∉ m.between p q := by
  have nodup : m.map.tree.Nodup := numbered.distinct.of_map nodeId
  rw [tree_split order, nodup_append', nodup_append'] at nodup
  have all : c ∈ m.map.tree ↔ c ∈ m.map.tree.take (m.place p)
      ∨ c ∈ m.between p q ∨ c ∈ m.map.tree.drop (m.place q) := by
    rw [← mem_append, ← mem_append, ← tree_split order]
  rw [all, eraseRange, mem_append]
  constructor
  · aesop
  · grind

theorem sublist_sound (sound : m.CacheSound prm) {map' : AddrRangeMap (Nat × V)}
    (sub : map'.cache.Sublist m.map.cache) (live : ∀ c ∈ map'.cache, c ∈ map'.tree) :
    CacheSound prm { m with map := map' } :=
  ⟨live, sound.once.sublist (sub.map nodeId),
    (Int.ofNat_le.mpr sub.length_le).trans sound.few⟩

theorem erase_sound (sound : m.CacheSound prm) (id : Nat) : (m.erase id).CacheSound prm := by
  refine sublist_sound sound filter_sublist fun c mem => ?_
  obtain ⟨cached, ne⟩ := mem_remove.mp mem
  refine List.mem_filter.mpr ⟨sound.live c cached, bne_iff_ne.mpr fun same => ne ?_⟩
  rw [same]

/-- Erasing a range keeps the cache sound just when it holds no other node of the range than
the first. -/
theorem eraseRange_sound_iff (numbered : m.Numbered) (sound : m.CacheSound prm)
    (order : m.place p ≤ m.place q) :
    (m.eraseRange p q).CacheSound prm ↔ m.ForgetsAll (.eraseRange p q) := by
  constructor
  · intro kept c cached inside
    by_contra other
    have still : c ∈ (m.eraseRange p q).map.cache :=
      mem_foldl_remove.mpr ⟨cached, fun _ => other⟩
    exact ((mem_eraseRange numbered order).mp (kept.live c still)).2 inside
  · intro forgets
    refine sublist_sound sound foldl_remove_sublist fun c mem => ?_
    obtain ⟨cached, other⟩ := mem_foldl_remove.mp mem
    refine (mem_eraseRange numbered order).mpr ⟨sound.live c cached, fun inside => ?_⟩
    exact other (ne_nil_of_mem inside) (forgets c cached inside)

end Erase

theorem clear_sound (size : 0 ≤ prm.maxCacheSize) : m.clear.CacheSound prm :=
  ⟨fun _ mem => absurd mem not_mem_nil, nodup_nil, size⟩

theorem insert_ok {r : AddrRange} {d : V} {m' : NodeMap V} (done : m.insert prm r d = .ok m') :
    ∃ found map₁ map', m.map.find prm r r.intersects = .ok (found, map₁)
      ∧ m' = ⟨map', m.next + 1⟩ ∧ map'.cache = map₁.cache
      ∧ (map'.tree = map₁.tree
        ∨ map'.tree = AddrRangeMap.treeInsert (r, (m.next, d)) map₁.tree) := by
  rw [insert] at done
  cases result : m.map.insert prm r (m.next, d) with
  | error =>
    rw [result] at done
    cases done
  | ok =>
    rw [result] at done
    cases done
    obtain ⟨found, map₁, searched, ⟨-, same⟩ | ⟨-, -, same⟩⟩ := AddrRangeMap.insert_cases result
    · exact ⟨found, map₁, _, searched, rfl, by rw [same], Or.inl (by rw [same])⟩
    · exact ⟨found, map₁, _, searched, rfl, by rw [same], Or.inr (by rw [same])⟩

theorem insert_keeps (size : 0 ≤ prm.maxCacheSize) (numbered : m.Numbered)
    (sound : m.CacheSound prm) {r : AddrRange} {d : V} {m' : NodeMap V}
    (done : m.insert prm r d = .ok m') : m'.Numbered ∧ m'.CacheSound prm := by
  obtain ⟨_, map₁, map', searched, rfl, cache, tree⟩ := insert_ok done
  obtain ⟨same, kept, -⟩ := find_sound size numbered sound searched
  have old := numbered.congr same
  have grows : ∀ c ∈ map₁.tree, c ∈ map'.tree := by grind [AddrRangeMap.mem_treeInsert_of_mem]
  refine ⟨?_, fun c mem => ?_, ?_, ?_⟩
  · rcases tree with tree | tree
    · have kept : Numbered ⟨map', m.next⟩ := old.congr tree
      exact ⟨kept.sorted, kept.distinct, fun e mem => Nat.lt_succ_of_lt (kept.old e mem)⟩
    · exact old.treeInsert r d tree
  · rw [cache] at mem
    exact grows c (kept.live c mem)
  · rw [cache]
    exact kept.once
  · rw [cache]
    exact kept.few

theorem lookup_keeps (size : 0 ≤ prm.maxCacheSize) (numbered : m.Numbered)
    (sound : m.CacheSound prm) {r : AddrRange} {cond : AddrRange → Except Panic Bool}
    {m' : NodeMap V} (done : m.find prm r cond = .ok m') : m'.Numbered ∧ m'.CacheSound prm := by
  obtain ⟨_, map', searched, rfl⟩ := find_ok done
  obtain ⟨same, kept, -⟩ := find_sound size numbered sound searched
  exact ⟨numbered.congr same, kept⟩

theorem call_keeps (size : 0 ≤ prm.maxCacheSize) (numbered : m.Numbered) (sound : m.CacheSound prm)
    {c : Call V} (accepts : m.Accepts c) {m' : NodeMap V} (done : m.call prm c = .ok m') :
    m'.Numbered ∧ (m'.CacheSound prm ↔ m.ForgetsAll c) := by
  have always {P : Prop} (both : m'.Numbered ∧ m'.CacheSound prm) (free : P) :
      m'.Numbered ∧ (m'.CacheSound prm ↔ P) :=
    ⟨both.1, fun _ => free, fun _ => both.2⟩
  cases c with
  | insert => exact always (insert_keeps size numbered sound done) trivial
  | contains | containsAddr | intersects =>
    exact always (lookup_keeps size numbered sound done) trivial
  | erase p =>
    cases done
    exact always ⟨numbered.sublist filter_sublist, erase_sound sound p⟩ trivial
  | eraseRange =>
    cases done
    obtain ⟨-, -, order⟩ := accepts
    exact ⟨numbered.sublist (eraseRange_sublist order), eraseRange_sound_iff numbered sound order⟩
  | clear =>
    cases done
    exact always ⟨numbered.sublist (nil_sublist _), clear_sound size⟩ trivial

theorem step_keeps (size : 0 ≤ prm.maxCacheSize) (numbered : m.Numbered)
    (sound : m.CacheSound prm) {c : Call V} (accepts : m.Accepts c) :
    (m.step prm c).Numbered ∧ ((m.step prm c).CacheSound prm ↔ m.ForgetsAll c) := by
  rw [step]
  cases done : m.call prm c with
  | ok => exact call_keeps size numbered sound accepts done
  | error =>
    refine ⟨numbered, fun _ => ?_, fun _ => sound⟩
    cases c with
    | eraseRange => cases done
    | _ => trivial

theorem empty_sound (size : 0 ≤ prm.maxCacheSize) : (empty : NodeMap V).CacheSound prm :=
  ⟨fun _ mem => absurd mem not_mem_nil, nodup_nil, size⟩

theorem empty_numbered : (empty : NodeMap V).Numbered :=
  ⟨List.Pairwise.nil, nodup_nil, fun _ mem => absurd mem not_mem_nil⟩

/-- In every run that never erases a range with another cached node than its first, the cache is
sound and lookups find nodes of the tree; the next call keeps it sound just when it is such a
call. -/
theorem cache_never_outlives (size : 0 ≤ prm.maxCacheSize)
    (run : Runs.Reaches (step prm) (fun m c => m.Accepts c ∧ m.ForgetsAll c) (empty : NodeMap V) m) :
    m.CacheSound prm
      ∧ (∀ r cond e map', m.map.find prm r cond = .ok (some e, map') → e ∈ m.map.tree)
      ∧ ∀ c, m.Accepts c → ((m.step prm c).CacheSound prm ↔ m.ForgetsAll c) := by
  have both : m.Numbered ∧ m.CacheSound prm := by
    apply run.invariant
    · exact ⟨empty_numbered, empty_sound size⟩
    · rintro m c ⟨numbered, sound⟩ ⟨accepts, forgets⟩
      obtain ⟨numbered', kept⟩ := step_keeps size numbered sound accepts
      exact ⟨numbered', kept.mpr forgets⟩
  obtain ⟨numbered, sound⟩ := both
  refine ⟨sound, fun r cond e map' found => ?_, fun c accepts => ?_⟩
  · exact (find_sound size numbered sound found).2.2 e rfl
  · exact (step_keeps size numbered sound accepts).2

/-- A cache of three for two pages of 256 bytes, the second of which was looked up last. -/
def pagesPrm : AddrRangeMap.Params := ⟨3, 0⟩

def page (k : Nat) : AddrRange := ⟨BitVec.ofNat 64 (256 * k), BitVec.ofNat 64 (256 * k + 255), [], 0⟩

def pages : NodeMap Unit :=
  let m := step pagesPrm empty (.insert (page 0) ())
  let m := step pagesPrm m (.insert (page 1) ())
  step pagesPrm m (.containsAddr 0x120)

theorem pages_reached : Runs.Reaches (step pagesPrm)
    (fun m c => m.Accepts c ∧ m.ForgetsAll c) (empty : NodeMap Unit) pages := by
  refine .tail (Call.containsAddr 0x120)
    (.tail (Call.insert (page 1) ()) (.tail (Call.insert (page 0) ()) .refl ?_) ?_) ?_
  all_goals exact ⟨trivial, trivial⟩

theorem cache_never_outlives_pages : pages.CacheSound pagesPrm :=
  (cache_never_outlives (by decide) pages_reached).1

/-- Both pages are erased, and the iterator of the second one stays in the cache. -/
theorem erased_page_cached :
    ∃ m, Runs.Reaches (step pagesPrm) Accepts (empty : NodeMap Unit) m
      ∧ m.map.tree = [] ∧ m.map.cache = [(page 1, (1, ()))] ∧ ¬m.CacheSound pagesPrm := by
  refine ⟨pages.eraseRange (some 0) none, ?_, by decide, by decide, fun sound => ?_⟩
  · refine .tail (Call.eraseRange (some 0) none) (pages_reached.mono fun _ _ guard => guard.1) ?_
    refine ⟨?_, ?_, by decide⟩
    · intro id eq
      cases eq
      exact ⟨(page 0, (0, ())), by decide, rfl⟩
    · intro id eq
      cases eq
  · exact absurd (sound.live (page 1, (1, ())) (by decide)) (by decide)

end NodeMap

end Gem5.Base
