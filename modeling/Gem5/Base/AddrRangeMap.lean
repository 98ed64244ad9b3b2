import Gem5.Base.AddrRange
import Mathlib.Data.Prod.Lex

/-!
# The address range map

A sorted map from ranges to values with a short list of recently used entries. A search tries
the list, then the first entry above the key of the range, then walks back from there through
entries that merge.
-/

namespace Gem5.Base

inductive Panic where
  | testIntersection
  | testSubset
  deriving DecidableEq, Repr

namespace AddrRange

/-- `operator<` -/
def lt (l r : AddrRange) : Bool :=
  if l.start ≠ r.start then l.start < r.start else l.intlvMatch < r.intlvMatch

def mergesWith (r s : AddrRange) : Bool :=
  s.start == r.start && s.stop == r.stop && s.masks == r.masks

/-- The masks are combined in an `int`; `overshift` is what a shift by the full width gives. -/
def granularity (overshift : Addr) (r : AddrRange) : Addr :=
  if r.interleaved then
    let combinedMask : BitVec 32 := r.masks.foldl (fun c m => c ||| m.setWidth 32) 0
    let lowestBit := ctz64 (combinedMask.signExtend 64)
    if lowestBit = 64 then overshift else 1#64 <<< lowestBit
  else r.size

def intersects (r s : AddrRange) : Except Panic Bool :=
  if s.stop < r.start ∨ r.stop < s.start then .ok false
  else if ! r.interleaved && ! s.interleaved then .ok true
  else if s.size == 1 then .ok (r.contains s.start)
  else if r.mergesWith s then .ok (r.intlvMatch == s.intlvMatch)
  else .error .testIntersection

def isSubset (overshift : Addr) (r s : AddrRange) : Except Panic Bool :=
  if r.interleaved then .error .testSubset
  else if s.interleaved then
    .ok (s.contains r.start && s.contains r.stop && r.size ≤ s.granularity overshift)
  else .ok (s.start ≤ r.start && r.stop ≤ s.stop)

/-- `RangeSize` -/
def ofSize (start size : Addr) : AddrRange := ⟨start, start + size - 1, [], 0⟩

end AddrRange

/-- The entries by increasing key, and the cache of iterators, most recent first. -/
structure AddrRangeMap (V : Type) where
  tree : List (AddrRange × V)
  cache : List (AddrRange × V)

namespace AddrRangeMap

variable {V : Type}

/-- `max_cache_size`, and the value of a shift that the language leaves undefined. -/
structure Params where
  maxCacheSize : Int
  overshift : Addr

/-- `addNewEntryToCache`; the size is compared as a `size_t`. -/
def addNewEntryToCache (prm : Params) (it : AddrRange × V) (m : AddrRangeMap V) :
    AddrRangeMap V :=
  if prm.maxCacheSize ≠ 0 then
    if prm.maxCacheSize % 2 ^ 64 ≤ m.cache.length then
      if 1 < prm.maxCacheSize then { m with cache := it :: m.cache.dropLast }
      else { m with cache := m.cache.dropLast ++ [it] }
    else { m with cache := it :: m.cache }
  else m

/-- The loop over the cache; a hit comes with the cache in which it is promoted. -/
def scanCache (cond : AddrRange → Except Panic Bool) (seen : List (AddrRange × V)) :
    List (AddrRange × V) →
      Except Panic (Option ((AddrRange × V) × List (AddrRange × V)))
  | [] => .ok none
  | it :: rest => do
    if ← cond it.1 then pure (some (it, it :: (seen.reverse ++ rest)))
    else scanCache cond (it :: seen) rest

/-- The `do` loop; the list is what lies before the current entry, nearest first. -/
def walk (cond : AddrRange → Except Panic Bool) :
    List (AddrRange × V) → Except Panic (Option (AddrRange × V))
  | [] => .ok none
  | i :: rest => do
    if ← cond i.1 then pure (some i)
    else
      match rest with
      | [] => pure none
      | next :: _ => if next.1.mergesWith i.1 then walk cond rest else pure none

/-- The entries from `tree.upper_bound(r)` on. -/
def above (m : AddrRangeMap V) (r : AddrRange) : List (AddrRange × V) :=
  m.tree.dropWhile fun e => ! r.lt e.1

def below (m : AddrRangeMap V) (r : AddrRange) : List (AddrRange × V) :=
  m.tree.takeWhile fun e => ! r.lt e.1

/-- The search of the tree. -/
def search (m : AddrRangeMap V) (r : AddrRange) (cond : AddrRange → Except Panic Bool) :
    Except Panic (Option (AddrRange × V)) :=
  match m.above r with
  | [] => walk cond (m.below r).reverse
  | next :: _ => do
    if ← cond next.1 then pure (some next) else walk cond (m.below r).reverse

def find (prm : Params) (m : AddrRangeMap V) (r : AddrRange)
    (cond : AddrRange → Except Panic Bool) :
    Except Panic (Option (AddrRange × V) × AddrRangeMap V) := do
  match ← scanCache cond [] m.cache with
  | some (it, cache) => pure (some it, { m with cache := cache })
  | none =>
    match ← m.search r cond with
    | some it => pure (some it, m.addNewEntryToCache prm it)
    | none => pure (none, m)

/-- `contains(Addr)` -/
def contains (prm : Params) (m : AddrRangeMap V) (a : Addr) :
    Except Panic (Option (AddrRange × V) × AddrRangeMap V) :=
  m.find prm (AddrRange.ofSize a 1) fun s =>
    (AddrRange.ofSize a 1).isSubset prm.overshift s

/-- `std::map::insert`, which keeps an entry of an equivalent key. -/
def treeInsert (e : AddrRange × V) : List (AddrRange × V) → List (AddrRange × V)
  | [] => [e]
  | x :: tree =>
    if e.1.lt x.1 then e :: x :: tree
    else if x.1.lt e.1 then x :: treeInsert e tree
    else x :: tree

/-- Whether the range was accepted comes with the map. -/
def insert (prm : Params) (m : AddrRangeMap V) (r : AddrRange) (d : V) :
    Except Panic (Bool × AddrRangeMap V) := do
  match ← m.find prm r r.intersects with
  | (some _, m) => pure (false, m)
  | (none, m) => pure (true, { m with tree := treeInsert (r, d) m.tree })

inductive Reachable (prm : Params) : AddrRangeMap V → Prop where
  | empty : Reachable prm ⟨[], []⟩
  | insert {m m' : AddrRangeMap V} {accepted : Bool} (r : AddrRange) (d : V) :
    Reachable prm m → m.insert prm r d = .ok (accepted, m') → Reachable prm m'
  | contains {m m' : AddrRangeMap V} {found : Option (AddrRange × V)} (a : Addr) :
    Reachable prm m → m.contains prm a = .ok (found, m') → Reachable prm m'

end AddrRangeMap

end Gem5.Base
