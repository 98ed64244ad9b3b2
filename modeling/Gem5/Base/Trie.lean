import Mathlib.Data.BitVec
import Mathlib.Logic.Function.Basic

/-!
# Tries

The functions of `Trie`. A node is read and written through its handle. Null and dangling
pointers, failed assertions and panics make an operation fail. The loops and the recursive
functions run with fuel, and fail where it runs out.
-/

namespace Gem5.Base

namespace Trie

/-- A pointer to a node that is not null. -/
abbrev Handle := Nat

structure Node (n : Nat) (Value : Type) where
  key : BitVec n
  mask : BitVec n
  value : Option Value
  parent : Option Handle
  kids : Fin 2 → Option Handle

variable {n : Nat} {Value : Type}

namespace Node

def new (key mask : BitVec n) (val : Option Value) : Node n Value :=
  ⟨key &&& mask, mask, val, none, fun _ => none⟩

def matchesKey (node : Node n Value) (test : BitVec n) : Bool := test &&& node.mask == node.key

def setKid (i : Fin 2) (kid : Option Handle) (node : Node n Value) : Node n Value :=
  { node with kids := Function.update node.kids i kid }

def setParent (parent : Option Handle) (node : Node n Value) : Node n Value :=
  { node with parent := parent }

def setValue (val : Option Value) (node : Node n Value) : Node n Value := { node with value := val }

end Node

end Trie

open Trie in
/-- The nodes that are allocated, and the handle that the next one gets. -/
structure Trie (n : Nat) (Value : Type) where
  nodes : Handle → Option (Node n Value)
  next : Handle

namespace Trie

def head : Handle := 0

def new (n : Nat) (Value : Type) : Trie n Value where
  nodes := Function.update (fun _ => none) head (some (Node.new 0 0 none))
  next := head + 1

def alloc (t : Trie n Value) (node : Node n Value) : Trie n Value × Handle :=
  (⟨Function.update t.nodes t.next (some node), t.next + 1⟩, t.next)

/-- Writes to a node. -/
def modify (t : Trie n Value) (node : Handle) (f : Node n Value → Node n Value) :
    Option (Trie n Value) :=
  (t.nodes node).map fun nd => { t with nodes := Function.update t.nodes node (some (f nd)) }

def delete (t : Trie n Value) (node : Handle) : Option (Trie n Value) :=
  (t.nodes node).map fun _ => { t with nodes := Function.update t.nodes node none }

/-- The kid, if it is not null and passes the test. -/
def kidThat (t : Trie n Value) (test : Node n Value → Bool) (kid : Option Handle) :
    Option (Option Handle) :=
  match kid with
  | none => some none
  | some kid => (t.nodes kid).map fun nd => if test nd then some kid else none

def goesAfter (t : Trie n Value) (key new_mask : BitVec n) (kid : Option Handle) :
    Option (Option Handle) :=
  t.kidThat (fun nd => nd.matchesKey key && (nd.mask &&& new_mask == nd.mask)) kid

/-- Tries to go to kid 0, and if that is not the way, to kid 1. -/
def nextKid (nd : Node n Value) (follow : Option Handle → Option (Option Handle)) :
    Option (Option Handle) := do
  match ← follow (nd.kids 0) with
  | some kid => some (some kid)
  | none => follow (nd.kids 1)

/-- The walk of `insert` past the nodes that the new one goes after. -/
def walk (t : Trie n Value) (key new_mask : BitVec n) : Nat → Handle → Option Handle
  | 0, _ => none
  | fuel + 1, node => do
    let nd ← t.nodes node
    match ← nextKid nd (t.goesAfter key new_mask) with
    | some kid => walk t key new_mask fuel kid
    | none => some node

def lookupFrom (t : Trie n Value) (key : BitVec n) : Nat → Handle → Option (Option Handle)
  | 0, _ => none
  | fuel + 1, node => do
    let nd ← t.nodes node
    if nd.value.isSome then some (some node)
    else
      match ← nextKid nd (t.kidThat (·.matchesKey key)) with
      | some kid => lookupFrom t key fuel kid
      | none => some none

def lookupHandle (fuel : Nat) (t : Trie n Value) (key : BitVec n) : Option (Option Handle) :=
  t.lookupFrom key fuel head

def lookup (fuel : Nat) (t : Trie n Value) (key : BitVec n) : Option (Option Value) := do
  match ← t.lookupHandle fuel key with
  | some node => (t.nodes node).map Node.value
  | none => some none

def extendMask (orig : BitVec n) : BitVec n := orig ||| orig >>> 1 ||| 1#n <<< (n - 1)

/-- Walks down a leg until something does not match or the bits of the new mask run out. -/
def commonMask (key kidKey new_mask : BitVec n) : Nat → BitVec n → Option (BitVec n)
  | 0, _ => none
  | fuel + 1, last_mask =>
    let cur_mask := extendMask last_mask
    if key &&& cur_mask ≠ kidKey &&& cur_mask ∨ last_mask = new_mask then some last_mask
    else commonMask key kidKey new_mask fuel cur_mask

/-- One leg of the node that the new one goes after; `some none` if it is skipped, which leaves
`cur_mask` the mask of the node. -/
def insertAt (fuel : Nat) (t : Trie n Value) (node : Handle) (key new_mask : BitVec n)
    (val : Option Value) (i : Fin 2) : Option (Option (Trie n Value × Handle)) := do
  let nd ← t.nodes node
  match nd.kids i with
  | none =>
    let (t, new_node) := t.alloc ((Node.new key new_mask val).setParent (some node))
    let t ← t.modify node (Node.setKid i (some new_node))
    some (some (t, new_node))
  | some kid =>
    let kidNode ← t.nodes kid
    let cur_mask ← commonMask key kidNode.key new_mask fuel nd.mask
    if cur_mask = nd.mask then some none
    else
      let (t, new_node) := t.alloc ((Node.new key cur_mask none).setParent (some node))
      let t ← t.modify kid (Node.setParent (some new_node))
      let t ← t.modify new_node (Node.setKid 0 (some kid))
      let t ← t.modify node (Node.setKid i (some new_node))
      if cur_mask = new_mask then
        let t ← t.modify new_node (Node.setValue val)
        some (some (t, new_node))
      else
        let (t, leaf) := t.alloc ((Node.new key new_mask val).setParent (some new_node))
        let t ← t.modify new_node (Node.setKid 1 (some leaf))
        some (some (t, leaf))

def insertMask (n width : Nat) : BitVec n :=
  if width < n then BitVec.allOnes n <<< (n - width) else BitVec.allOnes n

def insert (fuel : Nat) (t : Trie n Value) (key : BitVec n) (width : Nat) (val : Option Value) :
    Option (Trie n Value × Handle) :=
  if val.isNone then none
  else do
    let new_mask := insertMask n width
    let key := key &&& new_mask
    let node ← t.walk key new_mask fuel head
    let nd ← t.nodes node
    if nd.mask = new_mask then
      if nd.value.isSome then none
      else
        let t ← t.modify node (Node.setValue val)
        some (t, node)
    else
      match ← t.insertAt fuel node key new_mask val 0 with
      | some result => some result
      | none => (t.insertAt fuel node key new_mask val 1).join

/-- Puts a kid into the slot of its parent that holds a node. -/
def replaceKid (t : Trie n Value) (parent node : Handle) (kid : Option Handle) :
    Option (Trie n Value) := do
  let nd ← t.nodes parent
  if nd.kids 0 = some node then t.modify parent (Node.setKid 0 kid)
  else if nd.kids 1 = some node then t.modify parent (Node.setKid 1 kid)
  else none

/-- If a node has one kid, it becomes kid 0. -/
def Node.onlyKidFirst (nd : Node n Value) : Node n Value :=
  if (nd.kids 1).isSome ∧ nd.kids 0 = none then (nd.setKid 0 (nd.kids 1)).setKid 1 none else nd

/-- If there is a kid, fixes up its parent pointer. -/
def fixParent (t : Trie n Value) (kid : Option Handle) (parent : Handle) : Option (Trie n Value) :=
  match kid with
  | some kid => t.modify kid (Node.setParent (some parent))
  | none => some t

/-- The pointers of the kid, if any, and of the parent go past the node. -/
def unlink (t : Trie n Value) (parent node : Handle) (kid : Option Handle) :
    Option (Trie n Value) := do
  let t ← t.fixParent kid parent
  let t ← t.replaceKid parent node kid
  t.modify parent Node.onlyKidFirst

def remove : Nat → Trie n Value → Handle → Option (Trie n Value × Option Value)
  | 0, _, _ => none
  | fuel + 1, t, node => do
    let nd ← t.nodes node
    if (nd.kids 1).isSome then
      if nd.value.isSome then
        let t ← t.modify node (Node.setValue none)
        some (t, nd.value)
      else none
    else
      let parent ← nd.parent
      let t ← t.unlink parent node (nd.kids 0)
      let pd ← t.nodes parent
      let t ←
        if pd.kids 1 = none ∧ pd.value = none ∧ pd.parent.isSome then
          (remove fuel t parent).map Prod.fst
        else some t
      let t ← t.delete node
      some (t, nd.value)

def removeKey (fuel : Nat) (t : Trie n Value) (key : BitVec n) :
    Option (Trie n Value × Option Value) := do
  match ← t.lookupHandle fuel key with
  | some node => remove fuel t node
  | none => some (t, none)

/-- Clears what is under a kid and deletes the kid. -/
def clearKid (clear : Trie n Value → Handle → Option (Trie n Value)) (t : Trie n Value)
    (node : Handle) (i : Fin 2) : Option (Trie n Value) := do
  let nd ← t.nodes node
  match nd.kids i with
  | none => some t
  | some kid =>
    let t ← clear t kid
    let t ← t.delete kid
    t.modify node (Node.setKid i none)

def clearNode : Nat → Trie n Value → Handle → Option (Trie n Value)
  | 0, _, _ => none
  | fuel + 1, t, node => do
    let t ← clearKid (clearNode fuel) t node 1
    clearKid (clearNode fuel) t node 0

def clear (fuel : Nat) (t : Trie n Value) : Option (Trie n Value) := clearNode fuel t head

end Trie

end Gem5.Base
