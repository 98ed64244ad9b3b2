import Mathlib.Data.List.Basic
import Mathlib.Data.List.Induction
import Mathlib.Logic.Function.Basic
import Mathlib.Tactic.Linarith

/-!
# Functional accesses

`Packet::trySatisfyFunctional` copies the bytes that a range of memory and a packet share. A
functional read is put together from several such ranges, and a vector tells which of its bytes
have been supplied; the vector is walked with an `int`.
-/

namespace Gem5.Mem.FunctionalAccess

/-- What a pointer points to. -/
abbrev Bytes := Nat → UInt8

def uint64 (x : Int) : Nat := (x % 2 ^ 64).toNat

def intMax : Nat := 2 ^ 31 - 1

/-- `std::vector<bool>` -/
structure ByteFlags where
  size : Nat
  flag : Nat → Bool

structure Packet where
  addr : Nat
  size : Nat
  isSecure : Bool
  isPrint : Bool
  isRead : Bool
  isWrite : Bool
  data : Bytes
  bytesValid : ByteFlags

def memcpy (dst : Bytes) (to_ : Nat) (src : Bytes) (from_ size : Nat) : Bytes :=
  fun k => if to_ ≤ k ∧ k < to_ + size then src (from_ + (k - to_)) else dst k

/-- A loop that goes over so many flags from `i` on while they are set; `none` if the index
overflows. -/
def checkLoop (valid : Nat → Bool) : Nat → Nat → Option Bool
  | 0, _ => some true
  | left + 1, i =>
    if i = intMax then none else if valid i then checkLoop valid left (i + 1) else some false

/-- A loop that sets so many flags from `i` on. -/
def markLoop (valid : Nat → Bool) : Nat → Nat → Option (Nat → Bool)
  | 0, _ => some valid
  | left + 1, i =>
    if i = intMax then none else markLoop (Function.update valid i true) left (i + 1)

/-- Keeps track of the valid bytes. An offset that is no `int` makes the index negative: as an
`Addr` it is not below any bound, and as an index it is out of the vector. -/
def track (valid : Nat → Bool) (size func_offset overlap_size : Nat) :
    Option (Bool × (Nat → Bool)) :=
  (checkLoop valid func_offset 0).bind fun all_bytes_valid =>
    if intMax < func_offset then if all_bytes_valid then none else some (false, valid)
    else
      (markLoop valid overlap_size func_offset).bind fun valid =>
        if all_bytes_valid then
          (checkLoop valid (size - (func_offset + overlap_size)) (func_offset + overlap_size)).map
            fun all_bytes_valid => (all_bytes_valid, valid)
        else some (false, valid)

/-- The flags, made for all bytes when they are first used. -/
def ByteFlags.start (v : ByteFlags) : Nat → Bool := if v.size = 0 then fun _ => false else v.flag

structure Outcome where
  returned : Bool
  packet : Packet
  data : Option Bytes

/-- `none` for a failed assertion, a panic and an index that overflows. -/
def trySatisfyFunctional (p : Packet) (addr : Nat) (is_secure : Bool) (size : Int)
    (data : Option Bytes) : Option Outcome :=
  let func_start := p.addr
  let func_end := uint64 (p.addr + p.size - 1)
  let val_start := addr
  let val_end := uint64 (addr + size - 1)
  if is_secure ≠ p.isSecure ∨ val_end < func_start ∨ func_end < val_start then
    some ⟨false, p, data⟩
  else if p.isPrint then if data.isSome then none else some ⟨false, p, data⟩
  else
    match data with
    | none => some ⟨false, p, none⟩
    | some bytes =>
      let val_offset := if val_start < func_start then func_start - val_start else 0
      let func_offset := if func_start < val_start then val_start - func_start else 0
      let overlap_size := uint64 (min val_end func_end + 1 - max val_start func_start)
      if p.isRead then
        (track p.bytesValid.start p.size func_offset overlap_size).map fun (all_bytes_valid, valid) =>
          ⟨all_bytes_valid,
            { p with
              data := memcpy p.data func_offset bytes val_offset overlap_size
              bytesValid := ⟨if p.bytesValid.size = 0 then p.size else p.bytesValid.size, valid⟩ },
            some bytes⟩
      else if p.isWrite then
        some ⟨false, p, some (memcpy bytes val_offset p.data func_offset overlap_size)⟩
      else none

/-- The arguments of a call that has data. -/
structure Supply where
  addr : Nat
  isSecure : Bool
  size : Nat
  data : Bytes

def Packet.access (p : Packet) (c : Supply) : Option Outcome :=
  trySatisfyFunctional p c.addr c.isSecure c.size (some c.data)

/-- A range of bytes that does not wrap the address space. -/
def Plain (addr size : Nat) : Prop := addr < 2 ^ 64 ∧ size < 2 ^ 32 ∧ addr + size ≤ 2 ^ 64

/-- The call gets past the test for no intersection. -/
def Packet.intersects (p : Packet) (c : Supply) : Prop :=
  c.isSecure = p.isSecure ∧ p.addr ≤ uint64 (c.addr + c.size - 1) ∧
    c.addr ≤ uint64 (p.addr + p.size - 1)

/-- The call has byte `k` of the packet, in the same security space. -/
def covers (p : Packet) (c : Supply) (k : Nat) : Bool :=
  c.isSecure == p.isSecure && decide (k < p.size) && decide (c.addr ≤ p.addr + k) &&
    decide (p.addr + k < c.addr + c.size)

def accesses (p : Packet) (cs : List Supply) : Option Packet :=
  cs.foldlM (fun p c => (p.access c).map Outcome.packet) p

/-- A call that gets past the test shares a byte with the packet, as one with an empty range does
not, and no loop over the flags goes past the largest `int`: the shared bytes end before it, and if
the packet goes on there, some earlier byte is still missing after the call. -/
def Meets (p : Packet) (cs : List Supply) (c : Supply) : Prop :=
  p.intersects c →
    (∃ k, covers p c k = true) ∧ (∀ k, covers p c k = true → k < intMax) ∧
      (p.size ≤ intMax ∨ ∃ k < intMax, ∀ d ∈ cs ++ [c], covers p d k = false)

variable {p : Packet} {c : Supply} {cs : List Supply}

end Gem5.Mem.FunctionalAccess
