import Gem5.Lib.Bits
import Mathlib.Data.List.Sort

/-!
# Address ranges

A range from a start to an end address, both included. Each interleaving mask selects a set
of address bits whose parity is one bit of the select value; the range contains the addresses
whose select value is its match value.
-/

namespace Gem5.Base

abbrev Addr := BitVec 64

def maxAddr : Addr := BitVec.allOnes 64

/-- The number of bits that are set. -/
def popCount (val : Addr) : Nat := (List.range 64).countP val.getLsbD

/-- The number of trailing zeros, or 64. -/
def ctz64 (value : Addr) : Nat := ((List.range 64).find? value.getLsbD).getD 64

/-- `insertBits(val, first, 0, bit_val)`; the first bit may be -1. -/
def insertBitsFromZero (val : Addr) (first : Int) (bitVal : Addr) : Addr :=
  let bmask := mask 64 (first + 1).toNat
  (bitVal &&& bmask) ||| (val &&& ~~~bmask)

structure AddrRange where
  start : Addr
  stop : Addr
  masks : List Addr
  intlvMatch : BitVec 8
  deriving DecidableEq, Repr

namespace AddrRange

/-- The constructor with masks; `none` where its check is fatal. -/
def ofMasks (start stop : Addr) (masks : List Addr) (intlvMatch : BitVec 8) :
    Option AddrRange :=
  if masks ≠ [] ∧ 2 ^ masks.length ≤ intlvMatch.toNat then none
  else some ⟨start, stop, masks, intlvMatch⟩

def interleaved (r : AddrRange) : Bool := ! r.masks.isEmpty

/-- `(_end - _start + 1) >> masks.size()` -/
def size (r : AddrRange) : Addr := (r.stop - r.start + 1) >>> r.masks.length

/-- The loop of `contains` from mask `i` on; `sel` is an `int`. -/
def select (a : Addr) : Nat → List Addr → BitVec 32 → BitVec 32
  | _, [], sel => sel
  | i, m :: masks, sel =>
    select a (i + 1) masks (sel ||| (BitVec.ofNat 32 (popCount (a &&& m) % 2) <<< i))

def inRange (r : AddrRange) (a : Addr) : Bool := r.start ≤ a && a ≤ r.stop

def contains (r : AddrRange) (a : Addr) : Bool :=
  r.inRange a && select a 0 r.masks 0 == r.intlvMatch.setWidth 32

/-- One round of the loop of `removeIntlvBits`. -/
def removeBit (a : Addr) (i intlvBit : Nat) : Addr :=
  if 0 < intlvBit then insertBitsFromZero (a >>> 1) (intlvBit - i - 1) a else a >>> 1

def removeBits : Nat → List Nat → Addr → Addr
  | _, [], a => a
  | i, intlvBit :: lsbs, a => removeBits (i + 1) lsbs (removeBit a i intlvBit)

/-- The lowest bit of each mask, sorted. -/
def masksLsb (masks : List Addr) : List Nat := (masks.map ctz64).insertionSort (· ≤ ·)

def removeIntlvBits (r : AddrRange) (a : Addr) : Addr := removeBits 0 (masksLsb r.masks) a

def getOffset (r : AddrRange) (a : Addr) : Addr :=
  if ! r.inRange a then maxAddr
  else if r.interleaved then r.removeIntlvBits a - r.removeIntlvBits r.start
  else a - r.start

end AddrRange

end Gem5.Base
