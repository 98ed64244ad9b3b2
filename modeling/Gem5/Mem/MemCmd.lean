import Mathlib.Algebra.GroupWithZero.Nat
import Mathlib.Logic.Function.Basic

/-!
# Memory requests

The request commands with the attributes that the caches and memories test, and the packets that
carry them. A packet has the address and the size of its request. Block and memory contents are
functions from offsets or addresses to bytes.
-/

namespace Gem5.Mem.Locked

abbrev ContextID := Nat

inductive Attribute where
  | IsRead
  | IsWrite
  | IsUpgrade
  | IsInvalidate
  | IsClean
  | IsLlsc
  | FromCache
  deriving DecidableEq, Repr

/-- The commands that are requests. -/
inductive MemCmd where
  | ReadReq
  | WriteReq
  | WritebackDirty
  | WritebackClean
  | WriteClean
  | CleanEvict
  | SoftPFReq
  | SoftPFExReq
  | HardPFReq
  | WriteLineReq
  | UpgradeReq
  | SCUpgradeReq
  | SCUpgradeFailReq
  | ReadExReq
  | ReadCleanReq
  | ReadSharedReq
  | LoadLockedReq
  | StoreCondReq
  | StoreCondFailReq
  | SwapReq
  | MessageReq
  | MemFenceReq
  | CleanSharedReq
  | CleanInvalidReq
  | PrintReq
  | FlushReq
  | InvalidateReq
  deriving DecidableEq, Repr

namespace MemCmd

open Attribute

/-- The rows of the command table. -/
def attributes : MemCmd → List Attribute
  | ReadReq => [IsRead]
  | WriteReq => [IsWrite]
  | WritebackDirty => [IsWrite, FromCache]
  | WritebackClean => [IsWrite, FromCache]
  | WriteClean => [IsWrite, FromCache]
  | CleanEvict => [FromCache]
  | SoftPFReq => [IsRead]
  | SoftPFExReq => [IsRead, IsInvalidate]
  | HardPFReq => [IsRead, FromCache]
  | WriteLineReq => [IsWrite]
  | UpgradeReq => [IsInvalidate, IsUpgrade, FromCache]
  | SCUpgradeReq => [IsInvalidate, IsUpgrade, IsLlsc, FromCache]
  | SCUpgradeFailReq => [IsRead, IsInvalidate, IsLlsc, FromCache]
  | ReadExReq => [IsRead, IsInvalidate, FromCache]
  | ReadCleanReq => [IsRead, FromCache]
  | ReadSharedReq => [IsRead, FromCache]
  | LoadLockedReq => [IsRead, IsLlsc]
  | StoreCondReq => [IsWrite, IsLlsc]
  | StoreCondFailReq => [IsWrite, IsLlsc]
  | SwapReq => [IsRead, IsWrite]
  | MessageReq => [IsWrite]
  | MemFenceReq => []
  | CleanSharedReq => [IsClean, FromCache]
  | CleanInvalidReq => [IsInvalidate, IsClean, FromCache]
  | PrintReq => []
  | FlushReq => []
  | InvalidateReq => [IsInvalidate, FromCache]

def testCmdAttrib (cmd : MemCmd) (attrib : Attribute) : Bool := cmd.attributes.contains attrib

def isRead (cmd : MemCmd) : Bool := cmd.testCmdAttrib IsRead
def isWrite (cmd : MemCmd) : Bool := cmd.testCmdAttrib IsWrite
def isUpgrade (cmd : MemCmd) : Bool := cmd.testCmdAttrib IsUpgrade
def isInvalidate (cmd : MemCmd) : Bool := cmd.testCmdAttrib IsInvalidate
def isClean (cmd : MemCmd) : Bool := cmd.testCmdAttrib IsClean
def isLLSC (cmd : MemCmd) : Bool := cmd.testCmdAttrib IsLlsc
def fromCache (cmd : MemCmd) : Bool := cmd.testCmdAttrib FromCache

theorem llsc_read {cmd : MemCmd} (isRead : cmd.isRead = true) (isLLSC : cmd.isLLSC = true) :
    cmd = .LoadLockedReq ∨ cmd = .SCUpgradeFailReq := by
  revert isRead isLLSC
  cases cmd <;> decide

end MemCmd

abbrev Bytes := Nat → UInt8

/-- `memcpy` of `n` bytes to an offset. -/
def memcpy (dst : Bytes) (offset : Nat) (src : Bytes) (n : Nat) : Bytes :=
  fun i => if offset ≤ i ∧ i < offset + n then src (i - offset) else dst i

/-- Whether the first `n` bytes are equal. -/
def memcmpEq (a b : Bytes) (n : Nat) : Bool := (List.range n).all fun i => a i == b i

/-- The bytes of a number, the least significant first. -/
def bytesOf (value : Nat) : Bytes := fun i => (value / 256 ^ i).toUInt8

/-- A request, of at least one byte; `atomicOp` is the operation of an atomic request, and the
byte enables of a masked write are a list of its size. -/
structure Request where
  paddr : Nat
  size : Nat
  contextId : Option ContextID
  byteEnable : List Bool
  atomicOp : Option (Bytes → Bytes)
  isCondSwap : Bool
  extraData : Nat
  size_pos : 0 < size

structure Packet where
  cmd : MemCmd
  req : Request
  data : Bytes
  hasSharers : Bool
  cacheResponding : Bool

namespace Packet

def getAddr (pkt : Packet) : Nat := pkt.req.paddr
def getSize (pkt : Packet) : Nat := pkt.req.size

/-- The offset in a block; a block size is a power of two. -/
def getOffset (pkt : Packet) (blkSize : Nat) : Nat := pkt.getAddr % blkSize

def isMaskedWrite (pkt : Packet) : Bool :=
  pkt.cmd == .WriteReq && ! pkt.req.byteEnable.isEmpty

def writeData (pkt : Packet) (dst : Bytes) (offset : Nat) : Bytes :=
  if pkt.isMaskedWrite then
    fun i =>
      if offset ≤ i ∧ i < offset + pkt.getSize ∧ pkt.req.byteEnable[i - offset]? = some true then
        pkt.data (i - offset)
      else dst i
  else memcpy dst offset pkt.data pkt.getSize

def setData (pkt : Packet) (src : Bytes) (offset : Nat) : Packet :=
  { pkt with data := memcpy pkt.data 0 (fun i => src (offset + i)) pkt.getSize }

def setExtraData (pkt : Packet) (extraData : Nat) : Packet :=
  { pkt with req := { pkt.req with extraData := extraData } }

/-- Whether a swap writes: it is unconditional, or the extra data are the old bytes. `none` for
a conditional swap of a size other than four and eight. -/
def overwriteMem (pkt : Packet) (old : Bytes) (offset : Nat) : Option Bool :=
  if pkt.req.isCondSwap then
    if pkt.getSize = 8 ∨ pkt.getSize = 4 then
      some (memcmpEq (bytesOf pkt.req.extraData) (fun i => old (offset + i)) pkt.getSize)
    else none
  else some true

end Packet

end Gem5.Mem.Locked
