import Gem5.FlexCPU.Isa
import Gem5.Lib.Tiles
import Mathlib.Data.List.Perm.Basic

/-!
# The fragments of a split access

`SplitDataRequest` of the load/store queue cuts an access that crosses lines
(`makeFragmentRequests`) and puts the responses together again (`retireResponse`). Addresses
have 64 bits and sizes 32. A failed assertion and an access outside of an array have no
result. A vector of byte enables that is empty enables every byte.
-/

namespace Gem5.Minor

open FlexCPU (Addr)

/-- `unsigned int`. -/
abbrev Size := BitVec 32

abbrev Size.addr (size : Size) : Addr := size.setWidth 64

def addrBlockOffset (addr blockSize : Addr) : Addr := addr &&& (blockSize - 1)

def transferNeedsBurst (addr : Addr) (size blockSize : Size) : Bool :=
  blockSize.addr < addrBlockOffset addr blockSize.addr + size.addr

structure FragmentRequest where
  vaddr : Addr
  size : Size
  byteEnable : List Bool := []
  deriving DecidableEq

/-- What `pushRequest` passes to a split request, and the width of a line. -/
structure SplitAccessParams where
  vaddr : Addr
  size : Size
  byteEnable : List Bool
  lineWidth : Size

namespace SplitAccessParams

variable (p : SplitAccessParams)

def endAddr : Addr := p.vaddr + p.size.addr

def firstFragmentOffset : Size := (addrBlockOffset p.vaddr p.lineWidth.addr).setWidth 32

def lastFragmentSize : Size := (addrBlockOffset (p.vaddr + p.size.addr) p.lineWidth.addr).setWidth 32

def firstFragmentSize : Size := p.lineWidth - p.firstFragmentOffset

def middleFragmentsTotalSize : Size := p.size - (p.firstFragmentSize + p.lastFragmentSize)

def middleFragmentCount : Size := p.middleFragmentsTotalSize / p.lineWidth

/-- `numFragments` before the loop. -/
def fragmentCount : Size :=
  1 + p.middleFragmentCount + if p.lastFragmentSize = 0 then 0 else 1

/-- The two assertions before the loop. -/
def asserts : Bool :=
  addrBlockOffset p.middleFragmentsTotalSize.addr p.lineWidth.addr == 0
    && p.middleFragmentCount * p.lineWidth + p.firstFragmentSize + p.lastFragmentSize == p.size

/-- The size of the fragment that starts at `fragmentAddr`. -/
def fragmentSize (fragmentAddr : Addr) : Size :=
  if fragmentAddr = p.vaddr then p.firstFragmentSize
  else if p.endAddr < fragmentAddr + p.lineWidth.addr then (p.endAddr - fragmentAddr).setWidth 32
  else p.lineWidth

/-- The elements between `it_start` and `it_end`. -/
def enabled (fragmentAddr : Addr) (size : Size) : Option (List Bool) :=
  let start := (fragmentAddr - p.vaddr).toNat
  if start + size.toNat ≤ p.byteEnable.length then
    some ((p.byteEnable.drop start).take size.toNat)
  else none

/-- The fragment that starts at an address, unless no byte of it is enabled. -/
def makeFragment (fragmentAddr : Addr) (size : Size) : Option (Option FragmentRequest) :=
  if p.byteEnable.isEmpty then some (some ⟨fragmentAddr, size, []⟩)
  else (p.enabled fragmentAddr size).map fun byteEnable =>
    if byteEnable.any id then some ⟨fragmentAddr, size, byteEnable⟩ else none

end SplitAccessParams

/-- The variables of the loop of `makeFragmentRequests`. -/
structure FragmentLoop where
  fragmentAddr : Addr
  fragmentRequests : List FragmentRequest := []
  numDisabledFragments : Size := 0

namespace FragmentLoop

def turn (p : SplitAccessParams) (s : FragmentLoop) : Option FragmentLoop :=
  let size := p.fragmentSize s.fragmentAddr
  (p.makeFragment s.fragmentAddr size).map fun
    | some fragment =>
      { s with
        fragmentAddr := s.fragmentAddr + size.addr
        fragmentRequests := s.fragmentRequests ++ [fragment] }
    | none =>
      { s with
        fragmentAddr := s.fragmentAddr + size.addr
        numDisabledFragments := s.numDisabledFragments + 1 }

def loop (p : SplitAccessParams) : Nat → FragmentLoop → Option FragmentLoop
  | 0, s => some s
  | n + 1, s => (s.turn p).bind (loop p n)

end FragmentLoop

/-- What `makeFragmentRequests` leaves in the request. -/
structure MadeFragments where
  numFragments : Size
  fragmentRequests : List FragmentRequest
  deriving DecidableEq

def SplitAccessParams.makeFragmentRequests (p : SplitAccessParams) : Option MadeFragments :=
  if p.asserts then
    (FragmentLoop.loop p p.fragmentCount.toNat { fragmentAddr := p.vaddr }).bind fun s =>
      if s.numDisabledFragments ≤ p.fragmentCount then
        some ⟨p.fragmentCount - s.numDisabledFragments, s.fragmentRequests⟩
      else none
  else none

/-- A byte of data. -/
abbrev DataByte := BitVec 8

/-- `memcpy` of `size` bytes to `dst + offset`. -/
def memcpy (dst : List DataByte) (offset : Nat) (src : List DataByte) (size : Nat) :
    Option (List DataByte) :=
  if offset + size ≤ dst.length ∧ size ≤ src.length then
    some (dst.take offset ++ src.take size ++ dst.drop (offset + size))
  else none

/-- The response to a fragment. -/
structure FragmentResponse where
  req : FragmentRequest
  data : List DataByte
  isError : Bool := false

/-- A split load whose fragments have been translated. Memory that has been allocated but
not yet written holds the bytes of `fresh`. -/
structure SplitLoad where
  vaddr : Addr
  size : Size
  fresh : List DataByte
  numTranslatedFragments : Nat
  numIssuedFragments : Nat
  numRetiredFragments : Nat := 0
  skipped : Bool := false
  complete : Bool := false
  data : Option (List DataByte) := none
  packet : List DataByte
  packetError : Bool := false
  packetIsResponse : Bool := false

namespace SplitLoad

def hasPacketsInMemSystem (x : SplitLoad) : Bool :=
  x.numIssuedFragments != x.numRetiredFragments

/-- Take the answer to one fragment in. -/
def absorb (x : SplitLoad) (response : FragmentResponse) : Option SplitLoad :=
  if x.skipped then some x
  else if response.isError then some { x with skipped := true, packetError := true }
  else
    (memcpy (x.data.getD x.fresh) (response.req.vaddr - x.vaddr).toNat response.data
      response.req.size.toNat).map fun data => { x with data := some data }

/-- Copy the data into the packet for the whole request once it is all there. -/
def finish (x : SplitLoad) : Option SplitLoad :=
  if !x.skipped && x.complete then
    let data := x.data.getD x.fresh
    (memcpy x.packet 0 data x.size.toNat).map fun packet =>
      { x with data := some data, packet := packet, packetIsResponse := true }
  else some x

/-- `SplitDataRequest::retireResponse` of a load; a read needs a response. -/
def retireResponse (x : SplitLoad) (response : FragmentResponse) : Option SplitLoad :=
  if x.numRetiredFragments < x.numTranslatedFragments then
    (({ x with numRetiredFragments := x.numRetiredFragments + 1 } : SplitLoad).absorb
        response).bind fun x =>
      let x :=
        if x.skipped && !x.hasPacketsInMemSystem then
          { x with complete := true, packetIsResponse := true }
        else x
      let x :=
        if x.numRetiredFragments = x.numTranslatedFragments then { x with complete := true }
        else x
      x.finish
  else none

end SplitLoad

end Gem5.Minor
