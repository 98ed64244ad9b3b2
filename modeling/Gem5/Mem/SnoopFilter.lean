import Gem5.Lib.Runs
import Mathlib.Data.Finmap

/-!
# The snoop filter of a crossbar

For each line the filter keeps the ports with a request in flight and the ports that hold the
line. A function fails where the source panics; the asserts on the kind of a packet stop the
simulator and change nothing, and are left out.
-/

namespace Gem5.Mem.Snoop

open Past

/-- A port is named by its identifier. -/
structure SlavePort where
  id : Nat
  isSnooping : Bool
  deriving DecidableEq

/-- What the filter tests of a packet and its request. -/
structure Packet where
  addr : Nat
  isSecure : Bool
  isUncacheable : Bool
  isCacheMaintenance : Bool
  fromCache : Bool
  needsResponse : Bool
  isInvalidate : Bool
  cacheResponding : Bool
  isBlockCached : Bool
  hasSharers : Bool

abbrev SnoopMask := BitVec 256

structure SnoopItem where
  requested : SnoopMask
  holder : SnoopMask

/-- The ports of the crossbar; no more of them snoop than a mask has bits. -/
structure Params where
  ports : List SlavePort
  linesize : Nat
  lookupLatency : Nat
  maxEntryCount : Nat
  distinct : ports.Nodup
  fits : (ports.filter (·.isSnooping)).length ≤ 256

/-- `slavePorts`, the ports to track. -/
def Params.slavePorts (prm : Params) : List SlavePort := prm.ports.filter (·.isSnooping)

/-- The tracked ports are numbered in order. -/
def Params.localSlavePortIds (prm : Params) (port : SlavePort) : Nat := prm.slavePorts.idxOf port

/-- `reqLookupResult` is the line it points to. -/
structure SnoopFilter where
  cachedLocations : Finmap fun _ : Nat => SnoopItem
  reqLookupResult : Option Nat
  retryItem : SnoopItem

namespace SnoopFilter

def new : SnoopFilter := ⟨∅, none, ⟨0, 0⟩⟩

def portToMask (prm : Params) (port : SlavePort) : SnoopMask :=
  if port.isSnooping then 1#256 <<< prm.localSlavePortIds port else 0

def maskToPortList (prm : Params) (mask : SnoopMask) : List SlavePort :=
  prm.slavePorts.filter fun p => mask &&& portToMask prm p != 0

/-- The address of the line, with `LineSecure` for the secure one. -/
def lineAddr (prm : Params) (addr : Nat) (isSecure : Bool) : Nat :=
  (addr - (addr &&& (prm.linesize - 1))) ||| (if isSecure then 1 else 0)

def setItem (sf : SnoopFilter) (line : Nat) (item : SnoopItem) : SnoopFilter :=
  { sf with cachedLocations := sf.cachedLocations.insert line item }

def eraseIfNullEntry (sf : SnoopFilter) (line : Nat) : SnoopFilter :=
  match sf.cachedLocations.lookup line with
  | none => sf
  | some item =>
    if item.requested ||| item.holder = 0 then
      { sf with cachedLocations := sf.cachedLocations.erase line }
    else sf

/-- The ports to snoop, and the latency of the lookup. -/
abbrev Selected := List SlavePort × Nat

/-- Whether a request has the filter allocate an entry. -/
def allocates (pkt : Packet) (port : SlavePort) : Bool :=
  ! pkt.isUncacheable && port.isSnooping && pkt.fromCache

/-- What a request of a cache does to the entry. -/
def requestItem (pkt : Packet) (mask : SnoopMask) (item : SnoopItem) : Option SnoopItem :=
  if pkt.needsResponse then
    if ! pkt.cacheResponding then
      -- "double request"
      if item.requested &&& mask ≠ 0 then none
      else some { item with requested := item.requested ||| mask }
    -- "Need to hold the value!"
    else if item.holder &&& mask = 0 then none
    else some item
  -- "requester is not a holder"
  else if item.holder &&& mask = 0 then none
  else if ! pkt.isBlockCached then some { item with holder := item.holder &&& ~~~mask }
  else some item

def lookupRequest (prm : Params) (sf : SnoopFilter) (pkt : Packet) (port : SlavePort) :
    Option (SnoopFilter × Selected) :=
  let line := lineAddr prm pkt.addr pkt.isSecure
  let mask := portToMask prm port
  let found := sf.cachedLocations.lookup line
  if found.isNone && ! allocates pkt port then
    some ({ sf with reqLookupResult := none }, [], prm.lookupLatency)
  else
    let item := found.getD ⟨0, 0⟩
    let interested := item.holder ||| item.requested
    let sf := { (if found.isNone then sf.setItem line ⟨0, 0⟩ else sf) with
      reqLookupResult := some line
      retryItem := item }
    let selected := (maskToPortList prm (interested &&& ~~~mask), prm.lookupLatency)
    if ! allocates pkt port then some (sf, selected)
    else
      match requestItem pkt mask item with
      | none => none
      | some item => some (sf.setItem line item, selected)

def finishRequest (prm : Params) (sf : SnoopFilter) (willRetry : Bool) (addr : Nat)
    (isSecure : Bool) : Option SnoopFilter :=
  match sf.reqLookupResult with
  | none => some sf
  | some line =>
    if line ≠ lineAddr prm addr isSecure then none
    else
      let sf := if willRetry then sf.setItem line sf.retryItem else sf
      some (sf.eraseIfNullEntry line)

def lookupSnoop (prm : Params) (sf : SnoopFilter) (pkt : Packet) : Option (SnoopFilter × Selected) :=
  let line := lineAddr prm pkt.addr pkt.isSecure
  match sf.cachedLocations.lookup line with
  | none =>
    -- "snoop filter exceeded capacity"
    if prm.maxEntryCount ≤ sf.cachedLocations.keys.card then none
    else some (sf, [], prm.lookupLatency)
  | some item =>
    let interested := item.holder ||| item.requested
    let sf :=
      if pkt.isInvalidate && item.requested == 0 then sf.setItem line { item with holder := 0 } else sf
    some (sf.eraseIfNullEntry line, maskToPortList prm interested, prm.lookupLatency)

/-- A snoop response to a request of the same crossbar. -/
def updateSnoopResponse (prm : Params) (sf : SnoopFilter) (pkt : Packet) (rspPort reqPort : SlavePort) :
    Option SnoopFilter :=
  if pkt.isUncacheable || ! reqPort.isSnooping then some sf
  else
    let line := lineAddr prm pkt.addr pkt.isSecure
    let rspMask := portToMask prm rspPort
    let reqMask := portToMask prm reqPort
    -- the map makes an entry where there is none
    let item := (sf.cachedLocations.lookup line).getD ⟨0, 0⟩
    -- "does not have the line"
    if item.holder &&& rspMask = 0 then none
    -- "missing the original request"
    else if item.requested &&& reqMask = 0 then none
    else
      let holder := if ! pkt.hasSharers then 0 else item.holder
      some (sf.setItem line ⟨item.requested &&& ~~~reqMask, holder ||| reqMask⟩)

def updateSnoopForward (prm : Params) (sf : SnoopFilter) (pkt : Packet) : Option SnoopFilter :=
  let line := lineAddr prm pkt.addr pkt.isSecure
  match sf.cachedLocations.lookup line with
  | none => some sf
  | some item =>
    let sf := if ! pkt.hasSharers then sf.setItem line { item with holder := 0 } else sf
    some (sf.eraseIfNullEntry line)

def updateResponse (prm : Params) (sf : SnoopFilter) (pkt : Packet) (port : SlavePort) :
    Option SnoopFilter :=
  if pkt.isUncacheable || ! port.isSnooping then some sf
  else
    let line := lineAddr prm pkt.addr pkt.isSecure
    let mask := portToMask prm port
    match sf.cachedLocations.lookup line with
    | none => some sf
    | some item =>
      -- "missing request bit"
      if item.requested &&& mask = 0 then none
      else
        let requested := item.requested &&& ~~~mask
        if pkt.isCacheMaintenance then
          let holder := if pkt.isInvalidate then item.holder &&& ~~~mask else item.holder
          some ((sf.setItem line ⟨requested, holder⟩).eraseIfNullEntry line)
        else some (sf.setItem line ⟨requested, item.holder ||| mask⟩)

/-- A request is looked up and finished. -/
inductive Call where
  | request (pkt : Packet) (port : SlavePort) (willRetry : Bool)
  | lookupSnoop (pkt : Packet)
  | updateSnoopResponse (pkt : Packet) (rspPort reqPort : SlavePort)
  | updateSnoopForward (pkt : Packet)
  | updateResponse (pkt : Packet) (port : SlavePort)

def request (prm : Params) (sf : SnoopFilter) (pkt : Packet) (port : SlavePort) (willRetry : Bool) :
    Option (SnoopFilter × Selected) :=
  match sf.lookupRequest prm pkt port with
  | none => none
  | some (sf, selected) =>
    (sf.finishRequest prm willRetry pkt.addr pkt.isSecure).map fun sf => (sf, selected)

/-- A call, with the ports to snoop where it returns them. -/
def call (prm : Params) (sf : SnoopFilter) : Call → Option (SnoopFilter × Option Selected)
  | .request pkt port willRetry =>
    (sf.request prm pkt port willRetry).map fun r => (r.1, some r.2)
  | .lookupSnoop pkt => (sf.lookupSnoop prm pkt).map fun r => (r.1, some r.2)
  | .updateSnoopResponse pkt rspPort reqPort =>
    (sf.updateSnoopResponse prm pkt rspPort reqPort).map fun sf => (sf, none)
  | .updateSnoopForward pkt => (sf.updateSnoopForward prm pkt).map fun sf => (sf, none)
  | .updateResponse pkt port => (sf.updateResponse prm pkt port).map fun sf => (sf, none)

/-- The ports of a call are ports of the crossbar. -/
def Known (prm : Params) : Call → Prop
  | .request _ port _ => port ∈ prm.ports
  | .lookupSnoop _ => True
  | .updateSnoopResponse _ rspPort reqPort => rspPort ∈ prm.ports ∧ reqPort ∈ prm.ports
  | .updateSnoopForward _ => True
  | .updateResponse _ port => port ∈ prm.ports

end SnoopFilter

end Gem5.Mem.Snoop
