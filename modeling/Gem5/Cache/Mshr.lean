import Gem5.Mem.MemCmd
import Mathlib.Data.List.TakeWhile

/-!
# The targets of a miss

A miss status holding register has the targets that the next response serves and those deferred
to a later one. The flag `downstreamPending` of the registers of other caches is theirs; here only
the own one is kept. Asserts that stop the simulator and change nothing are left out.
-/

namespace Gem5.Cache.Mshr

open Gem5.Mem.Locked (MemCmd)

def needsWritable (cmd : MemCmd) : Bool :=
  [.WriteReq, .SoftPFExReq, .WriteLineReq, .UpgradeReq, .SCUpgradeReq, .SCUpgradeFailReq, .ReadExReq,
    .StoreCondReq, .StoreCondFailReq, .SwapReq, .FlushReq, .InvalidateReq].contains cmd

def needsResponse (cmd : MemCmd) : Bool :=
  ! [.WritebackDirty, .WritebackClean, .WriteClean, .CleanEvict, .PrintReq, .FlushReq].contains cmd

/-- What is tested of a packet, of its request's flags, and whether a register of a cache above is
on its way back. -/
structure Packet where
  cmd : MemCmd
  isUncacheable : Bool
  isCacheClean : Bool
  isCacheInvalidate : Bool
  noMerge : Bool
  offset : Nat
  size : Nat
  isExpressSnoop : Bool
  fromMshr : Bool

def Packet.isCacheMaintenance (pkt : Packet) : Bool := pkt.isCacheClean || pkt.isCacheInvalidate

inductive Source where
  | fromCPU
  | fromSnoop
  | fromPrefetcher
  deriving DecidableEq

structure Target where
  pkt : Packet
  readyTime : Nat
  order : Nat
  source : Source
  markedPending : Bool
  allocOnFill : Bool

structure TargetList where
  list : List Target
  needsWritable : Bool
  hasUpgrade : Bool
  allocOnFill : Bool
  hasFromCache : Bool
  onlyWrites : Bool
  writesBitmap : List Bool

namespace TargetList

def isWholeLineWrite (l : TargetList) : Bool := l.onlyWrites && l.writesBitmap.all id

def updateWriteFlags (l : TargetList) (pkt : Packet) : TargetList :=
  if l.isWholeLineWrite then l
  else
    let onlyWrites := l.onlyWrites && (pkt.cmd.isWrite && ! pkt.noMerge)
    { l with
      onlyWrites := onlyWrites
      writesBitmap :=
        if onlyWrites then l.writesBitmap.mapIdx fun i written =>
          written || (decide (pkt.offset ≤ i) && decide (i < pkt.offset + pkt.size))
        else l.writesBitmap }

def updateFlags (l : TargetList) (pkt : Packet) (source : Source) (allocOnFill : Bool) : TargetList :=
  if source = .fromSnoop then l
  else
    let l := { l with
      needsWritable := l.needsWritable || Mshr.needsWritable pkt.cmd
      hasUpgrade := l.hasUpgrade || pkt.cmd.isUpgrade || pkt.cmd == .StoreCondReq
      allocOnFill := l.allocOnFill || allocOnFill }
    if source = .fromPrefetcher then l
    else { l with hasFromCache := l.hasFromCache || pkt.cmd.fromCache }.updateWriteFlags pkt

def resetFlags (l : TargetList) : TargetList :=
  { l with
    onlyWrites := true
    writesBitmap := l.writesBitmap.map fun _ => false
    needsWritable := false
    hasUpgrade := false
    allocOnFill := false
    hasFromCache := false }

/-- The targets stay. -/
def init (l : TargetList) (blkSize : Nat) : TargetList :=
  { l with writesBitmap := List.replicate blkSize false }.resetFlags

def populateFlags (l : TargetList) : TargetList :=
  l.list.foldl (fun l t => l.updateFlags t.pkt t.source t.allocOnFill) l.resetFlags

def add (l : TargetList) (pkt : Packet) (readyTime order : Nat) (source : Source)
    (markPending allocOnFill : Bool) : TargetList :=
  let l := l.updateFlags pkt source allocOnFill
  { l with list := l.list ++
      [⟨pkt, readyTime, order, source, markPending && pkt.fromMshr, allocOnFill⟩] }

end TargetList

def replaceUpgrade (pkt : Packet) : Packet :=
  match pkt.cmd with
  | .UpgradeReq => { pkt with cmd := .ReadExReq }
  | .SCUpgradeReq => { pkt with cmd := .SCUpgradeFailReq }
  | .StoreCondReq => { pkt with cmd := .StoreCondFailReq }
  | _ => pkt

namespace TargetList

def replaceUpgrades (l : TargetList) : TargetList :=
  if l.hasUpgrade then
    { l with list := l.list.map fun t => { t with pkt := replaceUpgrade t.pkt }, hasUpgrade := false }
  else l

end TargetList

def clearMarks (targets : List Target) : List Target :=
  targets.map fun t => { t with markedPending := false }

def TargetList.clearDownstreamPending (l : TargetList) : TargetList :=
  { l with list := clearMarks l.list }

structure MSHR where
  blkSize : Nat
  order : Nat
  readyTime : Nat
  inService : Bool
  downstreamPending : Bool
  pendingModified : Bool
  postInvalidate : Bool
  postDowngrade : Bool
  wasWholeLineWrite : Bool
  isForward : Bool
  targets : TargetList
  deferredTargets : TargetList

/-- What a snoop is told. -/
structure SnoopMarks where
  cacheResponding : Bool := false
  responderHadWritable : Bool := false
  satisfied : Bool := false
  hasSharers : Bool := false

namespace MSHR

def new : MSHR where
  blkSize := 0
  order := 0
  readyTime := 0
  inService := false
  downstreamPending := false
  pendingModified := false
  postInvalidate := false
  postDowngrade := false
  wasWholeLineWrite := false
  isForward := false
  targets := ⟨[], false, false, false, false, true, []⟩
  deferredTargets := ⟨[], false, false, false, false, true, []⟩

def allocate (m : MSHR) (blkSize : Nat) (target : Packet) (whenReady order : Nat)
    (allocOnFill : Bool) : MSHR :=
  let source := if target.cmd = .HardPFReq then .fromPrefetcher else .fromCPU
  { m with
    blkSize := blkSize
    readyTime := whenReady
    order := order
    isForward := false
    wasWholeLineWrite := false
    inService := false
    downstreamPending := false
    targets := (m.targets.init blkSize).add target whenReady order source true allocOnFill
    deferredTargets := m.deferredTargets.init blkSize }

def clearDownstreamPending (m : MSHR) : MSHR :=
  { m with downstreamPending := false, targets := m.targets.clearDownstreamPending }

def markInService (m : MSHR) (pendingModifiedResp : Bool) : MSHR :=
  { m with
    inService := true
    pendingModified := m.targets.needsWritable || pendingModifiedResp
    postInvalidate := false
    postDowngrade := false
    targets := if m.downstreamPending then m.targets else m.targets.clearDownstreamPending
    wasWholeLineWrite := m.targets.isWholeLineWrite }

/-- Whether a new target has to wait for the response after the next one. -/
def defers (m : MSHR) (front : Target) (pkt : Packet) : Bool :=
  pkt.isCacheMaintenance || front.pkt.isCacheMaintenance || ! m.deferredTargets.list.isEmpty ||
    m.inService && (m.postInvalidate ||
      needsWritable pkt.cmd && (! m.pendingModified || m.postDowngrade || m.isForward))

def allocateTarget (m : MSHR) (pkt : Packet) (whenReady order : Nat) (allocOnFill : Bool) :
    Option MSHR :=
  match m.targets.list with
  | [] => none
  | front :: _ =>
    if m.defers front pkt then
      let pkt := if m.inService && m.postInvalidate then replaceUpgrade pkt else pkt
      some { m with
        deferredTargets := m.deferredTargets.add pkt whenReady order .fromCPU true allocOnFill }
    else
      some { m with
        targets := m.targets.add pkt whenReady order .fromCPU (! m.inService) allocOnFill }

/-- The copy of a snoop that is kept: of the packet, or with a block of its own. -/
def snoopCopy (m : MSHR) (pkt : Packet) (willRespond : Bool) : Packet :=
  if willRespond then { pkt with isExpressSnoop := false }
  else { pkt with isExpressSnoop := false, offset := 0, size := m.blkSize, fromMshr := false }

/-- `handleSnoop`, with whether the register took the snoop. -/
def handleSnoop (m : MSHR) (pkt : Packet) (order curTick : Nat) : Option (MSHR × Bool × SnoopMarks) :=
  let invalidates := needsWritable pkt.cmd || pkt.isCacheInvalidate
  -- "got snoop where needsWritable does not match isInvalidate"
  if needsWritable pkt.cmd ≠ pkt.cmd.isInvalidate && ! pkt.isCacheMaintenance then none
  else if ! m.inService || pkt.isExpressSnoop && m.downstreamPending then
    if invalidates then
      some ({ m with
        targets := m.targets.replaceUpgrades
        deferredTargets := m.deferredTargets.replaceUpgrades }, false, {})
    else some (m, false, {})
  else
    let m := if invalidates then { m with deferredTargets := m.deferredTargets.replaceUpgrades } else m
    match m.targets.list with
    | [] => none
    | front :: _ =>
      if m.postInvalidate || front.pkt.isCacheInvalidate then some (m, true, {})
      else
        let willRespond := m.pendingModified && needsResponse pkt.cmd && ! pkt.cmd.isClean
        let keep := m.pendingModified || pkt.cmd.isInvalidate
        let shares := ! needsWritable pkt.cmd && ! pkt.isUncacheable
        let marks : SnoopMarks := {
          cacheResponding := keep && willRespond
          responderHadWritable := keep && willRespond
          satisfied := keep && ! willRespond && (m.pendingModified && pkt.cmd.isClean)
          hasSharers := shares }
        let m := if keep then { m with
            targets := m.targets.add (m.snoopCopy pkt willRespond) curTick order .fromSnoop
              (m.downstreamPending && m.targets.needsWritable) false
            postInvalidate := m.postInvalidate || (needsWritable pkt.cmd || pkt.cmd.isInvalidate) }
          else m
        some ({ m with postDowngrade := m.postDowngrade || shares }, true, marks)

/-- The targets that a response serves; `invalidate` says that it is a `ReadRespWithInvalidate`. -/
def extractServiceableTargets (m : MSHR) (invalidate : Bool) : Option (MSHR × TargetList) :=
  let ready := (⟨[], false, false, false, false, true, []⟩ : TargetList).init m.blkSize
  if invalidate then
    match m.targets.list with
    | [] => none
    | front :: rest =>
      some ({ m with
          targets := { m.targets with
            list := rest.filter fun t => decide (t.source = Source.fromCPU) }.populateFlags },
        { ready with
          list := front :: rest.filter fun t => ! decide (t.source = Source.fromCPU) }.populateFlags)
  else some ({ m with targets := ready.populateFlags }, m.targets)

/-- `promoteDeferredTargets`, with whether there are targets for a new request. -/
def promoteDeferredTargets (m : MSHR) (curTick : Nat) : Option (MSHR × Bool) :=
  if m.targets.list.isEmpty && m.deferredTargets.list.isEmpty then some (m, false)
  else
    let early := m.deferredTargets.list.takeWhile fun t => ! t.pkt.isCacheMaintenance
    let promoted :=
      if ! early.isEmpty then early
      else if m.targets.list.isEmpty then m.deferredTargets.list.take 1
      else []
    let targets := { m.targets with list := m.targets.list ++ promoted }.populateFlags
    let deferredTargets := { m.deferredTargets with
      list := m.deferredTargets.list.drop promoted.length }.populateFlags
    match targets.list with
    | [] => none
    | front :: _ =>
      some ({ m with
        targets := targets
        deferredTargets := deferredTargets
        order := front.order
        readyTime := max curTick front.readyTime }, true)

/-- The first deferred targets for which the condition holds become targets. -/
def promoteIf (m : MSHR) (pred : Target → Bool) : MSHR :=
  { m with
    targets := { m.targets with
      list := m.targets.list ++ clearMarks (m.deferredTargets.list.takeWhile pred) }
    deferredTargets := { m.deferredTargets with
      list := m.deferredTargets.list.dropWhile pred }.populateFlags }

def promoteReadable (m : MSHR) : MSHR :=
  if ! m.deferredTargets.list.isEmpty && ! m.postInvalidate then
    m.promoteIf fun t => ! t.pkt.isCacheInvalidate && ! needsWritable t.pkt.cmd
  else m

def promoteWritable (m : MSHR) : MSHR :=
  if m.deferredTargets.needsWritable && ! (m.postInvalidate || m.postDowngrade) then
    { m with targets := { m.targets with needsWritable := true } }.promoteIf
      fun t => ! t.pkt.isCacheInvalidate
  else m

def getNumTargets (m : MSHR) : Nat := m.targets.list.length + m.deferredTargets.list.length

def deallocate (m : MSHR) : MSHR :=
  { m with targets := m.targets.resetFlags, inService := false }

inductive Promotion where
  | readable
  | writable

def promote (m : MSHR) : Promotion → MSHR
  | .readable => m.promoteReadable
  | .writable => m.promoteWritable

/-- A response: targets are promoted, the serviceable ones taken, and the register is issued again
or freed. The last part says whether it is freed. -/
def response (m : MSHR) (promotions : List Promotion) (invalidate : Bool) (curTick : Nat) :
    Option (MSHR × TargetList × Bool) :=
  match (promotions.foldl promote m).extractServiceableTargets invalidate with
  | none => none
  | some (m, served) =>
    match m.promoteDeferredTargets curTick with
    | none => none
    | some (m, true) => some ({ m with inService := false }, served, false)
    | some (m, false) => some (m.deallocate, served, true)

end MSHR

end Gem5.Cache.Mshr
