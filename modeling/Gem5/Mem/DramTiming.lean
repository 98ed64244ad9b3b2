import Mathlib.Algebra.GroupWithZero.Nat
import Mathlib.Data.List.Basic
import Mathlib.Logic.Function.Basic

/-!
# The timing of DRAM commands

For each bank the controller keeps the earliest ticks of its next commands. An access activates
the row of a packet, after a precharge if another row is open, and issues a column command.
Refresh and power-down are left out; a function fails where the source asserts or panics.
-/

namespace Gem5.Mem.Dram

inductive PageManage where
  | openPage
  | openAdaptive
  | closePage
  | closeAdaptive
  deriving DecidableEq

/-- The configuration, with the checks of the constructor on it. -/
structure Timings where
  ranksPerChannel : Nat
  banksPerRank : Nat
  bankGroupsPerRank : Nat
  activationLimit : Nat
  maxAccessesPerRow : Nat
  pageMgmt : PageManage
  tBURST : Nat
  tCCD_L : Nat
  tCCD_L_WR : Nat
  tCL : Nat
  tCS : Nat
  tRAS : Nat
  tRCD : Nat
  tRP : Nat
  tRRD : Nat
  tRRD_L : Nat
  tRTP : Nat
  tRTW : Nat
  tWR : Nat
  tWTR : Nat
  tXAW : Nat
  groups : 0 < bankGroupsPerRank →
    bankGroupsPerRank ≤ banksPerRank ∧ banksPerRank % bankGroupsPerRank = 0 ∧
      tBURST < tCCD_L ∧ tBURST < tCCD_L_WR ∧ tRRD ≤ tRRD_L

namespace Timings

variable (prm : Timings)

abbrev RankId := Fin prm.ranksPerChannel

abbrev BankId := Fin prm.banksPerRank

def rankToRankDly : Nat := prm.tCS + prm.tBURST

def wrToRdDly : Nat := prm.tCL + prm.tBURST + prm.tWTR

def rdToWrDly : Nat := prm.tRTW + prm.tBURST

/-- The group of a bank, a `uint8_t`. -/
def bankgr (b : prm.BankId) : Nat :=
  (if 0 < prm.bankGroupsPerRank then b.val % prm.bankGroupsPerRank else b.val) % 256

/-- `bankGroupArch`, and the two banks are of one group. -/
def SameGroup (b i : prm.BankId) : Prop :=
  0 < prm.bankGroupsPerRank ∧ prm.bankgr b = prm.bankgr i

instance (b i : prm.BankId) : Decidable (prm.SameGroup b i) := inferInstanceAs (Decidable (_ ∧ _))

/-- From an activate of the bank `b` to one of the bank `i`. -/
def actGap (b i : prm.BankId) : Nat := if prm.SameGroup b i then prm.tRRD_L else prm.tRRD

/-- `dly_to_rd_cmd`, from a command to the bank `b` of the rank `r`. -/
def dlyToRd (isRead : Bool) (r : prm.RankId) (b : prm.BankId) (j : prm.RankId) (i : prm.BankId) :
    Nat :=
  if r = j then
    if prm.SameGroup b i then
      if isRead then prm.tCCD_L else max prm.tCCD_L prm.wrToRdDly
    else if isRead then prm.tBURST else prm.wrToRdDly
  else prm.rankToRankDly

/-- `dly_to_wr_cmd`. -/
def dlyToWr (isRead : Bool) (r : prm.RankId) (b : prm.BankId) (j : prm.RankId) (i : prm.BankId) :
    Nat :=
  if r = j then
    if prm.SameGroup b i then
      if isRead then max prm.tCCD_L prm.rdToWrDly else prm.tCCD_L_WR
    else if isRead then prm.rdToWrDly else prm.tBURST
  else prm.rankToRankDly

end Timings

/-- No row is open where `openRow` is `NO_ROW`. -/
structure Bank where
  openRow : Option Nat
  rdAllowedAt : Nat
  wrAllowedAt : Nat
  preAllowedAt : Nat
  actAllowedAt : Nat
  rowAccesses : Nat

/-- The last activates are in front of `actTicks`. -/
structure Rank (prm : Timings) where
  banks : prm.BankId → Bank
  numBanksActive : Nat
  actTicks : List Nat

inductive MemCommand where
  | act
  | pre
  | rd
  | wr
  deriving DecidableEq

structure Command (prm : Timings) where
  type : MemCommand
  rank : prm.RankId
  bank : prm.BankId
  timeStamp : Nat

/-- What an access needs of the packet; the last two say what the adaptive policies find in the
queues. -/
structure Access (prm : Timings) where
  curTick : Nat
  rank : prm.RankId
  bank : prm.BankId
  row : Nat
  isRead : Bool
  gotMoreHits : Bool
  gotBankConflict : Bool

/-- The commands of all ranks, newest first. -/
structure Channel (prm : Timings) where
  ranks : prm.RankId → Rank prm
  nextBurstAt : Nat
  cmdList : List (Command prm)

namespace Channel

variable {prm : Timings} (t : Channel prm)

def bank (r : prm.RankId) (b : prm.BankId) : Bank := (t.ranks r).banks b

/-- The channel after `startup` at the tick `start`. -/
def new (prm : Timings) (start : Nat) : Channel prm where
  ranks _ := ⟨fun _ => ⟨none, 0, 0, 0, 0, 0⟩, 0, List.replicate prm.activationLimit 0⟩
  nextBurstAt := start + prm.tRP + prm.tRCD
  cmdList := []

def setRank (r : prm.RankId) (rank : Rank prm) : Channel prm :=
  { t with ranks := Function.update t.ranks r rank }

/-- A difference of ticks, which are unsigned. -/
def elapsed (actTick back : Nat) : Nat :=
  if back ≤ actTick then actTick - back else actTick + 2 ^ 64 - back

/-- The bank of an activate, and what the activate allows in its rank. -/
def enforceRRD (rank : Rank prm) (b : prm.BankId) (actTick row : Nat) : Rank prm :=
  let bank := { rank.banks b with
    openRow := some row
    rowAccesses := 0
    preAllowedAt := actTick + prm.tRAS
    rdAllowedAt := max (actTick + prm.tRCD) (rank.banks b).rdAllowedAt
    wrAllowedAt := max (actTick + prm.tRCD) (rank.banks b).wrAllowedAt }
  let banks := Function.update rank.banks b bank
  { rank with
    banks := fun i => { banks i with
      actAllowedAt := max (actTick + prm.actGap b i) (banks i).actAllowedAt }
    numBanksActive := rank.numBanksActive + 1 }

/-- The activation window. -/
def enforceXAW (rank : Rank prm) (actTick : Nat) : Option (Rank prm) :=
  let back := rank.actTicks.getLastD 0
  if rank.actTicks = [] then some rank
  else if back ≠ 0 ∧ elapsed actTick back < prm.tXAW then none
  else
    let actTicks := actTick :: rank.actTicks.dropLast
    let back := actTicks.getLastD 0
    let banks :=
      if back ≠ 0 ∧ elapsed actTick back < prm.tXAW then
        fun i => { rank.banks i with
          actAllowedAt := max (back + prm.tXAW) (rank.banks i).actAllowedAt }
      else rank.banks
    some { rank with banks := banks, actTicks := actTicks }

def activateBank (r : prm.RankId) (b : prm.BankId) (actTick row : Nat) : Option (Channel prm) :=
  if (t.ranks r).actTicks.length = prm.activationLimit ∧ (t.bank r b).openRow = none ∧
      (t.ranks r).numBanksActive + 1 ≤ prm.banksPerRank then do
    let rank ← enforceXAW (enforceRRD (t.ranks r) b actTick row) actTick
    some { t.setRank r rank with cmdList := ⟨.act, r, b, actTick⟩ :: t.cmdList }
  else none

/-- The channel after a precharge. -/
def precharged (r : prm.RankId) (b : prm.BankId) (preAt : Nat) : Channel prm :=
  let bank := { t.bank r b with
    openRow := none
    preAllowedAt := preAt
    actAllowedAt := max (t.bank r b).actAllowedAt (preAt + prm.tRP) }
  let rank := { t.ranks r with
    banks := Function.update (t.ranks r).banks b bank
    numBanksActive := (t.ranks r).numBanksActive - 1 }
  { t.setRank r rank with cmdList := ⟨.pre, r, b, preAt⟩ :: t.cmdList }

def prechargeBank (r : prm.RankId) (b : prm.BankId) (preAt : Nat) : Option (Channel prm) :=
  if (t.bank r b).openRow ≠ none ∧ (t.ranks r).numBanksActive ≠ 0 then
    some (t.precharged r b preAt)
  else none

/-- The row of the access, opened if it is not open. -/
def openRow (a : Access prm) : Option (Channel prm) :=
  if (t.bank a.rank a.bank).openRow = some a.row then some t
  else do
    let t ←
      if (t.bank a.rank a.bank).openRow ≠ none then
        t.prechargeBank a.rank a.bank (max (t.bank a.rank a.bank).preAllowedAt a.curTick)
      else some t
    t.activateBank a.rank a.bank (max (t.bank a.rank a.bank).actAllowedAt a.curTick) a.row

/-- When the column command is issued. -/
def cmdAt (a : Access prm) : Nat :=
  let bank := t.bank a.rank a.bank
  let colAllowedAt := if a.isRead then bank.rdAllowedAt else bank.wrAllowedAt
  max (max colAllowedAt t.nextBurstAt) a.curTick

def readyTime (a : Access prm) : Nat := t.cmdAt a + prm.tCL + prm.tBURST

/-- The column command, and the ticks that it allows. -/
def column (a : Access prm) : Channel prm :=
  let cmdAt := t.cmdAt a
  let ranks := fun j => { t.ranks j with
    banks := fun i => { t.bank j i with
      rdAllowedAt := max (cmdAt + prm.dlyToRd a.isRead a.rank a.bank j i) (t.bank j i).rdAllowedAt
      wrAllowedAt := max (cmdAt + prm.dlyToWr a.isRead a.rank a.bank j i)
        (t.bank j i).wrAllowedAt } }
  let rank := ranks a.rank
  let bank := rank.banks a.bank
  let bank := { bank with
    preAllowedAt := max bank.preAllowedAt
      (if a.isRead then cmdAt + prm.tRTP else t.readyTime a + prm.tWR)
    rowAccesses := (bank.rowAccesses + 1) % 2 ^ 32 }
  let rank := { rank with banks := Function.update rank.banks a.bank bank }
  { ranks := Function.update ranks a.rank rank
    nextBurstAt := cmdAt + prm.tBURST
    cmdList := ⟨if a.isRead then .rd else .wr, a.rank, a.bank, cmdAt⟩ :: t.cmdList }

/-- Whether the access closes its row. -/
def autoPrecharge (a : Access prm) : Bool :=
  let always := prm.pageMgmt = .closePage ∨
    (t.bank a.rank a.bank).rowAccesses = prm.maxAccessesPerRow
  let adaptive := prm.pageMgmt = .openAdaptive ∨ prm.pageMgmt = .closeAdaptive
  decide always || (decide adaptive && !a.gotMoreHits &&
    (a.gotBankConflict || decide (prm.pageMgmt = .closeAdaptive)))

/-- The channel after the access, and `readyTime` of the packet. -/
def doDRAMAccess (a : Access prm) : Option (Channel prm × Nat) := do
  let t ← t.openRow a
  let readyTime := t.readyTime a
  let t := t.column a
  let t ←
    if t.autoPrecharge a then
      t.prechargeBank a.rank a.bank (max a.curTick (t.bank a.rank a.bank).preAllowedAt)
    else some t
  some (t, readyTime)

end Channel

/-- The response queue holds the ready times of its packets, `respondEvent` the tick that the event
is scheduled for. The ready times of all packets are in `readyTimes`, newest first. -/
structure TimedQueue (prm : Timings) where
  channel : Channel prm
  respQueue : List Nat
  respondEvent : Option Nat
  readyTimes : List Nat
  curTick : Nat

namespace TimedQueue

variable {prm : Timings} (q : TimedQueue prm)

/-- After `startup` at the tick `start`. -/
def new (prm : Timings) (start : Nat) : TimedQueue prm :=
  ⟨Channel.new prm start, [], none, [], start⟩

/-- A read goes into the response queue, in `processNextReqEvent`. -/
def pushResponse (curTick readyTime : Nat) : Option (TimedQueue prm) :=
  if readyTime < curTick then none
  else
    match q.respQueue.getLast? with
    | none =>
      if q.respondEvent = none then
        some { q with respQueue := [readyTime], respondEvent := some readyTime }
      else none
    | some back =>
      if back ≤ readyTime ∧ q.respondEvent ≠ none then
        some { q with respQueue := q.respQueue ++ [readyTime] }
      else none

/-- The queue without its first packet, at the tick `curTick` of the respond event. -/
def processRespondEvent (curTick : Nat) : Option (TimedQueue prm) :=
  match q.respQueue with
  | [] => none
  | [_] => some { q with respQueue := [], respondEvent := none }
  | _ :: front :: rest =>
    if curTick ≤ front then
      some { q with respQueue := front :: rest, respondEvent := some front }
    else none

inductive Event (prm : Timings) where
  | access (a : Access prm)
  | respond

def step : Event prm → Option (TimedQueue prm)
  | .access a => do
    let (channel, readyTime) ← q.channel.doDRAMAccess a
    let q := { q with
      channel := channel, readyTimes := readyTime :: q.readyTimes, curTick := a.curTick }
    if a.isRead then q.pushResponse a.curTick readyTime else some q
  | .respond => q.respondEvent.bind q.processRespondEvent

/-- Accesses come at positive ticks that do not decrease, and the respond event when it is
scheduled. -/
def Offered : Event prm → Prop
  | .access a => 0 < a.curTick ∧ q.curTick ≤ a.curTick
  | .respond => q.respondEvent ≠ none

instance : ∀ e, Decidable (q.Offered e)
  | .access _ => inferInstanceAs (Decidable (_ ∧ _))
  | .respond => inferInstanceAs (Decidable (_ ≠ _))

end TimedQueue

end Gem5.Mem.Dram
