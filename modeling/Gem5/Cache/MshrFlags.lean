import Gem5.Cache.Mshr
import Gem5.Lib.Runs
import Mathlib.Data.Fintype.Order
import Mathlib.Data.Multiset.Lattice
import Mathlib.Order.CompletePartialOrder

/-!
# The flags of the target lists

The flags of a list are the join of what its targets add, so that they can be kept up while targets
are added. A promotion moves targets from one list to the other and counts anew for one of the two.
-/

namespace Gem5.Cache.Mshr

open Multiset

open Gem5.Mem.Locked (MemCmd)
open Runs

/-- `needsWritable`, `hasUpgrade`, `allocOnFill` and `hasFromCache`. -/
abbrev Flags := Bool × Bool × Bool × Bool

def TargetList.flags (l : TargetList) : Flags :=
  (l.needsWritable, l.hasUpgrade, l.allocOnFill, l.hasFromCache)

/-- The flags are those of the targets that are in the list. -/
def TargetList.Describes (l : TargetList) : Prop := l.flags = l.populateFlags.flags

structure MSHR.Described (m : MSHR) : Prop where
  targets : m.targets.Describes
  deferredTargets : m.deferredTargets.Describes

/-- What a target adds to the flags. -/
def flagsOf (pkt : Packet) (source : Source) (allocOnFill : Bool) : Flags :=
  if source = .fromSnoop then (false, false, false, false)
  else (needsWritable pkt.cmd, pkt.cmd.isUpgrade || pkt.cmd == .StoreCondReq, allocOnFill,
    ! decide (source = .fromPrefetcher) && pkt.cmd.fromCache)

def Target.flags (t : Target) : Flags := flagsOf t.pkt t.source t.allocOnFill

noncomputable def summary (targets : List Target) : Flags := (Multiset.ofList (targets.map Target.flags)).sup

variable {m m' : MSHR} {l : TargetList} {targets more : List Target}

@[simp] theorem summary_nil : summary [] = ⊥ := sup_zero

@[simp] theorem summary_cons (t : Target) (targets : List Target) :
    summary (t :: targets) = t.flags ⊔ summary targets := by
  rw [summary, List.map_cons, ← cons_coe, sup_cons, summary]

@[simp] theorem summary_append (targets more : List Target) :
    summary (targets ++ more) = summary targets ⊔ summary more := by
  rw [summary, List.map_append, ← coe_add, Multiset.sup_add, summary, summary]

@[simp] theorem summary_clearMarks (targets : List Target) :
    summary (clearMarks targets) = summary targets := by
  rw [summary, clearMarks, List.map_map]
  rfl

@[simp] theorem flags_updateWriteFlags (l : TargetList) (pkt : Packet) :
    (l.updateWriteFlags pkt).flags = l.flags := by
  rw [TargetList.updateWriteFlags]
  split <;> rfl

@[simp] theorem list_updateWriteFlags (l : TargetList) (pkt : Packet) :
    (l.updateWriteFlags pkt).list = l.list := by
  rw [TargetList.updateWriteFlags]
  split <;> rfl

@[simp] theorem flags_updateFlags (l : TargetList) (pkt : Packet) (source : Source) (alloc : Bool) :
    (l.updateFlags pkt source alloc).flags = l.flags ⊔ flagsOf pkt source alloc := by
  rw [TargetList.updateFlags, flagsOf]
  cases source with
  | fromSnoop => exact (sup_bot_eq _).symm
  | fromPrefetcher => simp [TargetList.flags, Bool.or_assoc]
  | fromCPU =>
    refine (flags_updateWriteFlags _ pkt).trans ?_
    simp [TargetList.flags, Bool.or_assoc]

@[simp] theorem list_updateFlags (l : TargetList) (pkt : Packet) (source : Source) (alloc : Bool) :
    (l.updateFlags pkt source alloc).list = l.list := by
  rw [TargetList.updateFlags]
  split
  · rfl
  · grind [list_updateWriteFlags]

theorem populateFlags_spec (l : TargetList) :
    l.populateFlags.flags = summary l.list ∧ l.populateFlags.list = l.list := by
  have general : ∀ (targets : List Target) (l : TargetList),
      (targets.foldl (fun l t => l.updateFlags t.pkt t.source t.allocOnFill) l).flags
          = l.flags ⊔ summary targets ∧
        (targets.foldl (fun l t => l.updateFlags t.pkt t.source t.allocOnFill) l).list = l.list := by
    intro targets
    induction targets with
    | nil => exact fun l => ⟨(sup_bot_eq _).symm, rfl⟩
    | cons t targets ih =>
      intro l
      obtain ⟨flags, list⟩ := ih (l.updateFlags t.pkt t.source t.allocOnFill)
      rw [List.foldl_cons]
      refine ⟨?_, list.trans (list_updateFlags l _ _ _)⟩
      rw [flags, flags_updateFlags, summary_cons, sup_assoc]
      rfl
  obtain ⟨flags, list⟩ := general l.list l.resetFlags
  exact ⟨flags.trans (bot_sup_eq _), list⟩

theorem describes_iff : l.Describes ↔ l.flags = summary l.list := by
  rw [TargetList.Describes, (populateFlags_spec l).1]

theorem describes_populateFlags (l : TargetList) : l.populateFlags.Describes := by
  obtain ⟨flags, list⟩ := populateFlags_spec l
  rw [describes_iff, flags, list]

theorem describes_resetFlags (none : l.list = []) : l.resetFlags.Describes :=
  describes_iff.mpr (by rw [show l.resetFlags.list = [] from none, summary_nil]; rfl)

theorem TargetList.Describes.add (describes : l.Describes) (pkt : Packet) (readyTime order : Nat)
    (source : Source) (mark alloc : Bool) :
    (l.add pkt readyTime order source mark alloc).Describes := by
  have flags := flags_updateFlags l pkt source alloc
  rw [describes_iff] at describes ⊢
  rw [describes] at flags
  rw [TargetList.add]
  rw [summary_append, list_updateFlags, summary_cons, summary_nil, sup_bot_eq]
  exact flags

theorem TargetList.Describes.clearDownstreamPending (describes : l.Describes) :
    l.clearDownstreamPending.Describes := by
  rw [describes_iff] at describes ⊢
  exact describes.trans (summary_clearMarks l.list).symm

theorem flagsOf_replaceUpgrade (pkt : Packet) (source : Source) (alloc : Bool) :
    flagsOf (replaceUpgrade pkt) source alloc = flagsOf pkt source alloc ⊓ (true, false, true, true) := by
  obtain ⟨cmd, _⟩ := pkt
  cases source <;> cases cmd <;> cases alloc <;> rfl

theorem TargetList.Describes.replaceUpgrades (describes : l.Describes) :
    l.replaceUpgrades.Describes := by
  rw [TargetList.replaceUpgrades]
  split
  case isFalse => exact describes
  case isTrue upgrades =>
    have replaced : ∀ targets : List Target,
        summary (targets.map fun t => { t with pkt := replaceUpgrade t.pkt })
          = summary targets ⊓ (true, false, true, true) := by
      intro targets
      induction targets with
      | nil => exact (bot_inf_eq _).symm
      | cons t targets ih =>
        rw [List.map_cons, summary_cons, summary_cons, inf_sup_right, ih]
        exact congrArg (· ⊔ _) (flagsOf_replaceUpgrade _ _ _)
    rw [describes_iff] at describes ⊢
    rw [replaced, ← describes]
    simp [TargetList.flags]

namespace MSHR

theorem Described.allocate (free : m.getNumTargets = 0) (blkSize : Nat) (target : Packet)
    (whenReady order : Nat) (alloc : Bool) :
    (m.allocate blkSize target whenReady order alloc).Described := by
  obtain ⟨targets, deferred⟩ := Nat.add_eq_zero_iff.mp free
  exact ⟨(describes_resetFlags (l := { m.targets with
      writesBitmap := List.replicate blkSize false }) (List.length_eq_zero_iff.mp targets)).add ..,
    describes_resetFlags (l := { m.deferredTargets with
      writesBitmap := List.replicate blkSize false }) (List.length_eq_zero_iff.mp deferred)⟩

theorem Described.allocateTarget (described : m.Described) {pkt : Packet} {whenReady order : Nat}
    {alloc : Bool} (done : m.allocateTarget pkt whenReady order alloc = some m') :
    m'.Described := by
  rw [MSHR.allocateTarget] at done
  split at done
  · cases done
  · split at done
    · cases done
      exact ⟨described.targets, described.deferredTargets.add ..⟩
    · cases done
      exact ⟨described.targets.add .., described.deferredTargets⟩

theorem Described.handleSnoop (described : m.Described) {pkt : Packet} {order curTick : Nat}
    {took : Bool} {marks : SnoopMarks}
    (done : m.handleSnoop pkt order curTick = some (m', took, marks)) : m'.Described := by
  rw [MSHR.handleSnoop] at done
  dsimp only at done
  split at done
  · cases done
  split at done
  · split at done
    · cases done
      exact ⟨described.targets.replaceUpgrades, described.deferredTargets.replaceUpgrades⟩
    · cases done
      exact described
  · have start : (if (needsWritable pkt.cmd || pkt.isCacheInvalidate) = true then { m with
        deferredTargets := m.deferredTargets.replaceUpgrades } else m).Described := by
      split
      · exact ⟨described.targets, described.deferredTargets.replaceUpgrades⟩
      · exact described
    generalize (if (needsWritable pkt.cmd || pkt.isCacheInvalidate) = true then { m with
      deferredTargets := m.deferredTargets.replaceUpgrades } else m) = m₁ at done start
    split at done
    · cases done
    split at done
    · cases done
      exact start
    · cases done
      split
      · exact ⟨start.targets.add .., start.deferredTargets⟩
      · exact ⟨start.targets, start.deferredTargets⟩

theorem Described.markInService (described : m.Described) (resp : Bool) :
    (m.markInService resp).Described := by
  refine ⟨?_, described.deferredTargets⟩
  rw [MSHR.markInService]
  split
  · exact described.targets
  · exact described.targets.clearDownstreamPending

theorem Described.extractServiceableTargets (described : m.Described) {invalidate : Bool}
    {served : TargetList} (done : m.extractServiceableTargets invalidate = some (m', served)) :
    m'.Described := by
  rw [MSHR.extractServiceableTargets] at done
  split at done
  · split at done
    · cases done
    · cases done
      exact ⟨describes_populateFlags _, described.deferredTargets⟩
  · cases done
    exact ⟨describes_populateFlags _, described.deferredTargets⟩

theorem Described.promoteDeferredTargets (described : m.Described) {curTick : Nat} {again : Bool}
    (done : m.promoteDeferredTargets curTick = some (m', again)) : m'.Described := by
  rw [MSHR.promoteDeferredTargets] at done
  split at done
  · cases done
    exact described
  · dsimp only at done
    split at done
    · cases done
    · cases done
      exact ⟨describes_populateFlags _, describes_populateFlags _⟩

/-- The deferred targets in front that a readable block serves. -/
def readable (m : MSHR) : List Target :=
  m.deferredTargets.list.takeWhile fun t => ! t.pkt.isCacheInvalidate && ! needsWritable t.pkt.cmd

def writable (m : MSHR) : List Target :=
  m.deferredTargets.list.takeWhile fun t => ! t.pkt.isCacheInvalidate

/-- No target that is promoted has a flag which the targets lack. -/
def ReadableFits (m : MSHR) : Prop :=
  m.postInvalidate = false → ∀ t ∈ m.readable, t.flags ≤ m.targets.flags

/-- Some target that is promoted needs a writable block, and none has another flag which the targets
lack. -/
def WritableFits (m : MSHR) : Prop :=
  m.deferredTargets.needsWritable = true → m.postInvalidate = false → m.postDowngrade = false →
    (∃ t ∈ m.writable, t.flags.1 = true) ∧ ∀ t ∈ m.writable, t.flags ≤ (true, m.targets.flags.2)

end MSHR

/-- The operations, what frees a register or issues it again, and what the cache and the registers
of other caches set. -/
inductive Operation where
  | allocate (blkSize : Nat) (target : Packet) (whenReady order : Nat) (allocOnFill : Bool)
  | allocateTarget (pkt : Packet) (whenReady order : Nat) (allocOnFill : Bool)
  | handleSnoop (pkt : Packet) (order curTick : Nat)
  | markInService (pendingModifiedResp : Bool)
  | markPending
  | promoteReadable
  | promoteWritable
  | extractServiceableTargets (invalidate : Bool)
  | promoteDeferredTargets (curTick : Nat)
  | deallocate
  | clearDownstreamPending
  | setDownstreamPending
  | setForward (isForward : Bool)

/-- The promotions fit. -/
def Fits (m : MSHR) : Operation → Prop
  | .promoteReadable => m.ReadableFits
  | .promoteWritable => m.WritableFits
  | _ => True

/-- A packet of four bytes of a request that may clean the block. -/
def request (cmd : MemCmd) (clean : Bool) : Packet :=
  ⟨cmd, false, clean, false, false, 0, 4, false, false⟩

end Gem5.Cache.Mshr
