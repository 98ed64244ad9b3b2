import Gem5.Cache.Mshr
import Gem5.Lib.Runs

/-!
# Every target is served once

A target is known by its order and its source, which no operation changes. The targets and the
deferred targets together are one queue: what is promoted stays in its place, and only a response
takes from it.
-/

namespace Gem5.Cache.Mshr

open List

open Gem5.Mem.Locked (MemCmd)
open Runs

variable {m m' : MSHR}

/-- What a target is known by. -/
abbrev Label := Nat × Source

def label (t : Target) : Label := (t.order, t.source)

def TargetList.labels (l : TargetList) : List Label := l.list.map label

/-- The labels of the targets that wait, the deferred ones last. -/
def MSHR.waiting (m : MSHR) : List Label := m.targets.labels ++ m.deferredTargets.labels

def isCPU (l : Label) : Bool := l.2 = .fromCPU

@[simp] theorem labels_updateWriteFlags (l : TargetList) (pkt : Packet) :
    (l.updateWriteFlags pkt).labels = l.labels := by
  rw [TargetList.updateWriteFlags]
  split <;> rfl

@[simp] theorem labels_updateFlags (l : TargetList) (pkt : Packet) (source : Source) (alloc : Bool) :
    (l.updateFlags pkt source alloc).labels = l.labels := by
  rw [TargetList.updateFlags]
  split
  · rfl
  · dsimp only
    split
    · rfl
    · exact labels_updateWriteFlags _ pkt

@[simp] theorem labels_resetFlags (l : TargetList) : l.resetFlags.labels = l.labels := rfl

@[simp] theorem labels_init (l : TargetList) (blkSize : Nat) : (l.init blkSize).labels = l.labels := rfl

@[simp] theorem labels_populateFlags (l : TargetList) : l.populateFlags.labels = l.labels := by
  have general : ∀ (targets : List Target) (l : TargetList),
      (targets.foldl (fun l t => l.updateFlags t.pkt t.source t.allocOnFill) l).labels = l.labels := by
    intro targets
    induction targets with
    | nil => exact fun _ => rfl
    | cons t targets ih => simp_all
  exact (general l.list l.resetFlags).trans (labels_resetFlags l)

@[simp] theorem labels_replaceUpgrades (l : TargetList) : l.replaceUpgrades.labels = l.labels := by
  rw [TargetList.replaceUpgrades]
  split
  · exact List.map_map
  · rfl

theorem map_clearMarks (targets : List Target) : (clearMarks targets).map label = targets.map label :=
  List.map_map

@[simp] theorem labels_clearDownstreamPending (l : TargetList) :
    l.clearDownstreamPending.labels = l.labels :=
  map_clearMarks l.list

@[simp] theorem labels_add (l : TargetList) (pkt : Packet) (readyTime order : Nat) (source : Source)
    (mark alloc : Bool) :
    (l.add pkt readyTime order source mark alloc).labels = l.labels ++ [(order, source)] := by
  have same := labels_updateFlags l pkt source alloc
  rw [TargetList.labels] at same
  rw [TargetList.add, TargetList.labels, map_append, same]
  rfl

theorem list_eq_nil_iff (l : TargetList) : l.list = [] ↔ l.labels = [] := List.map_eq_nil_iff.symm

theorem waiting_promoteIf (m : MSHR) (pred : Target → Bool) :
    (m.promoteIf pred).waiting = m.waiting := by
  rw [MSHR.waiting, MSHR.promoteIf]
  rw [labels_populateFlags, TargetList.labels, TargetList.labels, map_append, map_clearMarks,
    List.append_assoc, ← map_append, takeWhile_append_dropWhile]
  rfl

theorem waiting_promote (m : MSHR) (promotion : MSHR.Promotion) :
    (m.promote promotion).waiting = m.waiting := by
  cases promotion with
  | readable => grind [MSHR.promote, MSHR.promoteReadable, waiting_promoteIf]
  | writable =>
    rw [MSHR.promote, MSHR.promoteWritable]
    split
    · exact waiting_promoteIf _ _
    · rfl

theorem waiting_promotions (promotions : List MSHR.Promotion) (m : MSHR) :
    (promotions.foldl MSHR.promote m).waiting = m.waiting := by
  induction promotions generalizing m with
  | nil => rfl
  | cons promotion promotions ih => rw [List.foldl_cons, ih, waiting_promote]

theorem targets_promotions (promotions : List MSHR.Promotion) (m : MSHR)
    (some_ : m.targets.list ≠ []) : (promotions.foldl MSHR.promote m).targets.list ≠ [] := by
  induction promotions generalizing m with
  | nil => exact some_
  | cons promotion promotions ih =>
    have promoted : ∀ (m : MSHR) (pred : Target → Bool), m.targets.list ≠ [] →
        (m.promoteIf pred).targets.list ≠ [] := by
      intro m pred some_ none
      exact some_ (List.append_eq_nil_iff.mp none).1
    cases promotion with
    | readable => grind [MSHR.promote, MSHR.promoteReadable]
    | writable => grind [MSHR.promote, MSHR.promoteWritable]

/-- The first deferred targets become targets; there is a target afterwards unless none is left at
all. -/
theorem promoteDeferredTargets_spec (m : MSHR) (curTick : Nat) :
    ∃ m' again, m.promoteDeferredTargets curTick = some (m', again) ∧ m'.waiting = m.waiting ∧
      (again = true → m'.targets.list ≠ []) ∧ (again = false → m' = m ∧ m.waiting = []) := by
  rw [MSHR.promoteDeferredTargets]
  by_cases empty : (m.targets.list.isEmpty && m.deferredTargets.list.isEmpty) = true
  · rw [if_pos empty]
    obtain ⟨noTargets, noDeferred⟩ := Bool.and_eq_true_iff.mp empty
    refine ⟨m, false, rfl, rfl, by simp, fun _ => ⟨rfl, ?_⟩⟩
    rw [MSHR.waiting, TargetList.labels, TargetList.labels, List.isEmpty_iff.mp noTargets,
      List.isEmpty_iff.mp noDeferred]
    rfl
  · rw [if_neg empty]
    dsimp only
    generalize promotedEq : (if (!(m.deferredTargets.list.takeWhile fun t =>
        !t.pkt.isCacheMaintenance).isEmpty) = true then
          m.deferredTargets.list.takeWhile fun t => !t.pkt.isCacheMaintenance
        else if m.targets.list.isEmpty = true then m.deferredTargets.list.take 1 else []) = promoted
    have front : promoted ++ m.deferredTargets.list.drop promoted.length = m.deferredTargets.list := by
      rw [← promotedEq]
      split
      · exact List.prefix_iff_eq_append.mp ( takeWhile_prefix _)
      · split
        · exact List.prefix_iff_eq_append.mp ( take_prefix 1 _)
        · rfl
    have some_ : m.targets.list ++ promoted ≠ [] := by
      intro none
      obtain ⟨noTargets, noPromoted⟩ := List.append_eq_nil_iff.mp none
      rw [noTargets] at empty
      cases deferred : m.deferredTargets.list with
      | nil => exact empty (by rw [deferred]; rfl)
      | cons t rest => grind
    have targets : ({ m.targets with
        list := m.targets.list ++ promoted } : TargetList).populateFlags.list ≠ [] := by
      rw [ne_eq, list_eq_nil_iff, labels_populateFlags, ← list_eq_nil_iff]
      exact some_
    obtain ⟨t, rest, eq⟩ := exists_cons_of_ne_nil targets
    rw [eq]
    refine ⟨_, true, rfl, ?_, fun _ => targets, by simp⟩
    rw [MSHR.waiting]
    rw [labels_populateFlags, labels_populateFlags, TargetList.labels, TargetList.labels,
      map_append, List.append_assoc, ← map_append, front]
    rfl

/-- What a response serves and what it leaves are the targets that waited, and the served ones of
the CPU are the first of them. -/
structure Takes (served waiting' waiting : List Label) : Prop where
  perm : (served ++ waiting').Perm waiting
  order : served.filter isCPU ++ waiting'.filter isCPU = waiting.filter isCPU

theorem filter_label (targets : List Target) :
    (targets.filter fun t => decide (t.source = Source.fromCPU)).map label
      = (targets.map label).filter isCPU := by
  rw [List.filter_map]
  rfl

theorem filter_not_label (targets : List Target) :
    (targets.filter fun t => ! decide (t.source = Source.fromCPU)).map label
      = (targets.map label).filter fun l => ! isCPU l := by
  rw [List.filter_map]
  rfl

theorem extractServiceableTargets_takes (some_ : m.targets.list ≠ []) (invalidate : Bool) :
    ∃ m' served, m.extractServiceableTargets invalidate = some (m', served) ∧
      Takes served.labels m'.waiting m.waiting := by
  obtain ⟨front, rest, targets⟩ := exists_cons_of_ne_nil some_
  rw [MSHR.extractServiceableTargets]
  have waiting : m.waiting = label front :: (rest.map label ++ m.deferredTargets.labels) := by
    rw [MSHR.waiting, TargetList.labels, targets]
    rfl
  rw [waiting]
  cases invalidate with
  | false =>
    refine ⟨_, m.targets, rfl, ?_⟩
    rw [MSHR.waiting]
    rw [labels_populateFlags, labels_init, TargetList.labels, targets]
    refine ⟨List.Perm.refl _, ?_⟩
    exact (filter_append (p := isCPU) ((front :: rest).map label)
      m.deferredTargets.labels).symm
  | true =>
    rw [targets]
    refine ⟨_, _, rfl, ?_⟩
    rw [MSHR.waiting]
    rw [labels_populateFlags, labels_populateFlags, TargetList.labels, TargetList.labels,
      List.map_cons, filter_label, filter_not_label]
    have split : ((rest.map label).filter (fun l => ! isCPU l) ++ (rest.map label).filter isCPU).Perm
        (rest.map label) :=
      List.perm_append_comm.trans (filter_append_perm isCPU _)
    constructor
    · grind
    · have snoops : ((rest.map label).filter fun l => ! isCPU l).filter isCPU = [] := by
        rw [List.filter_filter]
        refine List.filter_eq_nil_iff.mpr fun l _ => ?_
        cases isCPU l <;> decide
      have twice : ((rest.map label).filter isCPU).filter isCPU = (rest.map label).filter isCPU := by
        rw [List.filter_filter]
        refine List.filter_congr fun l _ => ?_
        rw [Bool.and_self]
      rw [List.filter_cons, List.filter_cons, filter_append, filter_append, snoops, twice]
      split <;> rfl

/-- A response serves from the front, leaves a target if the register is issued again, and none at
all if it is freed. -/
theorem response_takes (some_ : m.targets.list ≠ []) (promotions : List MSHR.Promotion)
    (invalidate : Bool) (curTick : Nat) :
    ∃ m' served freed, m.response promotions invalidate curTick = some (m', served, freed) ∧
      Takes served.labels m'.waiting m.waiting ∧
      (freed = true → m'.waiting = []) ∧ (freed = false → m'.targets.list ≠ []) := by
  obtain ⟨m₁, served, extracted, takes⟩ :=
    extractServiceableTargets_takes (targets_promotions promotions m some_) invalidate
  rw [waiting_promotions] at takes
  obtain ⟨m₂, again, promoted, waiting, left, none⟩ := promoteDeferredTargets_spec m₁ curTick
  rw [← waiting] at takes
  rw [MSHR.response, extracted]
  dsimp only
  rw [promoted]
  cases again with
  | true => exact ⟨_, served, false, rfl, takes, fun no => (by cases no), fun _ => left rfl⟩
  | false =>
    refine ⟨_, served, true, rfl, takes, fun _ => ?_, fun no => (by cases no)⟩
    exact waiting.trans (none rfl).2

theorem allocateTarget_waiting {pkt : Packet} {whenReady order : Nat} {alloc : Bool}
    (called : m.allocateTarget pkt whenReady order alloc = some m') :
    m'.waiting = m.waiting ++ [(order, .fromCPU)] ∧ m'.targets.list ≠ [] := by
  rw [MSHR.allocateTarget] at called
  cases targets : m.targets.list with
  | nil =>
    rw [targets] at called
    cases called
  | cons front rest =>
    rw [targets] at called
    dsimp only at called
    by_cases defers : m.defers front pkt = true
    · rw [if_pos defers] at called
      cases called
      refine ⟨?_, by simp [targets]⟩
      rw [MSHR.waiting]
      rw [labels_add, ← List.append_assoc]
      rfl
    · rw [if_neg defers] at called
      cases called
      have none : m.deferredTargets.labels = [] := by
        rw [← list_eq_nil_iff]
        simp only [MSHR.defers, Bool.or_eq_true, not_or] at defers
        simpa using defers.1.2
      constructor
      · simp [MSHR.waiting, none]
      · simp [list_eq_nil_iff]

theorem handleSnoop_waiting {pkt : Packet} {order curTick : Nat} {took : Bool} {marks : SnoopMarks}
    (called : m.handleSnoop pkt order curTick = some (m', took, marks)) :
    (m'.waiting = m.waiting ∨
        m'.waiting = m.targets.labels ++ (order, .fromSnoop) :: m.deferredTargets.labels) ∧
      m'.inService = m.inService ∧ (m.targets.list ≠ [] → m'.targets.list ≠ []) := by
  rw [MSHR.handleSnoop] at called
  dsimp only at called
  split at called
  · cases called
  split at called
  · split at called
    · cases called
      refine ⟨.inl ?_, rfl, fun some_ => ?_⟩
      · simp [MSHR.waiting]
      · rw [ne_eq, list_eq_nil_iff, labels_replaceUpgrades, ← list_eq_nil_iff]
        exact some_
    · cases called
      exact ⟨.inl rfl, rfl, id⟩
  · have start : ∀ b : Bool, (if b = true then { m with
          deferredTargets := m.deferredTargets.replaceUpgrades } else m).targets = m.targets ∧
        (if b = true then { m with
          deferredTargets := m.deferredTargets.replaceUpgrades } else m).deferredTargets.labels
            = m.deferredTargets.labels ∧
        (if b = true then { m with
          deferredTargets := m.deferredTargets.replaceUpgrades } else m).inService = m.inService := by
      intro b
      split
      · exact ⟨rfl, labels_replaceUpgrades _, rfl⟩
      · exact ⟨rfl, rfl, rfl⟩
    obtain ⟨targets, deferred, service⟩ := start (needsWritable pkt.cmd || pkt.isCacheInvalidate)
    generalize (if (needsWritable pkt.cmd || pkt.isCacheInvalidate) = true then { m with
      deferredTargets := m.deferredTargets.replaceUpgrades } else m) = m₁
      at called targets deferred service
    rw [← targets, ← deferred, ← service]
    have same : m.waiting = m₁.waiting := by
      rw [MSHR.waiting, MSHR.waiting, ← targets, ← deferred]
    rw [same]
    split at called
    · cases called
    · split at called
      · cases called
        exact ⟨.inl rfl, rfl, id⟩
      · cases called
        by_cases keep : (m₁.pendingModified || pkt.cmd.isInvalidate) = true
        · rw [if_pos keep]
          refine ⟨.inr ?_, rfl, fun _ => ?_⟩
          · simp [MSHR.waiting]
          · simp [list_eq_nil_iff]
        · rw [if_neg keep]
          exact ⟨.inl rfl, rfl, id⟩

/-- A register, whether it is in use, the targets added to it so far, and the lists of targets that
its responses served. -/
structure Traced where
  mshr : MSHR
  allocated : Bool
  added : List Label
  served : List (List Label)

def start : Traced := ⟨MSHR.new, false, [], []⟩

/-- The last two set flags of the register: one is set by the registers of other caches, one by the
cache when it sends the miss. -/
inductive Call where
  | allocate (blkSize : Nat) (target : Packet) (whenReady order : Nat) (allocOnFill : Bool)
  | allocateTarget (pkt : Packet) (whenReady order : Nat) (allocOnFill : Bool)
  | handleSnoop (pkt : Packet) (order curTick : Nat)
  | markInService (pendingModifiedResp : Bool)
  | response (promotions : List MSHR.Promotion) (invalidate : Bool) (curTick : Nat)
  | clearDownstreamPending
  | setDownstreamPending
  | setForward (isForward : Bool)

def call (t : Traced) : Call → Option Traced
  | .allocate blkSize target whenReady order allocOnFill =>
    let source := if target.cmd = .HardPFReq then .fromPrefetcher else .fromCPU
    some { t with
      mshr := t.mshr.allocate blkSize target whenReady order allocOnFill
      allocated := true
      added := t.added ++ [(order, source)] }
  | .allocateTarget pkt whenReady order allocOnFill =>
    (t.mshr.allocateTarget pkt whenReady order allocOnFill).map fun m =>
      { t with mshr := m, added := t.added ++ [(order, .fromCPU)] }
  | .handleSnoop pkt order curTick =>
    (t.mshr.handleSnoop pkt order curTick).map fun r =>
      { t with
        mshr := r.1
        added := if t.mshr.getNumTargets < r.1.getNumTargets then t.added ++ [(order, .fromSnoop)]
          else t.added }
  | .markInService pendingModifiedResp =>
    some { t with mshr := t.mshr.markInService pendingModifiedResp }
  | .response promotions invalidate curTick =>
    (t.mshr.response promotions invalidate curTick).map fun r =>
      { t with mshr := r.1, allocated := ! r.2.2, served := t.served ++ [r.2.1.labels] }
  | .clearDownstreamPending => some { t with mshr := t.mshr.clearDownstreamPending }
  | .setDownstreamPending => some { t with mshr := { t.mshr with downstreamPending := true } }
  | .setForward isForward => some { t with mshr := { t.mshr with isForward := isForward } }

/-- A free register is allocated, one in use is given targets, snoops and responses. -/
def Allowed (t : Traced) : Call → Prop
  | .allocate .. => t.allocated = false
  | .allocateTarget .. => t.allocated = true
  | .handleSnoop pkt _ _ => t.allocated = true ∧
      (needsWritable pkt.cmd = pkt.cmd.isInvalidate ∨ pkt.isCacheMaintenance = true)
  | .markInService _ => t.allocated = true ∧ t.mshr.inService = false
  | .response .. => t.allocated = true ∧ t.mshr.inService = true
  | _ => t.allocated = true

/-- Every target was served once or waits. -/
structure Accounted (t : Traced) : Prop where
  perm : (t.served.flatten ++ t.mshr.waiting).Perm t.added
  order : t.served.flatten.filter isCPU ++ t.mshr.waiting.filter isCPU = t.added.filter isCPU
  free : t.allocated = false → t.mshr.waiting = []
  front : t.allocated = true → t.mshr.targets.list ≠ []

theorem Accounted.join {t : Traced} (accounted : Accounted t) {l : Label} {before after : List Label}
    (old : t.mshr.waiting = before ++ after) (new : m'.waiting = before ++ l :: after)
    (last : isCPU l = true → after = []) (front : m'.targets.list ≠ []) {b : Bool} (used : b = true) :
    Accounted { t with mshr := m', allocated := b, added := t.added ++ [l] } := by
  refine ⟨?_, ?_, fun no => (by rw [used] at no; cases no), fun _ => front⟩
  · dsimp only
    rw [new]
    have middle : (t.served.flatten ++ (before ++ l :: after)).Perm
        ((t.served.flatten ++ t.mshr.waiting) ++ [l]) := by
      rw [old, ← List.append_assoc, ← List.append_assoc]
      exact List.perm_middle.trans (perm_append_singleton l _).symm
    exact middle.trans (accounted.perm.append_right [l])
  · dsimp only
    have order := accounted.order
    rw [old, filter_append] at order
    rw [new, filter_append, filter_append, ← order]
    cases cpu : isCPU l with
    | true =>
      rw [last cpu, filter_nil, append_nil, List.append_assoc]
    | false => grind

theorem Accounted.keep {t : Traced} (accounted : Accounted t) (same : m'.waiting = t.mshr.waiting)
    (front : t.mshr.targets.list ≠ [] → m'.targets.list ≠ []) : Accounted { t with mshr := m' } := by
  have perm := accounted.perm
  have order := accounted.order
  rw [← same] at perm order
  exact ⟨perm, order, fun free => same.trans (accounted.free free),
    fun used => front (accounted.front used)⟩

theorem getNumTargets_eq (m : MSHR) : m.getNumTargets = m.waiting.length := by
  rw [MSHR.getNumTargets, MSHR.waiting, TargetList.labels, TargetList.labels, length_append,
    length_map, length_map]

theorem allocate_waiting (m : MSHR) (blkSize : Nat) (target : Packet) (whenReady order : Nat)
    (alloc : Bool) :
    (m.allocate blkSize target whenReady order alloc).waiting
        = m.targets.labels ++
          (order, if target.cmd = .HardPFReq then .fromPrefetcher else .fromCPU)
            :: m.deferredTargets.labels ∧
      (m.allocate blkSize target whenReady order alloc).targets.list ≠ [] := by
  constructor
  · simp [MSHR.waiting, MSHR.allocate]
  · simp [MSHR.allocate, list_eq_nil_iff]

theorem labels_ne_nil {l l' : TargetList} (same : l'.labels = l.labels) (some_ : l.list ≠ []) :
    l'.list ≠ [] := by
  rw [ne_eq, list_eq_nil_iff, same, ← list_eq_nil_iff]
  exact some_

theorem markInService_labels (m : MSHR) (resp : Bool) :
    (m.markInService resp).targets.labels = m.targets.labels := by
  rw [MSHR.markInService]
  split
  · rfl
  · exact labels_clearDownstreamPending _

theorem call_accounts {t t' : Traced} {c : Call} (accounted : Accounted t) (allowed : Allowed t c)
    (called : call t c = some t') : Accounted t' := by
  cases c with
  | allocate blkSize target whenReady order alloc =>
    cases called
    obtain ⟨waiting, front⟩ := allocate_waiting t.mshr blkSize target whenReady order alloc
    have empty := accounted.free allowed
    have none := (List.append_eq_nil_iff.mp empty).2
    exact accounted.join rfl waiting (fun _ => none) front rfl
  | allocateTarget =>
    obtain ⟨m', added, eq⟩ := Option.map_eq_some_iff.mp called
    cases eq
    obtain ⟨waiting, front⟩ := allocateTarget_waiting added
    exact accounted.join (append_nil _).symm waiting (fun _ => rfl) front allowed
  | handleSnoop pkt order curTick =>
    obtain ⟨⟨m', took, marks⟩, snooped, eq⟩ := Option.map_eq_some_iff.mp called
    cases eq
    obtain ⟨waiting, -, front⟩ := handleSnoop_waiting snooped
    rcases waiting with same | kept
    · have count : ¬t.mshr.getNumTargets < m'.getNumTargets := by
        rw [getNumTargets_eq, getNumTargets_eq, same]
        exact Nat.lt_irrefl _
      rw [if_neg count]
      exact accounted.keep same front
    · have count : t.mshr.getNumTargets < m'.getNumTargets := by
        rw [getNumTargets_eq, getNumTargets_eq, kept, MSHR.waiting, length_append,
          length_append, length_cons]
        omega
      rw [if_pos count]
      exact accounted.join rfl kept (fun cpu => by cases cpu) (front (accounted.front allowed.1))
        allowed.1
  | markInService resp =>
    cases called
    have labels := markInService_labels t.mshr resp
    refine accounted.keep ?_ (labels_ne_nil labels)
    rw [MSHR.waiting, labels]
    rfl
  | response promotions invalidate curTick =>
    obtain ⟨⟨m', served, freed⟩, responded, eq⟩ := Option.map_eq_some_iff.mp called
    cases eq
    obtain ⟨m₁, served₁, freed₁, responded₁, takes, none, some_⟩ :=
      response_takes (accounted.front allowed.1) promotions invalidate curTick
    rw [responded] at responded₁
    cases responded₁
    refine ⟨?_, ?_, fun free => none (by simpa using free), fun used => some_ (by simpa using used)⟩
    · dsimp only
      rw [flatten_append, flatten_singleton, List.append_assoc]
      exact (takes.perm.append_left _).trans accounted.perm
    · dsimp only
      rw [flatten_append, flatten_singleton, filter_append, List.append_assoc,
        takes.order]
      exact accounted.order
  | clearDownstreamPending =>
    cases called
    have labels := labels_clearDownstreamPending t.mshr.targets
    refine accounted.keep ?_ (labels_ne_nil labels)
    rw [MSHR.waiting, MSHR.clearDownstreamPending]
    rw [labels]
    rfl
  | setDownstreamPending | setForward =>
    cases called
    exact accounted.keep rfl id

theorem start_accounts : Accounted start :=
  ⟨.refl [], rfl, fun _ => rfl, fun used => (by cases used)⟩

theorem handleSnoop_isSome (some_ : m.targets.list ≠ []) {pkt : Packet}
    (match_ : needsWritable pkt.cmd = pkt.cmd.isInvalidate ∨ pkt.isCacheMaintenance = true)
    (order curTick : Nat) : (m.handleSnoop pkt order curTick).isSome := by
  have fine : ¬(decide (needsWritable pkt.cmd ≠ pkt.cmd.isInvalidate) && !pkt.isCacheMaintenance)
      = true := by
    rcases match_ with same | maintenance
    · simp [same]
    · simp [maintenance]
  rw [MSHR.handleSnoop]
  rw [if_neg fine]
  split
  · split <;> rfl
  · grind

/-- Whatever happens to a register, each target is served once or waits, the CPU's targets are
served in their order, and a freed register has none. -/
theorem run_accounts {t : Traced} (run : Leads call Allowed start t) :
    (t.served.flatten ++ t.mshr.targets.labels ++ t.mshr.deferredTargets.labels).Perm t.added ∧
      (t.added.Nodup →
        (t.served.flatten ++ t.mshr.targets.labels ++ t.mshr.deferredTargets.labels).Nodup) ∧
      t.served.flatten.filter isCPU
          ++ (t.mshr.targets.labels ++ t.mshr.deferredTargets.labels).filter isCPU
        = t.added.filter isCPU ∧
      (t.allocated = false → t.mshr.targets.list = [] ∧ t.mshr.deferredTargets.list = []) ∧
      ∀ c, Allowed t c → (call t c).isSome := by
  have accounted : Accounted t := run.invariant start_accounts
    fun _ _ _ accounted allowed called => call_accounts accounted allowed called
  have perm := accounted.perm
  rw [MSHR.waiting, ← List.append_assoc] at perm
  refine ⟨perm, fun distinct => perm.nodup_iff.mpr distinct, accounted.order, fun free => ?_,
    fun c allowed => ?_⟩
  · obtain ⟨targets, deferred⟩ := List.append_eq_nil_iff.mp (accounted.free free)
    exact ⟨(list_eq_nil_iff _).mpr targets, (list_eq_nil_iff _).mpr deferred⟩
  · cases c with
    | allocateTarget pkt whenReady order alloc =>
      obtain ⟨front, rest, targets⟩ := List.exists_cons_of_ne_nil (accounted.front allowed)
      rw [call, Option.isSome_map, MSHR.allocateTarget, targets]
      dsimp only
      split <;> rfl
    | handleSnoop pkt order curTick =>
      rw [call, Option.isSome_map]
      exact handleSnoop_isSome (accounted.front allowed.1) allowed.2 order curTick
    | response promotions invalidate curTick =>
      obtain ⟨m', served, freed, responded, -⟩ :=
        response_takes (accounted.front allowed.1) promotions invalidate curTick
      rw [call, responded]
      rfl
    | allocate => rfl
    | markInService => rfl
    | clearDownstreamPending => rfl
    | setDownstreamPending => rfl
    | setForward => rfl

/-- A packet of four bytes of a request without flags. -/
def plain (cmd : MemCmd) : Packet := ⟨cmd, false, false, false, false, 0, 4, false, false⟩

/-- A read that is in service when a write comes. -/
def readWrite : Traced :=
  (([.allocate 64 (plain .ReadSharedReq) 0 1 true, .markInService false,
    .allocateTarget (plain .WriteReq) 0 2 true, .response [] false 5] : List Call).foldlM call
      start).getD start

theorem run_accounts_readWrite :
    readWrite.served = [[(1, .fromCPU)]] ∧
      (readWrite.served.flatten ++ readWrite.mshr.targets.labels
        ++ readWrite.mshr.deferredTargets.labels).Nodup := by
  have run : Leads call Allowed start readWrite := by
    refine .tail (.response [] false 5) (.tail (.allocateTarget (plain .WriteReq) 0 2 true)
      (.tail (.markInService false) (.tail (.allocate 64 (plain .ReadSharedReq) 0 1 true) .refl
        ?_ rfl) ?_ rfl) ?_ rfl) ?_ rfl
    · rfl
    · exact ⟨rfl, rfl⟩
    · rfl
    · exact ⟨rfl, rfl⟩
  have distinct : readWrite.added.Nodup := by decide
  exact ⟨by decide, (run_accounts run).2.1 distinct⟩

end Gem5.Cache.Mshr
