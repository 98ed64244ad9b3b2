import Gem5.O3.Rob

/-!
# Squashing the reorder buffer

A squash walks the list of a thread from its youngest instruction towards the head, `squashWidth`
instructions a cycle. The iterator is kept from one cycle to the next, and a new squash puts it
back to the tail.
-/

namespace Gem5.O3

open Runs List Function BitVec

/-- The flags of an instruction that the walk sets. -/
structure InstStatus where
  squashed : Bool
  canCommit : Bool
  deriving DecidableEq

/-- `setSquashed` and `setCanCommit`. -/
def InstStatus.mark (status : InstStatus) : InstStatus :=
  { status with squashed := true, canCommit := true }

@[simp] theorem InstStatus.mark_mark (status : InstStatus) : status.mark.mark = status.mark := rfl

/-- The iterators are places in the list of the thread; `none` is `end()`. -/
structure SquashRob extends Rob where
  tail : Option DynInst
  status : DynInst → InstStatus
  squashIt : Nat → Option Nat
  squashedSeqNum : Nat → Nat
  doneSquashing : Nat → Bool

namespace SquashRob

variable {prm : RobParams} {width tid n : Nat} {rob rob' r : SquashRob}

/-- How the walk of one cycle ends: at the head of the list, or in front of a place. -/
structure Walk where
  place : Option Nat
  robTailUpdate : Bool
  status : DynInst → InstStatus

/-- The loop of `doSquash` with `width` rounds left. Fails where the iterator is not valid. -/
def walk (insts : List DynInst) (squashedSeqNum : Nat) :
    Nat → Nat → Bool → (DynInst → InstStatus) → Option Walk
  | 0, i, robTailUpdate, status => some ⟨some i, robTailUpdate, status⟩
  | width + 1, i, robTailUpdate, status =>
    match insts[i]? with
    | none => none
    | some inst =>
      if squashedSeqNum < inst.seqNum then
        let status := Function.update status inst (status inst).mark
        if i = 0 then some ⟨none, robTailUpdate, status⟩
        else walk insts squashedSeqNum width (i - 1)
          (robTailUpdate || insts.getLast? == some inst) status
      else some ⟨some i, robTailUpdate, status⟩

/-- The youngest tail of the active threads. -/
def updateTail (rob : SquashRob) : SquashRob :=
  { rob with
    tail := rob.activeThreads.foldl (fun tail tid =>
      match (rob.instList tid).getLast?, tail with
      | none, tail => tail
      | some inst, none => some inst
      | some inst, some youngest =>
        if youngest.seqNum < inst.seqNum then some inst else some youngest) none }

def finish (rob : SquashRob) (tid : Nat) : SquashRob :=
  { rob with
    squashIt := Function.update rob.squashIt tid none
    doneSquashing := Function.update rob.doneSquashing tid true }

/-- Fails where the source would fail an assert or read `end()`. -/
def doSquash (width : Nat) (rob : SquashRob) (tid : Nat) : Option SquashRob :=
  match rob.squashIt tid with
  | none => none
  | some start =>
    match (rob.instList tid)[start]? with
    | none => none
    | some inst =>
      if inst.seqNum < rob.squashedSeqNum tid then some (rob.finish tid)
      else
        match walk (rob.instList tid) (rob.squashedSeqNum tid) width start false rob.status with
        | none => none
        | some ⟨none, _, status⟩ => some (finish { rob with status := status } tid)
        | some ⟨some i, robTailUpdate, status⟩ =>
          match (rob.instList tid)[i]? with
          | none => none
          | some inst =>
            let rob := { rob with
              status := status
              squashIt := Function.update rob.squashIt tid (some i) }
            let rob := if inst.seqNum ≤ rob.squashedSeqNum tid then rob.finish tid else rob
            some (if robTailUpdate then rob.updateTail else rob)

def squash (width : Nat) (rob : SquashRob) (squash_num tid : Nat) : Option SquashRob :=
  if rob.threadEntries tid = 0 then some rob
  else
    let rob := { rob with
      doneSquashing := Function.update rob.doneSquashing tid false
      squashedSeqNum := Function.update rob.squashedSeqNum tid squash_num }
    if rob.instList tid = [] then some rob
    else doSquash width { rob with
      squashIt := Function.update rob.squashIt tid (some ((rob.instList tid).length - 1)) } tid

/-- The walk of a squash to `n` that may have been started again, and goes on while it is not
done. -/
inductive Squashes (width tid : Nat) (rob : SquashRob) : Nat → SquashRob → Prop where
  | squash (n : Nat) {r : SquashRob} : rob.squash width n tid = some r → Squashes width tid rob n r
  | doSquash {n : Nat} {r r' : SquashRob} : Squashes width tid rob n r →
      r.doneSquashing tid = false → r.doSquash width tid = some r' → Squashes width tid rob n r'
  | again {n : Nat} {r r' : SquashRob} (m : Nat) : Squashes width tid rob n r → m ≤ n →
      r.squash width m tid = some r' → Squashes width tid rob m r'

/-- `calls` cycles of a walk that is not done yet. -/
def cycles (width tid : Nat) : Nat → SquashRob → Option SquashRob
  | 0, rob => some rob
  | calls + 1, rob =>
    if rob.doneSquashing tid then some rob
    else (rob.doSquash width tid).bind (cycles width tid calls)

variable {insts : List DynInst} {before status : DynInst → InstStatus} {i : Nat} {u : Bool}

/-- Nothing but younger instructions of the list has new flags, and these are marked. -/
def Touched (insts : List DynInst) (n : Nat) (before status : DynInst → InstStatus) : Prop :=
  ∀ inst, status inst = before inst ∨
    inst ∈ insts ∧ n < inst.seqNum ∧ status inst = (before inst).mark

/-- The younger instructions from place `i` on are marked. -/
def Swept (insts : List DynInst) (n : Nat) (before status : DynInst → InstStatus) (i : Nat) :
    Prop :=
  ∀ j inst, i ≤ j → insts[j]? = some inst → n < inst.seqNum → status inst = (before inst).mark

theorem Touched.mark (touched : Touched insts n before status) (inst : DynInst) :
    (status inst).mark = (before inst).mark := by
  rcases touched inst with same | ⟨-, -, marked⟩
  · rw [same]
  · rw [marked, InstStatus.mark_mark]

theorem Touched.update {inst : DynInst} (touched : Touched insts n before status)
    (mem : inst ∈ insts) (younger : n < inst.seqNum) :
    Touched insts n before (Function.update status inst (status inst).mark) := by
  intro other
  by_cases own : other = inst
  · aesop
  · rw [update_of_ne own]
    exact touched other

theorem Swept.update {inst : DynInst} (touched : Touched insts n before status)
    (swept : Swept insts n before status (i + 1)) (here : insts[i]? = some inst) :
    Swept insts n before (Function.update status inst (status inst).mark) i := by
  intro j other from_ at_ younger
  by_cases own : other = inst
  · aesop
  · rw [update_of_ne own]
    have apart : i ≠ j := by grind
    exact swept j other (by omega) at_ younger

/-- What one cycle leaves: the walk is through, or it stands at an earlier place. -/
def Walk.Good (insts : List DynInst) (n : Nat) (before : DynInst → InstStatus) (width i : Nat)
    (w : Walk) : Prop :=
  Touched insts n before w.status ∧
    match w.place with
    | none => Swept insts n before w.status 0
    | some j => j ≤ i ∧ Swept insts n before w.status (j + 1) ∧
        (1 ≤ width → j = i → ∀ inst, insts[j]? = some inst → inst.seqNum ≤ n)

variable (width u) in
theorem walk_good (inside : i < insts.length) (touched : Touched insts n before status)
    (swept : Swept insts n before status (i + 1)) :
    ∃ w, walk insts n width i u status = some w ∧ w.Good insts n before width i := by
  induction width generalizing i u status with
  | zero => exact ⟨_, rfl, touched, Nat.le_refl i, swept, fun one => absurd one (by omega)⟩
  | succ width ih =>
    obtain ⟨inst, here⟩ : ∃ inst, insts[i]? = some inst :=
      ⟨insts[i], List.getElem?_eq_getElem inside⟩
    rw [walk, here]
    dsimp only
    by_cases younger : n < inst.seqNum
    · rw [if_pos younger]
      have touched' := touched.update (mem_of_getElem? here) younger
      have swept' := swept.update touched here
      by_cases head : i = 0
      · rw [if_pos head]
        subst head
        exact ⟨_, rfl, touched', swept'⟩
      · rw [if_neg head]
        have next : i - 1 + 1 = i := Nat.sub_add_cancel (Nat.pos_of_ne_zero head)
        rw [← next] at swept'
        obtain ⟨w, walked, good, place⟩ := ih (u := u || insts.getLast? == some inst)
          (by omega) touched' swept'
        refine ⟨w, walked, good, ?_⟩
        cases stop : w.place with
        | none =>
          rw [stop] at place
          exact place
        | some j =>
          rw [stop] at place
          exact ⟨by omega, place.2.1, fun _ same => absurd place.1 (by omega)⟩
    · rw [if_neg younger]
      refine ⟨_, rfl, touched, Nat.le_refl i, swept, fun _ _ inst' at_ => ?_⟩
      rw [here] at at_
      cases at_
      exact Nat.le_of_not_lt younger

theorem Swept.zero {inst : DynInst} (sorted : insts.Pairwise (·.seqNum < ·.seqNum))
    (swept : Swept insts n before status (i + 1)) (here : insts[i]? = some inst)
    (older : inst.seqNum ≤ n) : Swept insts n before status 0 := by
  intro j other _ at_ younger
  by_cases above : i + 1 ≤ j
  · exact swept j other above at_ younger
  · obtain ⟨inside, rfl⟩ := List.getElem?_eq_some_iff.mp here
    obtain ⟨inside', rfl⟩ := List.getElem?_eq_some_iff.mp at_
    rcases Nat.lt_or_ge j i with less | more
    · have order := List.pairwise_iff_getElem.mp sorted j i inside' inside less
      omega
    · obtain rfl : j = i := by omega
      omega

/-- A thread that a squash may come to: its list is in order and counted, and no squash goes on
for an empty list. -/
structure Ready (tid : Nat) (rob : SquashRob) : Prop where
  sorted : (rob.instList tid).Pairwise (·.seqNum < ·.seqNum)
  counted : (rob.threadEntries tid).toNat = (rob.instList tid).length
  own : ∀ inst ∈ rob.instList tid, inst.threadNumber = tid
  idle : rob.instList tid = [] → rob.doneSquashing tid = true

/-- What a squash of one thread leaves as it was. -/
structure Same (tid : Nat) (rob r : SquashRob) : Prop where
  toRob : r.toRob = rob.toRob
  squashIt : ∀ t, t ≠ tid → r.squashIt t = rob.squashIt t
  squashedSeqNum : ∀ t, t ≠ tid → r.squashedSeqNum t = rob.squashedSeqNum t
  doneSquashing : ∀ t, t ≠ tid → r.doneSquashing t = rob.doneSquashing t

theorem Same.instList (same : Same tid rob r) : r.instList = rob.instList := by
  rw [same.toRob]

theorem Same.threadEntries (same : Same tid rob r) : r.threadEntries = rob.threadEntries := by
  rw [same.toRob]

theorem Same.refl (tid : Nat) (rob : SquashRob) : Same tid rob rob :=
  ⟨rfl, fun _ _ => rfl, fun _ _ => rfl, fun _ _ => rfl⟩

theorem Same.trans (first : Same tid rob r) (second : Same tid r rob') : Same tid rob rob' :=
  ⟨second.toRob.trans first.toRob,
    fun t other => (second.squashIt t other).trans (first.squashIt t other),
    fun t other => (second.squashedSeqNum t other).trans (first.squashedSeqNum t other),
    fun t other => (second.doneSquashing t other).trans (first.doneSquashing t other)⟩

/-- How far a squash to `n` that began at `rob` has come. -/
structure Progress (tid : Nat) (rob : SquashRob) (n : Nat) (r : SquashRob) : Prop
    extends Same tid rob r where
  touched : Touched (rob.instList tid) n rob.status r.status
  idle : rob.instList tid = [] → r.doneSquashing tid = true
  through : r.doneSquashing tid = true → Swept (rob.instList tid) n rob.status r.status 0
  going : r.doneSquashing tid = false → r.squashedSeqNum tid = n ∧
    ∃ i, r.squashIt tid = some i ∧ i < (rob.instList tid).length ∧
      Swept (rob.instList tid) n rob.status r.status (i + 1)

theorem updateTail_same (tid : Nat) (rob : SquashRob) : Same tid rob rob.updateTail :=
  ⟨rfl, fun _ _ => rfl, fun _ _ => rfl, fun _ _ => rfl⟩

theorem Progress.updateTail (progress : Progress tid rob n r) : Progress tid rob n r.updateTail :=
  ⟨progress.toSame.trans (updateTail_same tid r), progress.touched, progress.idle,
    progress.through, progress.going⟩

theorem finish_same (tid : Nat) (rob : SquashRob) : Same tid rob (rob.finish tid) :=
  ⟨rfl, fun _ other => update_of_ne other _ _, fun _ _ => rfl,
    fun _ other => update_of_ne other _ _⟩

theorem Progress.finish (same : Same tid rob r)
    (touched : Touched (rob.instList tid) n rob.status r.status)
    (swept : Swept (rob.instList tid) n rob.status r.status 0) :
    Progress tid rob n (r.finish tid) ∧ (r.finish tid).doneSquashing tid = true := by
  have done : (r.finish tid).doneSquashing tid = true := update_self _ _ _
  refine ⟨⟨same.trans (finish_same tid r), touched, fun _ => done, fun _ => swept,
    fun not => ?_⟩, done⟩
  rw [done] at not
  cases not

/-- One cycle of a squash that is not done: no assert fails, and it comes to an end or further
towards the head. -/
theorem Progress.doSquash {i : Nat} (sorted : (rob.instList tid).Pairwise (·.seqNum < ·.seqNum))
    (wide : 1 ≤ width) (same : Same tid rob r)
    (touched : Touched (rob.instList tid) n rob.status r.status)
    (number : r.squashedSeqNum tid = n) (going : r.doneSquashing tid = false)
    (at_ : r.squashIt tid = some i) (inside : i < (rob.instList tid).length)
    (swept : Swept (rob.instList tid) n rob.status r.status (i + 1)) :
    ∃ r', r.doSquash width tid = some r' ∧ Progress tid rob n r' ∧
      (r'.doneSquashing tid = false → ∃ j, r'.squashIt tid = some j ∧ j < i) := by
  obtain ⟨inst, here⟩ : ∃ inst, (rob.instList tid)[i]? = some inst :=
    ⟨_, List.getElem?_eq_getElem inside⟩
  have ends : ∀ r' : SquashRob, Progress tid rob n r' ∧ r'.doneSquashing tid = true →
      Progress tid rob n r' ∧
        (r'.doneSquashing tid = false → ∃ j, r'.squashIt tid = some j ∧ j < i) := by
    rintro r' ⟨progress, done⟩
    refine ⟨progress, fun not => ?_⟩
    rw [done] at not
    cases not
  simp only [SquashRob.doSquash, at_, same.instList, here, number]
  by_cases older : inst.seqNum < n
  · rw [if_pos older]
    exact ⟨_, rfl, ends _ (Progress.finish same touched
      (swept.zero sorted here (Nat.le_of_lt older)))⟩
  rw [if_neg older]
  obtain ⟨⟨place, u, status⟩, walked, touched', stops⟩ :=
    walk_good width false inside touched swept
  rw [walked]
  have same' : Same tid rob { r with status := status } :=
    ⟨same.toRob, same.squashIt, same.squashedSeqNum, same.doneSquashing⟩
  cases place with
  | none => exact ⟨_, rfl, ends _ (Progress.finish same' touched' stops)⟩
  | some j =>
    obtain ⟨before, swept', moved⟩ := stops
    obtain ⟨inst', here'⟩ : ∃ inst, (rob.instList tid)[j]? = some inst :=
      ⟨_, List.getElem?_eq_getElem (Nat.lt_of_le_of_lt before inside)⟩
    simp only [here']
    have same'' : Same tid rob { r with
        status := status
        squashIt := Function.update r.squashIt tid (some j) } :=
      ⟨same.toRob,
        fun t other => (update_of_ne other _ _).trans (same.squashIt t other),
        same.squashedSeqNum, same.doneSquashing⟩
    by_cases last : inst'.seqNum ≤ n
    · rw [if_pos last]
      obtain ⟨progress, done⟩ :=
        Progress.finish same'' touched' (swept'.zero sorted here' last)
      refine ⟨_, rfl, ends _ ?_⟩
      split
      · exact ⟨progress.updateTail, done⟩
      · exact ⟨progress, done⟩
    · rw [if_neg last]
      have standing : Function.update r.squashIt tid (some j) tid = some j :=
        update_self _ _ _
      have progress : Progress tid rob n { r with
          status := status
          squashIt := Function.update r.squashIt tid (some j) } := by
        refine ⟨same'', touched', fun empty => ?_, fun done => ?_, fun _ => ⟨number, j, standing,
          Nat.lt_of_le_of_lt before inside, swept'⟩⟩
        · rw [empty] at inside
          cases inside
        · rw [going] at done
          cases done
      have earlier : j < i :=
        Nat.lt_of_le_of_ne before fun here => last (moved wide here inst' here')
      refine ⟨_, rfl, ?_⟩
      split
      · exact ⟨progress.updateTail, fun _ => ⟨j, standing, earlier⟩⟩
      · exact ⟨progress, fun _ => ⟨j, standing, earlier⟩⟩

theorem Touched.mono {m : Nat} (touched : Touched insts n before status) (le : m ≤ n) :
    Touched insts m before status := by
  intro inst
  rcases touched inst with same | ⟨mem, younger, marked⟩
  · exact .inl same
  · exact .inr ⟨mem, Nat.lt_of_le_of_lt le younger, marked⟩

theorem Progress.squash (ready : Ready tid rob) (wide : 1 ≤ width) (same : Same tid rob r)
    (touched : Touched (rob.instList tid) n rob.status r.status)
    (idle : rob.instList tid = [] → r.doneSquashing tid = true) :
    ∃ r', r.squash width n tid = some r' ∧ Progress tid rob n r' := by
  rw [SquashRob.squash, same.threadEntries]
  have counted := ready.counted
  by_cases empty : rob.threadEntries tid = 0
  · rw [if_pos empty]
    rw [empty] at counted
    have none : rob.instList tid = [] := List.length_eq_zero_iff.mp counted.symm
    refine ⟨r, rfl, same, touched, idle, fun _ j inst _ at_ => ?_, fun not => ?_⟩
    · rw [none] at at_
      cases at_
    · rw [idle none] at not
      cases not
  · rw [if_neg empty]
    have some_ : rob.instList tid ≠ [] := by
      intro none
      rw [none] at counted
      exact empty (eq_of_toNat_eq counted)
    have size := List.length_pos_iff.mpr some_
    simp only [same.instList]
    rw [if_neg some_]
    obtain ⟨r', called, progress, -⟩ := Progress.doSquash (n := n)
      (r := { r with
        doneSquashing := Function.update r.doneSquashing tid false
        squashedSeqNum := Function.update r.squashedSeqNum tid n
        squashIt := Function.update r.squashIt tid (some ((rob.instList tid).length - 1)) })
      ready.sorted wide
      ⟨same.toRob,
        fun t other => (update_of_ne other _ _).trans (same.squashIt t other),
        fun t other => (update_of_ne other _ _).trans (same.squashedSeqNum t other),
        fun t other => (update_of_ne other _ _).trans (same.doneSquashing t other)⟩
      touched (update_self _ _ _) (update_self _ _ _)
      (update_self _ _ _) (by omega) (fun j inst above at_ => by
        obtain ⟨inside, -⟩ := List.getElem?_eq_some_iff.mp at_
        omega)
    exact ⟨r', called, progress⟩

theorem Progress.cycle (ready : Ready tid rob) (wide : 1 ≤ width)
    (progress : Progress tid rob n r) (going : r.doneSquashing tid = false) :
    ∃ r', r.doSquash width tid = some r' ∧ Progress tid rob n r' ∧
      (r'.doneSquashing tid = false →
        ∃ i j, r.squashIt tid = some i ∧ r'.squashIt tid = some j ∧ j < i) := by
  obtain ⟨number, i, at_, inside, swept⟩ := progress.going going
  obtain ⟨r', called, progress', earlier⟩ := Progress.doSquash ready.sorted wide progress.toSame
    progress.touched number going at_ inside swept
  refine ⟨r', called, progress', fun going' => ?_⟩
  obtain ⟨j, at_', less⟩ := earlier going'
  exact ⟨i, j, at_, at_', less⟩

theorem Squashes.progress (ready : Ready tid rob) (wide : 1 ≤ width)
    (run : Squashes width tid rob n r) : Progress tid rob n r := by
  induction run with
  | squash n called =>
    obtain ⟨r', called', progress⟩ := Progress.squash (n := n) ready wide (Same.refl tid rob)
      (fun _ => .inl rfl) ready.idle
    rw [called] at called'
    cases called'
    exact progress
  | doSquash run going called ih =>
    obtain ⟨r', called', progress, -⟩ := ih.cycle ready wide going
    rw [called] at called'
    cases called'
    exact progress
  | again m run le called ih =>
    obtain ⟨r', called', progress⟩ := Progress.squash ready wide ih.toSame (ih.touched.mono le)
      ih.idle
    rw [called] at called'
    cases called'
    exact progress

theorem Squashes.cycles (ready : Ready tid rob) (wide : 1 ≤ width) {calls : Nat}
    (run : Squashes width tid rob n r)
    (enough : r.doneSquashing tid = false → ∃ i, r.squashIt tid = some i ∧ i < calls) :
    ∃ r', r.cycles width tid calls = some r' ∧ Squashes width tid rob n r' ∧
      r'.doneSquashing tid = true := by
  induction calls generalizing r with
  | zero => aesop
  | succ calls ih =>
    rw [SquashRob.cycles]
    by_cases done : r.doneSquashing tid = true
    · rw [if_pos done]
      exact ⟨r, rfl, run, done⟩
    · rw [if_neg done]
      have going := Bool.eq_false_iff.mpr done
      obtain ⟨r', called, -, earlier⟩ := (run.progress ready wide).cycle ready wide going
      rw [called, Option.bind_some]
      refine ih (run.doSquash going called) fun going' => ?_
      obtain ⟨i, j, at_, at_', less⟩ := earlier going'
      obtain ⟨i', same, below⟩ := enough going
      rw [at_] at same
      cases same
      exact ⟨j, at_', by omega⟩

theorem Progress.marks (progress : Progress tid rob n r) (done : r.doneSquashing tid = true)
    (inst : DynInst) :
    r.status inst = if inst ∈ rob.instList tid ∧ n < inst.seqNum then (rob.status inst).mark
      else rob.status inst := by
  split
  case isTrue younger =>
    obtain ⟨j, at_⟩ := mem_iff_getElem?.mp younger.1
    exact progress.through done j inst (Nat.zero_le j) at_ younger.2
  case isFalse not =>
    rcases progress.touched inst with same | ⟨mem, younger, -⟩
    · exact same
    · exact absurd ⟨mem, younger⟩ not

/-- A squash does not fail, ends within a number of cycles, and then has marked exactly the
younger instructions of its thread. -/
theorem squash_marks_younger (ready : Ready tid rob) (wide : 1 ≤ width) :
    (∀ n, (rob.squash width n tid).isSome) ∧
    ∀ n r, Squashes width tid rob n r →
      (∀ m, m ≤ n → (r.squash width m tid).isSome) ∧
      (r.doneSquashing tid = false → (r.doSquash width tid).isSome) ∧
      (∃ r', r.cycles width tid (rob.instList tid).length = some r' ∧
        Squashes width tid rob n r' ∧ r'.doneSquashing tid = true) ∧
      (r.doneSquashing tid = true → ∀ inst, r.status inst =
        if inst ∈ rob.instList tid ∧ n < inst.seqNum then
          { squashed := true, canCommit := true }
        else rob.status inst) ∧
      (∀ inst, inst.threadNumber ≠ tid → r.status inst = rob.status inst) ∧
      Same tid rob r := by
  refine ⟨fun n => ?_, fun n r run => ?_⟩
  · obtain ⟨r', called, -⟩ := Progress.squash (n := n) ready wide (Same.refl tid rob)
      (fun _ => .inl rfl) ready.idle
    exact Option.isSome_of_eq_some called
  have progress := run.progress ready wide
  refine ⟨fun m le => ?_, fun going => ?_, run.cycles ready wide fun going => ?_,
    progress.marks, fun inst other => ?_, progress.toSame⟩
  · obtain ⟨r', called, -⟩ := Progress.squash ready wide progress.toSame
      (progress.touched.mono le) progress.idle
    exact Option.isSome_of_eq_some called
  · obtain ⟨r', called, -⟩ := progress.cycle ready wide going
    exact Option.isSome_of_eq_some called
  · obtain ⟨-, i, at_, inside, -⟩ := progress.going going
    exact ⟨i, at_, inside⟩
  · rcases progress.touched inst with same | ⟨mem, -, -⟩
    · exact same
    · exact absurd (ready.own inst mem) other

def new (prm : RobParams) : SquashRob where
  toRob := Rob.new prm
  tail := none
  status _ := ⟨false, false⟩
  squashIt _ := none
  squashedSeqNum _ := 0
  doneSquashing _ := true

/-- What the other stages do. An instruction may be set ready to commit at any time. -/
inductive Call where
  | insertInst (inst : DynInst)
  | retireHead (tid : Nat)
  | setCanCommit (inst : DynInst)
  | squash (squash_num tid : Nat)
  | doSquash (tid : Nat)

def call (prm : RobParams) (width : Nat) (rob : SquashRob) : Call → Option SquashRob
  | .insertInst inst => (rob.toRob.insertInst prm inst).map fun next =>
      { rob with toRob := next, tail := some inst }
  | .retireHead tid =>
    (rob.toRob.retireHead (fun inst => (rob.status inst).canCommit) tid).map fun next =>
      { rob with toRob := next }
  | .setCanCommit inst => some { rob with
      status := Function.update rob.status inst { rob.status inst with canCommit := true } }
  | .squash squash_num tid => rob.squash width squash_num tid
  | .doSquash tid => rob.doSquash width tid

/-- Instructions come in order, and a thread does not commit while it is squashing. -/
def Allowed (prm : RobParams) (rob : SquashRob) : Call → Prop
  | .insertInst inst => inst.threadNumber < prm.numThreads ∧
      ∀ older ∈ rob.instList inst.threadNumber, older.seqNum < inst.seqNum
  | .retireHead tid => tid < prm.numThreads ∧ rob.doneSquashing tid = true
  | .setCanCommit _ => True
  | .squash _ _ => True
  | .doSquash tid => rob.doneSquashing tid = false

theorem doSquash_same (called : rob.doSquash width tid = some r) :
    Same tid rob r ∧ rob.instList tid ≠ [] := by
  rw [doSquash] at called
  cases at_ : rob.squashIt tid with
  | none =>
    rw [at_] at called
    cases called
  | some i =>
    rw [at_] at called
    dsimp only at called
    cases here : (rob.instList tid)[i]? with
    | none =>
      rw [here] at called
      cases called
    | some =>
      rw [here] at called
      dsimp only at called
      refine ⟨?_, ne_nil_of_mem (mem_of_getElem? here)⟩
      split at called
      · cases called
        exact finish_same tid rob
      split at called
      · cases called
      · cases called
        exact ⟨rfl, fun _ other => update_of_ne other _ _, fun _ _ => rfl,
          fun _ other => update_of_ne other _ _⟩
      split at called
      · cases called
      · cases called
        have moved : ∀ status i, Same tid rob { rob with
            status := status
            squashIt := Function.update rob.squashIt tid (some i) } := fun _ _ =>
          ⟨rfl, fun _ other => update_of_ne other _ _, fun _ _ => rfl, fun _ _ => rfl⟩
        split
        · grind [Same.trans, updateTail_same, finish_same]
        · split
          · exact (moved _ _).trans (finish_same tid _)
          · exact moved _ _

theorem squash_same (called : rob.squash width n tid = some r) :
    Same tid rob r ∧ (r = rob ∨ rob.threadEntries tid ≠ 0) := by
  rw [squash] at called
  by_cases empty : rob.threadEntries tid = 0
  · rw [if_pos empty] at called
    cases called
    exact ⟨Same.refl tid rob, .inl rfl⟩
  · rw [if_neg empty] at called
    dsimp only at called
    refine ⟨?_, .inr empty⟩
    split at called
    · cases called
      exact ⟨rfl, fun _ _ => rfl, fun _ other => update_of_ne other _ _,
        fun _ other => update_of_ne other _ _⟩
    · refine Same.trans ?_ (doSquash_same called).1
      exact ⟨rfl, fun _ other => update_of_ne other _ _,
        fun _ other => update_of_ne other _ _,
        fun _ other => update_of_ne other _ _⟩

/-- Every thread is ready, and the counters describe the lists. -/
structure Sound (prm : RobParams) (rob : SquashRob) : Prop where
  counted : Rob.Counted prm rob.toRob
  ready : ∀ tid, Ready tid rob

theorem Sound.squashed {t : Nat} (sound : Sound prm rob) (same : Same t rob r)
    (idle : rob.instList t = [] → r.doneSquashing t = true) : Sound prm r := by
  refine ⟨same.toRob ▸ sound.counted, fun tid => ?_⟩
  have ready := sound.ready tid
  refine ⟨same.instList ▸ ready.sorted, ?_, same.instList ▸ ready.own, fun empty => ?_⟩
  · rw [same.instList, same.threadEntries]
    exact ready.counted
  · rw [same.instList] at empty
    by_cases own : tid = t
    · subst own
      exact idle empty
    · rw [same.doneSquashing tid own]
      exact ready.idle empty

theorem Sound.insertInst {inst : DynInst} (sound : Sound prm rob)
    (allowed : Allowed prm rob (.insertInst inst))
    (called : rob.call prm width (.insertInst inst) = some r) : Sound prm r := by
  obtain ⟨next, inserted, rfl⟩ := Option.map_eq_some_iff.mp called
  have counted := (sound.counted.insertInst allowed.1 inserted).1
  obtain ⟨-, -, -, -, lists⟩ := Rob.insertInst_eq inserted
  refine ⟨counted, fun tid => ?_⟩
  have ready := sound.ready tid
  by_cases own : tid = inst.threadNumber
  · subst own
    have list : next.instList inst.threadNumber = rob.instList inst.threadNumber ++ [inst] := by
      rw [lists, update_self]
    refine ⟨?_, counted.length _, ?_, fun empty => ?_⟩
    · rw [list, pairwise_append]
      refine ⟨ready.sorted, pairwise_singleton _ _, fun older mem new_ here => ?_⟩
      rw [List.mem_singleton.mp here]
      exact allowed.2 older mem
    · intro other mem
      rw [list] at mem
      rcases List.mem_append.mp mem with before | here
      · exact ready.own other before
      · rw [List.mem_singleton.mp here]
    · rw [list] at empty
      simp at empty
  · have list : next.instList tid = rob.instList tid := by
      rw [lists, update_of_ne own]
    exact ⟨list ▸ ready.sorted, counted.length _, list ▸ ready.own, list ▸ ready.idle⟩

theorem Sound.retireHead {t : Nat} (sound : Sound prm rob)
    (allowed : Allowed prm rob (.retireHead t))
    (called : rob.call prm width (.retireHead t) = some r) : Sound prm r := by
  obtain ⟨next, retired, rfl⟩ := Option.map_eq_some_iff.mp called
  have counted := (sound.counted.retireHead allowed.1 retired).1
  obtain ⟨inst, insts, head, -, -, -, lists⟩ := Rob.retireHead_eq retired
  refine ⟨counted, fun tid => ?_⟩
  have ready := sound.ready tid
  by_cases own : tid = t
  · subst own
    have list : next.instList tid = insts := by rw [lists, update_self]
    refine ⟨?_, counted.length _, fun other mem => ?_, fun _ => allowed.2⟩
    · rw [list]
      exact (List.pairwise_cons.mp (head ▸ ready.sorted)).2
    · rw [list] at mem
      exact ready.own other (head ▸ List.mem_cons_of_mem inst mem)
  · have list : next.instList tid = rob.instList tid := by
      rw [lists, update_of_ne own]
    exact ⟨list ▸ ready.sorted, counted.length _, list ▸ ready.own, list ▸ ready.idle⟩

theorem Sound.call {c : Call} (sound : Sound prm rob) (allowed : Allowed prm rob c)
    (called : rob.call prm width c = some r) : Sound prm r := by
  cases c with
  | insertInst => exact sound.insertInst allowed called
  | retireHead => exact sound.retireHead allowed called
  | setCanCommit =>
    cases called
    exact ⟨sound.counted, fun tid =>
      ⟨(sound.ready tid).sorted, (sound.ready tid).counted, (sound.ready tid).own,
        (sound.ready tid).idle⟩⟩
  | squash m tid =>
    obtain ⟨same, none⟩ := squash_same called
    refine sound.squashed same fun empty => ?_
    rcases none with rfl | some_
    · exact (sound.ready tid).idle empty
    · have counted := (sound.ready tid).counted
      rw [empty] at counted
      exact absurd (eq_of_toNat_eq counted) some_
  | doSquash =>
    obtain ⟨same, some_⟩ := doSquash_same called
    exact sound.squashed same fun empty => absurd empty some_

/-- A squash may come at any time. -/
theorem reached_ready (run : Leads (call prm width) (Allowed prm) (new prm) rob) (tid : Nat) :
    Ready tid rob := by
  have sound : Sound prm rob :=
    run.invariant ⟨Rob.new_counted prm, fun tid => ⟨.nil, rfl, by simp [new, Rob.new],
      fun _ => rfl⟩⟩ fun _ _ _ sound allowed called => sound.call allowed called
  exact sound.ready tid

/-- A buffer of eight entries for one thread. -/
def oneThread : RobParams := ⟨.dynamic, 8, 0, 1⟩

theorem reached_ready_inserted :
    ∃ rob, call oneThread 1 (new oneThread) (.insertInst ⟨1, 0⟩) = some rob ∧ Ready 0 rob := by
  obtain ⟨rob, called⟩ := Option.isSome_iff_exists.mp
    (show (call oneThread 1 (new oneThread) (.insertInst ⟨1, 0⟩)).isSome by decide)
  have allowed : Allowed oneThread (new oneThread) (.insertInst ⟨1, 0⟩) :=
    ⟨by decide, fun older mem => absurd mem (by simp [new, Rob.new])⟩
  exact ⟨rob, called, reached_ready (.tail _ .refl allowed called) 0⟩

/-- Three instructions of thread 0 and one of thread 1. -/
def three : SquashRob where
  maxEntries _ := 8
  threadEntries t := if t = 0 then 3 else 1
  instList t := if t = 0 then [⟨1, 0⟩, ⟨3, 0⟩, ⟨4, 0⟩] else [⟨2, 1⟩]
  numInstsInROB := 4
  activeThreads := [0, 1]
  head := some ⟨1, 0⟩
  tail := some ⟨4, 0⟩
  status _ := ⟨false, false⟩
  squashIt _ := none
  squashedSeqNum _ := 0
  doneSquashing _ := true

theorem squash_marks_younger_three :
    ∃ r, Squashes 1 0 three 1 r ∧ r.doneSquashing 0 = true ∧ r.status ⟨3, 0⟩ = ⟨true, true⟩ ∧
      r.status ⟨1, 0⟩ = ⟨false, false⟩ ∧ r.status ⟨2, 1⟩ = ⟨false, false⟩ := by
  have ready : Ready 0 three := by
    refine ⟨by decide, by decide, by decide, fun empty => ?_⟩
    cases empty
  obtain ⟨starts, runs⟩ := squash_marks_younger ready (Nat.le_refl 1)
  obtain ⟨r, called⟩ := Option.isSome_iff_exists.mp (starts 1)
  obtain ⟨r', -, run, done⟩ := (runs 1 r (.squash 1 called)).2.2.1
  have marks := (runs 1 r' run).2.2.2.1 done
  exact ⟨r', run, done, marks ⟨3, 0⟩, marks ⟨1, 0⟩, marks ⟨2, 1⟩⟩

end SquashRob

end Gem5.O3
