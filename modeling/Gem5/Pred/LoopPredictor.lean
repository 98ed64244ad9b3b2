import Gem5.Lib.Bits
import Gem5.Pred.BPredUnit

/-!
# The loop predictor

A set-associative table of loops with a speculative count of their iterations. `loopPredict`
advances or resets the count of the entry that it finds, and `squash` is to take that back.
-/

namespace Gem5.Pred

open Function BitVec

structure LoopParams where
  logSizeLoopPred : Nat
  loopTableConfidenceBits : Nat
  loopTableTagBits : Nat
  loopTableIterBits : Nat
  logLoopTableAssoc : Nat
  useDirectionBit : Bool
  useSpeculation : Bool
  useHashing : Bool

namespace LoopParams

/-- The assertions of `init`. -/
structure Accepted (prm : LoopParams) : Prop where
  tagBits : prm.loopTableTagBits ≤ 16
  iterBits : prm.loopTableIterBits ≤ 16
  assoc : prm.logLoopTableAssoc ≤ prm.logSizeLoopPred

variable (prm : LoopParams)

def confidenceThreshold : BitVec 8 := mask 8 prm.loopTableConfidenceBits

def loopTagMask : BitVec 16 := mask 16 prm.loopTableTagBits

def loopNumIterMask : BitVec 16 := mask 16 prm.loopTableIterBits

def loopSetMask : Addr := mask 64 (prm.logSizeLoopPred - prm.logLoopTableAssoc)

end LoopParams

structure LoopEntry where
  numIter : BitVec 16
  currentIter : BitVec 16
  currentIterSpec : BitVec 16
  confidence : BitVec 8
  tag : BitVec 16
  dir : Bool
  deriving DecidableEq, Repr

structure LoopPredictor where
  ltable : Nat → LoopEntry
  loopUseCounter : Int

structure LoopBranchInfo where
  loopTag : BitVec 16
  currentIter : BitVec 16
  loopPred : Bool
  loopPredValid : Bool
  loopPredUsed : Bool
  loopIndex : Nat
  loopIndexB : Nat
  loopHit : Int
  deriving DecidableEq, Repr

/-- `makeBranchInfo`; the constructor leaves one field as it finds it. -/
def LoopBranchInfo.new (loopPredUsed : Bool) : LoopBranchInfo where
  loopTag := 0
  currentIter := 0
  loopPred := false
  loopPredValid := false
  loopPredUsed := loopPredUsed
  loopIndex := 0
  loopIndexB := 0
  loopHit := 0

namespace LoopPredictor

variable (prm : LoopParams)

def lindex (pcIn : Addr) (instShiftAmt : Nat) : Nat :=
  let pc := pcIn >>> instShiftAmt
  let pc := if prm.useHashing then pc ^^^ pcIn else pc
  (pc &&& prm.loopSetMask).toNat <<< prm.logLoopTableAssoc

def finallindex (index lowPcBits way : Nat) : Nat :=
  (if prm.useHashing then index ^^^ ((lowPcBits >>> way) <<< prm.logLoopTableAssoc) else index)
    + way

def calcConf (e : LoopEntry) : Bool := e.confidence == prm.confidenceThreshold

/-- The indices and the tag of a branch, as `getLoop` sets them. -/
def locate (pc : Addr) (instShiftAmt : Nat) (bi : LoopBranchInfo) : LoopBranchInfo :=
  let bi := { bi with
    loopHit := -1
    loopPredValid := false
    loopIndex := lindex prm pc instShiftAmt }
  if prm.useHashing then
    let pcShift := prm.logSizeLoopPred - prm.logLoopTableAssoc
    { bi with
      loopIndexB := ((pc >>> pcShift) &&& prm.loopSetMask).toNat
      loopTag := ((pc >>> pcShift) ^^^ (pc >>> (pcShift + prm.loopTableTagBits))).setWidth 16
        &&& prm.loopTagMask }
  else
    let pcShift := instShiftAmt + prm.logSizeLoopPred - prm.logLoopTableAssoc
    { bi with loopTag := (pc >>> pcShift).setWidth 16 &&& prm.loopTagMask }

/-- The first way of the set that has the tag. -/
def findWay (ltable : Nat → LoopEntry) (bi : LoopBranchInfo) : Option Nat :=
  (List.range (2 ^ prm.logLoopTableAssoc)).find? fun i =>
    (ltable (finallindex prm bi.loopIndex bi.loopIndexB i)).tag == bi.loopTag

/-- The prediction comes with the record of the branch. -/
def getLoop (ltable : Nat → LoopEntry) (pc : Addr) (bi : LoopBranchInfo) (speculative : Bool)
    (instShiftAmt : Nat) : Bool × LoopBranchInfo :=
  let bi := locate prm pc instShiftAmt bi
  match findWay prm ltable bi with
  | none => (false, bi)
  | some i =>
    let e := ltable (finallindex prm bi.loopIndex bi.loopIndexB i)
    let iter := if speculative then e.currentIterSpec else e.currentIter
    (if iter.toNat + 1 = e.numIter.toNat then if prm.useDirectionBit then !e.dir else false
      else if prm.useDirectionBit then e.dir else true,
      { bi with loopHit := i, loopPredValid := calcConf prm e })

def modify (lp : LoopPredictor) (index : Nat) (f : LoopEntry → LoopEntry) : LoopPredictor :=
  { lp with ltable := Function.update lp.ltable index (f (lp.ltable index)) }

def specLoopUpdate (lp : LoopPredictor) (taken : Bool) (bi : LoopBranchInfo) : LoopPredictor :=
  if 0 ≤ bi.loopHit then
    lp.modify (finallindex prm bi.loopIndex bi.loopIndexB bi.loopHit.toNat) fun e =>
      if taken ≠ e.dir then { e with currentIterSpec := 0 }
      else { e with currentIterSpec := (e.currentIterSpec + 1) &&& prm.loopNumIterMask }
  else lp

/-- The prediction comes with the record of the branch and the predictor. -/
def loopPredict (lp : LoopPredictor) (branchPC : Addr) (condBranch : Bool) (bi : LoopBranchInfo)
    (prevPredTaken : Bool) (instShiftAmt : Nat) : Bool × LoopBranchInfo × LoopPredictor :=
  if condBranch then
    let (loopPred, bi) := getLoop prm lp.ltable branchPC bi prm.useSpeculation instShiftAmt
    let used := 0 ≤ lp.loopUseCounter && bi.loopPredValid
    let predTaken := if used then loopPred else prevPredTaken
    let bi := { bi with
      loopPred := loopPred
      loopPredUsed := if used then true else bi.loopPredUsed }
    (predTaken, bi, if prm.useSpeculation then lp.specLoopUpdate prm predTaken bi else lp)
  else (prevPredTaken, bi, lp)

/-- `squash`, and `squashLoop`, which is the same. -/
def squash (lp : LoopPredictor) (bi : LoopBranchInfo) : LoopPredictor :=
  if 0 ≤ bi.loopHit then
    lp.modify (finallindex prm bi.loopIndex bi.loopIndexB bi.loopHit.toNat) fun e =>
      { e with currentIterSpec := bi.currentIter }
  else lp

/-- The entry that `loopPredict` finds for a branch. -/
def hitEntry (lp : LoopPredictor) (pc : Addr) (instShiftAmt : Nat) : Option LoopEntry :=
  let bi := locate prm pc instShiftAmt (.new false)
  (findWay prm lp.ltable bi).map fun i =>
    lp.ltable (finallindex prm bi.loopIndex bi.loopIndexB i)

section Indices

variable {prm}

theorem and_loopSetMask_lt (a : Addr) :
    (a &&& prm.loopSetMask).toNat < 2 ^ (prm.logSizeLoopPred - prm.logLoopTableAssoc) := by
  refine Nat.lt_of_le_of_lt Nat.and_le_right ?_
  exact Nat.lt_of_le_of_lt (Nat.mod_le _ _) (Nat.sub_lt (Nat.two_pow_pos _) Nat.one_pos)

theorem finallindex_lt (accepted : prm.Accepted) {set low way : Nat}
    (inSet : set < 2 ^ (prm.logSizeLoopPred - prm.logLoopTableAssoc))
    (inLow : low < 2 ^ (prm.logSizeLoopPred - prm.logLoopTableAssoc))
    (inWay : way < 2 ^ prm.logLoopTableAssoc) :
    finallindex prm (set <<< prm.logLoopTableAssoc) low way < 2 ^ prm.logSizeLoopPred := by
  obtain ⟨s, small, eq⟩ : ∃ s, s < 2 ^ (prm.logSizeLoopPred - prm.logLoopTableAssoc) ∧
      finallindex prm (set <<< prm.logLoopTableAssoc) low way
        = s * 2 ^ prm.logLoopTableAssoc + way := by
    unfold finallindex
    split
    · refine ⟨set ^^^ (low >>> way), Nat.xor_lt_two_pow inSet ?_, ?_⟩
      · exact Nat.lt_of_le_of_lt (Nat.shiftRight_le _ _) inLow
      · rw [← Nat.shiftLeft_xor_distrib, Nat.shiftLeft_eq]
    · exact ⟨set, inSet, by rw [Nat.shiftLeft_eq]⟩
  have whole : 2 ^ prm.logSizeLoopPred
      = 2 ^ (prm.logSizeLoopPred - prm.logLoopTableAssoc) * 2 ^ prm.logLoopTableAssoc := by
    rw [← Nat.pow_add, Nat.sub_add_cancel accepted.assoc]
  rw [eq, whole]
  calc s * 2 ^ prm.logLoopTableAssoc + way
      < (s + 1) * 2 ^ prm.logLoopTableAssoc := by rw [Nat.succ_mul]; omega
    _ ≤ _ := Nat.mul_le_mul_right _ small

theorem findWay_lt {ltable : Nat → LoopEntry} {bi : LoopBranchInfo} {way : Nat}
    (found : findWay prm ltable bi = some way) : way < 2 ^ prm.logLoopTableAssoc :=
  List.mem_range.mp (List.mem_of_find?_eq_some found)

/-- Where `loopPredict` looks for a branch, in the way that it gives. -/
def indexOf (prm : LoopParams) (pc : Addr) (instShiftAmt way : Nat) : Nat :=
  let bi := locate prm pc instShiftAmt (.new false)
  finallindex prm bi.loopIndex bi.loopIndexB way

theorem indexOf_lt (accepted : prm.Accepted) (pc : Addr) (instShiftAmt : Nat) {way : Nat}
    (inWay : way < 2 ^ prm.logLoopTableAssoc) :
    indexOf prm pc instShiftAmt way < 2 ^ prm.logSizeLoopPred := by
  unfold indexOf locate
  split
  · exact finallindex_lt accepted (and_loopSetMask_lt _) (and_loopSetMask_lt _) inWay
  · exact finallindex_lt accepted (and_loopSetMask_lt _) (Nat.two_pow_pos _) inWay

end Indices

section Undo

variable {prm} {lp : LoopPredictor} {pc : Addr} {used prev : Bool} {instShiftAmt : Nat}

variable (prev) in
theorem loopPredict_miss
    (none : findWay prm lp.ltable (locate prm pc instShiftAmt (.new used)) = none) :
    (lp.loopPredict prm pc true (.new used) prev instShiftAmt).2.1.loopHit = -1
      ∧ (lp.loopPredict prm pc true (.new used) prev instShiftAmt).2.2 = lp := by
  have hit : (locate prm pc instShiftAmt (.new used)).loopHit = -1 := by
    unfold locate
    split <;> rfl
  have valid : (locate prm pc instShiftAmt (.new used)).loopPredValid = false := by
    unfold locate
    split <;> rfl
  simp [loopPredict, getLoop, none, hit, valid, specLoopUpdate]

theorem modify_of_ne {i index : Nat} (f : LoopEntry → LoopEntry) (other : i ≠ index) :
    (lp.modify index f).ltable i = lp.ltable i :=
  update_of_ne other _ _

theorem modify_self {index : Nat} (f : LoopEntry → LoopEntry) :
    (lp.modify index f).ltable index = f (lp.ltable index) :=
  update_self _ _ _

theorem specLoopUpdate_of_ne {taken : Bool} {bi : LoopBranchInfo} {i : Nat}
    (other : i ≠ finallindex prm bi.loopIndex bi.loopIndexB bi.loopHit.toNat) :
    (lp.specLoopUpdate prm taken bi).ltable i = lp.ltable i := by
  unfold specLoopUpdate
  split
  · exact modify_of_ne _ other
  · rfl

variable (prev) in
/-- Otherwise the record points at the entry found, the only one that changes, and keeps the
iteration count that it was made with. -/
theorem loopPredict_hit (spec : prm.useSpeculation = true) {way : Nat}
    (found : findWay prm lp.ltable (locate prm pc instShiftAmt (.new used)) = some way) :
    let p := lp.loopPredict prm pc true (.new used) prev instShiftAmt
    p.2.1.loopHit = way
      ∧ finallindex prm p.2.1.loopIndex p.2.1.loopIndexB way = indexOf prm pc instShiftAmt way
      ∧ p.2.1.currentIter = 0
      ∧ ∀ i, i ≠ indexOf prm pc instShiftAmt way → p.2.2.ltable i = lp.ltable i := by
  obtain ⟨index, count⟩ : finallindex prm (locate prm pc instShiftAmt (.new used)).loopIndex
        (locate prm pc instShiftAmt (.new used)).loopIndexB way = indexOf prm pc instShiftAmt way
      ∧ (locate prm pc instShiftAmt (.new used)).currentIter = 0 := by
    unfold indexOf locate
    split <;> exact ⟨rfl, rfl⟩
  simp only [loopPredict, getLoop, found, spec, if_true]
  refine ⟨trivial, index, count, fun i other => ?_⟩
  exact specLoopUpdate_of_ne (by rwa [Int.toNat_natCast, index])

variable (used) in
theorem hitEntry_eq : lp.hitEntry prm pc instShiftAmt
    = (findWay prm lp.ltable (locate prm pc instShiftAmt (.new used))).map fun i =>
      lp.ltable (indexOf prm pc instShiftAmt i) := by
  have same : findWay prm lp.ltable (locate prm pc instShiftAmt (.new used))
      = findWay prm lp.ltable (locate prm pc instShiftAmt (.new false)) := by
    unfold locate
    split <;> rfl
  rw [hitEntry, same]
  rfl

/-- The squash of a branch right after its prediction restores the speculative counts of the
table just when the branch hits no entry, or one with a count of zero. -/
theorem squash_restores_iff (accepted : prm.Accepted) (spec : prm.useSpeculation = true)
    (lp : LoopPredictor) (pc : Addr) (used prev : Bool) (instShiftAmt : Nat) :
    (∀ i < 2 ^ prm.logSizeLoopPred,
        (((lp.loopPredict prm pc true (.new used) prev instShiftAmt).2.2.squash prm
          (lp.loopPredict prm pc true (.new used) prev instShiftAmt).2.1).ltable i).currentIterSpec
        = (lp.ltable i).currentIterSpec)
      ↔ ∀ e, lp.hitEntry prm pc instShiftAmt = some e → e.currentIterSpec = 0 := by
  rw [hitEntry_eq used]
  cases found : findWay prm lp.ltable (locate prm pc instShiftAmt (.new used)) with
  | none =>
    obtain ⟨hit, same⟩ := loopPredict_miss prev found
    rw [squash, hit, same]
    simp
  | some way =>
    obtain ⟨hit, index, count, others⟩ := loopPredict_hit prev spec found
    generalize lp.loopPredict prm pc true (.new used) prev instShiftAmt = p at *
    have after : ∀ i, ((p.2.2.squash prm p.2.1).ltable i).currentIterSpec
        = if i = indexOf prm pc instShiftAmt way then 0 else (lp.ltable i).currentIterSpec := by
      intro i
      rw [squash, hit, if_pos (Int.natCast_nonneg way), Int.toNat_natCast, index, count]
      by_cases here : i = indexOf prm pc instShiftAmt way
      · rw [if_pos here, here, modify_self]
      · rw [if_neg here, modify_of_ne _ here, others i here]
    simp only [after, Option.map_some, Option.some.injEq, forall_eq']
    constructor
    · intro restored
      have here := restored _ (indexOf_lt accepted pc instShiftAmt (findWay_lt found))
      rw [if_pos rfl] at here
      exact here.symm
    · intro zero i _
      split
      next here => rw [here, zero]
      next => rfl

end Undo

/-- Four sets of one entry, without hashing; every count has four bits. -/
def smallLoops : LoopParams := ⟨2, 2, 4, 4, 0, false, true, false⟩

/-- All entries have the tag of a branch at address zero, and a speculative count of three. -/
def countingLoops : LoopPredictor := ⟨fun _ => ⟨5, 3, 3, 3, 0, false⟩, -1⟩

theorem smallLoops_accepted : smallLoops.Accepted := ⟨by decide, by decide, by decide⟩

/-- The same entries without iterations in flight. -/
def restingLoops : LoopPredictor := ⟨fun _ => ⟨5, 3, 0, 3, 0, false⟩, -1⟩

theorem squash_restores_fresh :
    smallLoops.Accepted ∧ ∀ i < 4,
      (((restingLoops.loopPredict smallLoops 0 true (.new false) true 0).2.2.squash smallLoops
        (restingLoops.loopPredict smallLoops 0 true (.new false) true 0).2.1).ltable
          i).currentIterSpec = (restingLoops.ltable i).currentIterSpec :=
  ⟨smallLoops_accepted,
    (squash_restores_iff smallLoops_accepted rfl restingLoops 0 false true 0).mpr (by decide)⟩

/-- The count of three comes back as zero. -/
theorem squash_resets_count :
    ¬ ∀ i < 4, (((countingLoops.loopPredict smallLoops 0 true (.new false) true 0).2.2.squash
        smallLoops (countingLoops.loopPredict smallLoops 0 true (.new false) true 0).2.1).ltable
          i).currentIterSpec = (countingLoops.ltable i).currentIterSpec := by
  decide

end LoopPredictor

end Gem5.Pred
