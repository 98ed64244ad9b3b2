import Gem5.Pred.Tournament

/-!
# What a squash recovers of the tournament predictor

A record keeps the global history and, of a conditional branch, the local history it was looked
up at, so undoing the records brings both back. An unconditional branch without a target clears
the lowest bit of a local history that its record does not keep.
-/

namespace Gem5.Pred

open Function BitVec

variable {PC σ η τ ι : Type} {N : Nat} [NeZero N]

namespace Driver

/-- The arguments of a prediction; `btb` is what the BTB holds for the branch. -/
structure Prediction (PC : Type) where
  inst : StaticInst PC
  seqNum : InstSeqNum
  pc : PC
  btb : Option PC

variable (p : Predictors PC σ η τ ι)

def predictOne (u : Driver PC σ η τ ι N) (b : Prediction PC) : Driver PC σ η τ ι N :=
  (u.predict p b.inst b.seqNum b.pc b.btb).2.2

def predictAll (u : Driver PC σ η τ ι N) (bs : List (Prediction PC)) : Driver PC σ η τ ι N :=
  bs.foldl (predictOne p) u

/-- What the direction predictor stores for a prediction. -/
def storedFor (u : Driver PC σ η τ ι N) (b : Prediction PC) : η :=
  (redirect p u b.inst (p.isa.instAddr b.pc) b.btb).2.2

/-- The direction predictor after some predictions were made and undone. -/
def unwound (u : Driver PC σ η τ ι N) : List (Prediction PC) → σ
  | [] => u.dir
  | b :: bs => p.direction.squash (unwound (predictOne p u b) bs) (storedFor p u b)

variable {p} {u : Driver PC σ η τ ι N} {sn : InstSeqNum}

theorem squashLoop_predictAll (bs : List (Prediction PC)) (later : ∀ b ∈ bs, sn < b.seqNum)
    (ras : ReturnAddrStack PC N) (ind : τ) : ∃ ras' ind',
      squashLoop p sn ras (predictAll p u bs).dir ind (predictAll p u bs).predHist
        = squashLoop p sn ras' (unwound p u bs) ind' u.predHist := by
  induction bs generalizing u with
  | nil => exact ⟨ras, ind, rfl⟩
  | cons b bs ih =>
    obtain ⟨first, rest⟩ := List.forall_mem_cons.mp later
    obtain ⟨ras', ind', undone⟩ := ih (u := predictOne p u b) rest
    have own : (makeRecord p u b.inst b.seqNum b.pc b.btb).seqNum = b.seqNum :=
      (outcome_predHist b.inst b.seqNum b.pc b.btb).2
    rw [show (predictOne p u b).predHist
      = makeRecord p u b.inst b.seqNum b.pc b.btb :: u.predHist from rfl, squashLoop, own,
      if_pos first] at undone
    exact ⟨_, _, undone⟩

omit [NeZero N] in
theorem squashLoop_stops {ras : ReturnAddrStack PC N} {dir : σ} {ind : τ}
    {hist : List (Record PC η ι N)} (older : ∀ e ∈ hist, e.seqNum ≤ sn) :
    squashLoop p sn ras dir ind hist = ⟨ras, hist, dir, ind⟩ := by
  cases hist with
  | nil => rfl
  | cons e rest => rw [squashLoop, if_neg (Nat.not_lt.mpr (older e List.mem_cons_self))]

theorem squash_predictAll (older : ∀ e ∈ u.predHist, e.seqNum ≤ sn) {bs : List (Prediction PC)}
    (later : ∀ b ∈ bs, sn < b.seqNum) : ((predictAll p u bs).squash p sn).dir = unwound p u bs := by
  obtain ⟨ras', ind', undone⟩ := squashLoop_predictAll (p := p) (u := u) bs later
    (predictAll p u bs).ras
    (if p.hasIPred then p.iPred.squash (predictAll p u bs).ind sn else (predictAll p u bs).ind)
  rw [squash, undone, squashLoop_stops older]

end Driver

namespace TournamentBP

open Driver

variable {p : Predictors PC TournamentBP BPHistory τ ι} {prm : TournamentParams}
  {u : Driver PC TournamentBP BPHistory τ ι N} {sn : InstSeqNum}

/-- The entry of the table of local histories that a branch uses. -/
def entryOf (p : Predictors PC TournamentBP BPHistory τ ι) (prm : TournamentParams)
    (b : Prediction PC) : Nat :=
  (calcLocHistIdx prm (p.isa.instAddr b.pc)).toNat

/-- An unconditional branch, no call or return, that finds no target in the BTB. -/
def Baffled (p : Predictors PC TournamentBP BPHistory τ ι) (b : Prediction PC) : Bool :=
  b.inst.isUncondCtrl && asksBtb p b.inst true && b.btb.isNone && !b.inst.isCall

/-- Among the branches that use entry `i`, such a one comes before every conditional one. -/
def firstBaffled (p : Predictors PC TournamentBP BPHistory τ ι) (prm : TournamentParams) (i : Nat) :
    List (Prediction PC) → Bool
  | [] => false
  | b :: bs =>
    if entryOf p prm b = i && !b.inst.isUncondCtrl then false
    else if entryOf p prm b = i && Baffled p b then true
    else firstBaffled p prm i bs

/-- The bits of a local history that the predictor reads. -/
def readBits (prm : TournamentParams) (t : TournamentBP) (i : Nat) : BitVec 32 :=
  t.localHistoryTable i &&& prm.localPredictorMask

structure SameCounters (t t' : TournamentBP) : Prop where
  localCtrs : t'.localCtrs = t.localCtrs
  globalCtrs : t'.globalCtrs = t.globalCtrs
  choiceCtrs : t'.choiceCtrs = t.choiceCtrs

theorem SameCounters.trans {t t' t'' : TournamentBP} (first : SameCounters t t')
    (second : SameCounters t' t'') : SameCounters t t'' :=
  ⟨second.localCtrs.trans first.localCtrs, second.globalCtrs.trans first.globalCtrs,
    second.choiceCtrs.trans first.choiceCtrs⟩

/-- The histories and the counters before some predictions are those after their squash, and no
prediction has changed a counter. -/
structure Restored (p : Predictors PC TournamentBP BPHistory τ ι) (prm : TournamentParams)
    (sn : InstSeqNum) (u : Driver PC TournamentBP BPHistory τ ι N) (bs : List (Prediction PC)) :
    Prop where
  globalHistory : ((predictAll p u bs).squash p sn).dir.globalHistory = u.dir.globalHistory
  localHistories : ∀ i, ((predictAll p u bs).squash p sn).dir.readBits prm i = u.dir.readBits prm i
  throughout : ∀ pre, pre <+: bs → SameCounters u.dir (predictAll p u pre).dir
  counters : SameCounters u.dir ((predictAll p u bs).squash p sn).dir

section Step

variable (tournament : p.direction = direction prm PC) (b : Prediction PC)

variable (prm) in
theorem btbUpdate_spec (t : TournamentBP) (addr : Addr) :
    SameCounters t (btbUpdate prm t addr)
      ∧ (∀ i, i ≠ (calcLocHistIdx prm addr).toNat →
        (btbUpdate prm t addr).localHistoryTable i = t.localHistoryTable i)
      ∧ (btbUpdate prm t addr).localHistoryTable (calcLocHistIdx prm addr).toNat
        = t.localHistoryTable (calcLocHistIdx prm addr).toNat &&& (prm.localPredictorMask &&& ~~~1) :=
  ⟨⟨rfl, rfl, rfl⟩, fun _ other => update_of_ne other _ _, update_self _ _ _⟩

variable (prm) in
theorem lookup_spec (t : TournamentBP) (addr : Addr) :
    SameCounters t (lookup prm t addr).2.1
      ∧ (∀ i, i ≠ (calcLocHistIdx prm addr).toNat →
        (lookup prm t addr).2.1.localHistoryTable i = t.localHistoryTable i) :=
  ⟨⟨rfl, rfl, rfl⟩, fun _ other => update_of_ne other _ _⟩

include tournament

theorem predictOne_uncond (uncond : b.inst.isUncondCtrl = true) :
    storedFor p u b = (uncondBranch prm u.dir).2 ∧ (predictOne p u b).dir
      = if Baffled p b then
          btbUpdate prm (u.dir.updateGlobalHist prm true) (p.isa.instAddr b.pc)
        else u.dir.updateGlobalHist prm true := by
  have direct : direct p u b.inst (p.isa.instAddr b.pc)
      = (true, u.dir.updateGlobalHist prm true, (uncondBranch prm u.dir).2) := by
    rw [Driver.direct, if_pos uncond, tournament]
    rfl
  have both : redirect p u b.inst (p.isa.instAddr b.pc) b.btb = (true,
      if Baffled p b then
        btbUpdate prm (u.dir.updateGlobalHist prm true) (p.isa.instAddr b.pc)
      else u.dir.updateGlobalHist prm true, (uncondBranch prm u.dir).2) := by
    rw [redirect, direct, Baffled, uncond, Bool.true_and, tournament]
    dsimp only
    split <;> rfl
  exact ⟨congrArg (·.2.2) both, congrArg (·.2.1) both⟩

theorem predictOne_cond (cond : b.inst.isUncondCtrl = false) :
    storedFor p u b = (lookup prm u.dir (p.isa.instAddr b.pc)).2.2
      ∧ ((predictOne p u b).dir = (lookup prm u.dir (p.isa.instAddr b.pc)).2.1
        ∨ (predictOne p u b).dir = btbUpdate prm (lookup prm u.dir (p.isa.instAddr b.pc)).2.1
            (p.isa.instAddr b.pc)) := by
  have direct : direct p u b.inst (p.isa.instAddr b.pc)
      = lookup prm u.dir (p.isa.instAddr b.pc) := by
    rw [Driver.direct, cond, if_neg Bool.false_ne_true, tournament]
    rfl
  have one : (predictOne p u b).dir
      = (redirect p u b.inst (p.isa.instAddr b.pc) b.btb).2.1 := rfl
  rw [storedFor, one, redirect, direct, tournament]
  dsimp only
  split
  · exact ⟨rfl, Or.inr rfl⟩
  · exact ⟨rfl, Or.inl rfl⟩

theorem predictOne_frame : SameCounters u.dir (predictOne p u b).dir
    ∧ ∀ i, i ≠ entryOf p prm b →
      (predictOne p u b).dir.localHistoryTable i = u.dir.localHistoryTable i := by
  cases kind : b.inst.isUncondCtrl with
  | true =>
    rw [(predictOne_uncond (u := u) tournament b kind).2]
    split
    · obtain ⟨-, other, -⟩ := btbUpdate_spec prm (u.dir.updateGlobalHist prm true)
        (p.isa.instAddr b.pc)
      exact ⟨⟨rfl, rfl, rfl⟩, other⟩
    · exact ⟨⟨rfl, rfl, rfl⟩, fun _ _ => rfl⟩
  | false =>
    obtain ⟨same, kept⟩ := lookup_spec prm u.dir (p.isa.instAddr b.pc)
    rcases (predictOne_cond (u := u) tournament b kind).2 with plain | cleared
    · rw [plain]
      exact ⟨same, kept⟩
    · rw [cleared]
      obtain ⟨same', kept', -⟩ := btbUpdate_spec prm
        (lookup prm u.dir (p.isa.instAddr b.pc)).2.1 (p.isa.instAddr b.pc)
      exact ⟨same.trans same', fun i other => (kept' i other).trans (kept i other)⟩

theorem storedFor_globalHistory : (storedFor p u b).globalHistory = u.dir.globalHistory := by
  cases kind : b.inst.isUncondCtrl with
  | true => rw [(predictOne_uncond (u := u) tournament b kind).1, uncondBranch]
  | false => rw [(predictOne_cond (u := u) tournament b kind).1, lookup]

end Step

theorem calcLocHistIdx_valid (accepted : prm.Accepted) (addr : Addr) :
    calcLocHistIdx prm addr ≠ invalidPredictorIndex := by
  obtain ⟨k, size⟩ := accepted.power
  have bound := accepted.unsigned
  have le : (calcLocHistIdx prm addr).toNat ≤ 2 ^ k - 1 := by
    rw [calcLocHistIdx, size, toNat_setWidth, toNat_and, toNat_ofNat]
    refine (Nat.mod_le _ _).trans (Nat.and_le_right.trans (Nat.mod_le _ _))
  intro invalid
  rw [invalid, invalidPredictorIndex, toNat_allOnes] at le
  omega

section Undo

variable (tournament : p.direction = direction prm PC)

include tournament

theorem unwound_cons (b : Prediction PC) (bs : List (Prediction PC)) :
    unwound p u (b :: bs) = squash (unwound p (predictOne p u b) bs) (storedFor p u b) := by
  rw [unwound, tournament]
  rfl

theorem unwound_globalHistory (bs : List (Prediction PC)) :
    (unwound p u bs).globalHistory = u.dir.globalHistory := by
  cases bs with
  | nil => rfl
  | cons b bs =>
    rw [unwound_cons tournament]
    exact storedFor_globalHistory tournament b

theorem unwound_counters (bs : List (Prediction PC)) : SameCounters u.dir (unwound p u bs) := by
  induction bs generalizing u with
  | nil => exact ⟨rfl, rfl, rfl⟩
  | cons b bs ih =>
    rw [unwound_cons tournament]
    have frame : SameCounters u.dir (predictOne p u b).dir := (predictOne_frame tournament b).1
    exact (frame.trans ih).trans ⟨rfl, rfl, rfl⟩

theorem predictAll_counters (bs : List (Prediction PC)) :
    SameCounters u.dir (predictAll p u bs).dir := by
  induction bs generalizing u with
  | nil => exact ⟨rfl, rfl, rfl⟩
  | cons b bs ih =>
    have frame : SameCounters u.dir (predictOne p u b).dir := (predictOne_frame tournament b).1
    exact frame.trans ih

section Record

variable {b : Prediction PC}

theorem squash_cond_own (accepted : prm.Accepted) (kind : b.inst.isUncondCtrl = false)
    (t : TournamentBP) : (squash t (storedFor p u b)).readBits prm (entryOf p prm b)
      = u.dir.readBits prm (entryOf p prm b) := by
  have stored := (predictOne_cond (u := u) tournament b kind).1
  have valid := calcLocHistIdx_valid accepted (p.isa.instAddr b.pc)
  rw [readBits, squash, stored, lookup, entryOf]
  simp [valid, readBits, BitVec.and_assoc]

theorem squash_cond_other (kind : b.inst.isUncondCtrl = false) {i : Nat}
    (other : entryOf p prm b ≠ i) (t : TournamentBP) :
    (squash t (storedFor p u b)).readBits prm i = t.readBits prm i := by
  have stored := (predictOne_cond (u := u) tournament b kind).1
  rw [readBits, squash, stored, lookup]
  dsimp only
  split
  · have elsewhere : i ≠ (calcLocHistIdx prm (p.isa.instAddr b.pc)).toNat := Ne.symm other
    rw [update_of_ne elsewhere, readBits]
  · rfl

theorem squash_uncond (kind : b.inst.isUncondCtrl = true) (t : TournamentBP) (i : Nat) :
    (squash t (storedFor p u b)).readBits prm i = t.readBits prm i := by
  rw [readBits, squash, (predictOne_uncond (u := u) tournament b kind).1, uncondBranch]
  rfl

theorem predictOne_readBits (kind : b.inst.isUncondCtrl = true) :
    (predictOne p u b).dir.readBits prm (entryOf p prm b)
      = if Baffled p b then u.dir.readBits prm (entryOf p prm b) &&& ~~~1
        else u.dir.readBits prm (entryOf p prm b) := by
  have after := (predictOne_uncond (u := u) tournament b kind).2
  cases baffled : Baffled p b with
  | false =>
    rw [after, baffled]
    rfl
  | true =>
    have entry := (btbUpdate_spec prm (u.dir.updateGlobalHist prm true)
      (p.isa.instAddr b.pc)).2.2
    rw [after, baffled, if_pos rfl, if_pos rfl, readBits, entryOf, entry, readBits]
    simp only [updateGlobalHist, BitVec.and_assoc]
    rw [BitVec.and_comm (~~~1) prm.localPredictorMask, ← BitVec.and_assoc
      prm.localPredictorMask, BitVec.and_self]

end Record

theorem unwound_readBits (accepted : prm.Accepted) (bs : List (Prediction PC)) (i : Nat) :
    (unwound p u bs).readBits prm i
      = if firstBaffled p prm i bs then u.dir.readBits prm i &&& ~~~1 else u.dir.readBits prm i := by
  induction bs generalizing u with
  | nil => rfl
  | cons b bs ih =>
    rw [unwound_cons tournament, firstBaffled]
    by_cases own : entryOf p prm b = i
    · grind [squash_cond_own, squash_uncond, predictOne_readBits]
    · have frame : (predictOne p u b).dir.localHistoryTable i = u.dir.localHistoryTable i :=
        (predictOne_frame tournament b).2 i (Ne.symm own)
      have kept : (squash (unwound p (predictOne p u b) bs) (storedFor p u b)).readBits prm i
          = (unwound p (predictOne p u b) bs).readBits prm i := by
        cases kind : b.inst.isUncondCtrl with
        | false => exact squash_cond_other tournament kind own _
        | true => exact squash_uncond tournament kind _ i
      rw [kept, ih]
      simp [own, readBits, frame]

end Undo

theorem and_not_one {R : BitVec 32} : R &&& ~~~1 = R ↔ R.getLsbD 0 = false := by
  constructor
  · intro same
    rw [← same]
    simp
  · intro even
    refine eq_of_getLsbD_eq fun j lt => ?_
    rw [getLsbD_and, getLsbD_not, decide_eq_true lt, Bool.true_and]
    rcases Nat.eq_zero_or_pos j with rfl | pos
    · rw [even, Bool.false_and]
    · grind

/-- Some predictions and the squash of all of them leave the histories as they were just when the
local histories that a baffled branch uses first are even. -/
theorem history_restored_iff (tournament : p.direction = direction prm PC)
    (accepted : prm.Accepted) (older : ∀ e ∈ u.predHist, e.seqNum ≤ sn) {bs : List (Prediction PC)}
    (later : ∀ b ∈ bs, sn < b.seqNum) :
    Restored p prm sn u bs
      ↔ ∀ i, firstBaffled p prm i bs = true → (u.dir.readBits prm i).getLsbD 0 = false := by
  have undone : ((predictAll p u bs).squash p sn).dir = unwound p u bs :=
    squash_predictAll older later
  have entry (i : Nat) : ((predictAll p u bs).squash p sn).dir.readBits prm i = u.dir.readBits prm i
      ↔ (firstBaffled p prm i bs = true → (u.dir.readBits prm i).getLsbD 0 = false) := by
    rw [undone, unwound_readBits tournament accepted]
    cases firstBaffled p prm i bs with
    | false => simp
    | true =>
      rw [if_pos rfl, and_not_one]
      exact ⟨fun even _ => even, fun even => even rfl⟩
  constructor
  · exact fun restored i => (entry i).mp (restored.localHistories i)
  · refine fun even => ⟨?_, fun i => (entry i).mpr (even i), fun pre _ => ?_, ?_⟩
    · rw [undone]
      exact unwound_globalHistory tournament bs
    · exact predictAll_counters tournament pre
    · rw [undone]
      exact unwound_counters tournament bs

def smallPrm : TournamentParams := ⟨2, 2, 1, 2, 2, 2, 2, 2⟩

theorem smallPrm_accepted : smallPrm.Accepted := ⟨⟨0, rfl⟩, by decide⟩

/-- It has no indirect predictor. -/
def noIndirect : IndirectPredictor Addr Unit Unit where
  genIndirectInfo := fun _ => ()
  lookup := fun _ _ => none
  recordIndirect := fun _ _ _ _ => ()
  updateDirectionInfo := fun _ _ => ()
  commit := fun _ _ _ => ()
  squash := fun _ _ => ()
  deleteIndirectInfo := fun _ _ => ()
  changeDirectionPrediction := fun _ _ _ => ()
  recordTarget := fun _ _ _ _ _ => ()

def smallPredictors : Predictors Addr TournamentBP BPHistory Unit Unit :=
  ⟨BPredUnit.plainIsa, direction smallPrm Addr, false, noIndirect⟩

def smallUnit : Driver Addr TournamentBP BPHistory Unit Unit 1 :=
  .init BPredUnit.plainIsa ⟨0, fun _ => 0, fun _ => 0, fun _ => 0, fun _ => 0⟩ ()

def conditional : StaticInst Addr := ⟨false, false, false, true, (· + 4)⟩

def jump : StaticInst Addr := ⟨true, false, false, true, (· + 4)⟩

theorem history_restored_small :
    Restored smallPredictors smallPrm 0 smallUnit
      [⟨jump, 1, 0x40, none⟩, ⟨conditional, 2, 0x44, none⟩] := by
  refine (history_restored_iff rfl smallPrm_accepted (fun e mem => absurd mem List.not_mem_nil)
    (by decide)).mpr fun i _ => ?_
  rw [readBits, show smallUnit.dir.localHistoryTable i = 0 from rfl]
  simp

/-- A conditional branch is taken against its prediction; a jump that shares its local history
and is not in the BTB is predicted and squashed. -/
theorem local_history_lost :
    ∃ u, [Driver.Call.predict conditional 1 0x40 none, .squashTo 1 0x80 true 0].foldlM
        (fun u c => Driver.step smallPredictors u c) smallUnit = some u
      ∧ (∀ e ∈ u.predHist, e.seqNum ≤ 1)
      ∧ ¬Restored smallPredictors smallPrm 1 u [⟨jump, 2, 0x80, none⟩] := by
  refine ⟨_, rfl, by decide, fun restored => ?_⟩
  have same := restored.localHistories 0
  exact absurd same (by decide)

end TournamentBP

end Gem5.Pred
