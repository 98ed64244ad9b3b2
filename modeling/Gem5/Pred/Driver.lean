import Gem5.Pred.RasRecovery

/-!
# Driving the predictors

The direction predictor and the indirect predictor are classes of their own. A prediction stores
in its record what they need to undo it, and `squash` hands that back to them from the youngest
record on. The records and the stack are those of the thread alone, which sees the answers of the
predictors.
-/

namespace Gem5.Pred

open List

variable {squashedSN : InstSeqNum}

variable {PC σ η τ ι : Type} {N : Nat} [NeZero N]

/-- The virtual functions of a direction predictor, for one thread; `η` is what `bp_history`
points to. -/
structure DirectionPredictor (PC σ η : Type) where
  lookup : σ → Addr → Bool × σ × η
  uncondBranch : σ → Addr → σ × η
  btbUpdate : σ → Addr → η → σ × η
  update : σ → StaticInst PC → Addr → Bool → η → Bool → Addr → σ × η
  squash : σ → η → σ

/-- Those of an indirect predictor; `ι` is what `indirect_history` points to, and the number that
`recordTarget` takes is what `rand` gives. -/
structure IndirectPredictor (PC τ ι : Type) where
  genIndirectInfo : τ → ι
  lookup : τ → Addr → Option PC
  recordIndirect : τ → Addr → Addr → InstSeqNum → τ
  updateDirectionInfo : τ → Bool → τ
  commit : τ → InstSeqNum → ι → τ
  squash : τ → InstSeqNum → τ
  deleteIndirectInfo : τ → ι → τ
  changeDirectionPrediction : τ → ι → Bool → τ
  recordTarget : τ → Nat → InstSeqNum → ι → PC → τ

/-- A record with what the two predictors stored in it. -/
structure Record (PC η ι : Type) (N : Nat) extends PredictorHistory PC N where
  inst : StaticInst PC
  bpHistory : η
  indirectHistory : ι

structure Predictors (PC σ η τ ι : Type) where
  isa : Isa PC
  direction : DirectionPredictor PC σ η
  /-- Whether there is an indirect predictor; it is not called otherwise. -/
  hasIPred : Bool
  iPred : IndirectPredictor PC τ ι

/-- One thread with the states of the predictors. -/
structure Driver (PC σ η τ ι : Type) (N : Nat) where
  ras : ReturnAddrStack PC N
  predHist : List (Record PC η ι N)
  dir : σ
  ind : τ

variable {l : List (Record PC η ι N)} {dir : σ} {ras : ReturnAddrStack PC N}

namespace Driver

def init (isa : Isa PC) (dir : σ) (ind : τ) : Driver PC σ η τ ι N := ⟨.reset isa, [], dir, ind⟩

/-- The thread without the predictors. -/
def thread (u : Driver PC σ η τ ι N) : Thread PC N :=
  ⟨u.ras, u.predHist.map Record.toPredictorHistory⟩

variable (p : Predictors PC σ η τ ι) (u : Driver PC σ η τ ι N)

/-- The first calls of `predict`: the direction, and what the predictors store. -/
def direct (inst : StaticInst PC) (addr : Addr) : Bool × σ × η :=
  if inst.isUncondCtrl then (true, p.direction.uncondBranch u.dir addr)
  else p.direction.lookup u.dir addr

/-- A branch predicted taken whose target the BTB is asked for. -/
def asksBtb (inst : StaticInst PC) (origPredTaken : Bool) : Bool :=
  origPredTaken && !inst.isReturn && (inst.isDirectCtrl || !p.hasIPred)

def asksIndirect (inst : StaticInst PC) (origPredTaken : Bool) : Bool :=
  origPredTaken && !inst.isReturn && !(inst.isDirectCtrl || !p.hasIPred)

/-- What a prediction leaves of the direction predictor: without a target it takes the direction
back, but not for a call. -/
def redirect (inst : StaticInst PC) (addr : Addr) (btb : Option PC) : Bool × σ × η :=
  let (origPredTaken, dir, bpHistory) := direct p u inst addr
  if asksBtb p inst origPredTaken && btb.isNone && !inst.isCall then
    (origPredTaken, p.direction.btbUpdate dir addr bpHistory)
  else (origPredTaken, dir, bpHistory)

/-- What a prediction leaves of the indirect predictor. -/
def recordPath (inst : StaticInst PC) (addr target : Addr) (seqNum : InstSeqNum)
    (origPredTaken : Bool) : τ :=
  if p.hasIPred then
    let ind :=
      if asksIndirect p inst origPredTaken then p.iPred.recordIndirect u.ind addr target seqNum
      else u.ind
    p.iPred.updateDirectionInfo ind origPredTaken
  else u.ind

/-- The answers the thread gets; `btb` is what the BTB holds for the branch. -/
def answers (inst : StaticInst PC) (pc : PC) (btb : Option PC) : Answers PC :=
  let addr := p.isa.instAddr pc
  ⟨(redirect p u inst addr btb).1, btb, p.iPred.lookup u.ind addr⟩

/-- The prediction, the predicted PC and the thread with its new record. -/
def outcome (inst : StaticInst PC) (seqNum : InstSeqNum) (pc : PC) (btb : Option PC) :
    Bool × PC × Thread PC N :=
  u.thread.predict p.isa p.hasIPred inst seqNum pc (answers p u inst pc btb)

def makeRecord (inst : StaticInst PC) (seqNum : InstSeqNum) (pc : PC) (btb : Option PC) :
    Record PC η ι N :=
  let (origPredTaken, _, bpHistory) := redirect p u inst (p.isa.instAddr pc) btb
  let new := PredictorHistory.new p.isa seqNum (p.isa.instAddr pc) origPredTaken
  ⟨(outcome p u inst seqNum pc btb).2.2.predHist.headD new, inst, bpHistory,
    p.iPred.genIndirectInfo u.ind⟩

def predict (inst : StaticInst PC) (seqNum : InstSeqNum) (pc : PC) (btb : Option PC) :
    Bool × PC × Driver PC σ η τ ι N :=
  let (origPredTaken, dir, _) := redirect p u inst (p.isa.instAddr pc) btb
  let (predTaken, target, t) := outcome p u inst seqNum pc btb
  (predTaken, target,
    { ras := t.ras
      predHist := makeRecord p u inst seqNum pc btb :: u.predHist
      dir := dir
      ind := recordPath p u inst (p.isa.instAddr pc) (p.isa.instAddr target) seqNum origPredTaken })

/-- The loop of `update`, over the records from the oldest on. -/
def updateLoop (doneSN : InstSeqNum) :
    List (Record PC η ι N) → σ → τ → List (Record PC η ι N) × σ × τ
  | [], dir, ind => ([], dir, ind)
  | e :: rest, dir, ind =>
    if e.seqNum ≤ doneSN then
      let dir := (p.direction.update dir e.inst e.pc e.predTaken e.bpHistory false e.target).1
      let ind := if p.hasIPred then p.iPred.commit ind doneSN e.indirectHistory else ind
      updateLoop doneSN rest dir ind
    else (e :: rest, dir, ind)

def update (doneSN : InstSeqNum) : Driver PC σ η τ ι N :=
  let (left, dir, ind) := updateLoop p doneSN u.predHist.reverse u.dir u.ind
  { u with predHist := left.reverse, dir := dir, ind := ind }

/-- The loop of `squash`, over the records from the youngest on. -/
def squashLoop (squashedSN : InstSeqNum) (ras : ReturnAddrStack PC N) (dir : σ) (ind : τ) :
    List (Record PC η ι N) → Driver PC σ η τ ι N
  | [] => ⟨ras, [], dir, ind⟩
  | e :: rest =>
    if squashedSN < e.seqNum then
      squashLoop squashedSN (e.toPredictorHistory.undo ras) (p.direction.squash dir e.bpHistory)
        (if p.hasIPred then p.iPred.deleteIndirectInfo ind e.indirectHistory else ind) rest
    else ⟨ras, e :: rest, dir, ind⟩

def squash (squashedSN : InstSeqNum) : Driver PC σ η τ ι N :=
  squashLoop p squashedSN u.ras u.dir (if p.hasIPred then p.iPred.squash u.ind squashedSN else u.ind)
    u.predHist

/-- The indirect predictor that a corrected branch finds, before its target is recorded. -/
def corrected (ind : τ) (e : Record PC η ι N) (actuallyTaken : Bool) : τ :=
  if p.hasIPred then p.iPred.changeDirectionPrediction ind e.indirectHistory actuallyTaken else ind

/-- The squash of a mispredicted branch; `none` where the assertion on the front record fails. -/
def squashTo (squashedSN : InstSeqNum) (corrTarget : PC) (actuallyTaken : Bool) (rand : Nat) :
    Option (Driver PC σ η τ ι N) :=
  let u := u.squash p squashedSN
  match u.predHist with
  | [] => some u
  | e :: rest =>
    if e.seqNum = squashedSN then
      let target := p.isa.instAddr corrTarget
      let (dir, bpHistory) :=
        p.direction.update u.dir e.inst e.pc actuallyTaken e.bpHistory true target
      let ind := corrected p u.ind e actuallyTaken
      let (ras, history) := Thread.correct u.ras
        { e.toPredictorHistory with predTaken := actuallyTaken, target := target } actuallyTaken
      let ind :=
        if actuallyTaken && e.wasIndirect && p.hasIPred then
          p.iPred.recordTarget ind rand e.seqNum e.indirectHistory corrTarget
        else ind
      some { ras := ras, predHist := ⟨history, e.inst, bpHistory, e.indirectHistory⟩ :: rest,
             dir := dir, ind := ind }
    else none

/-- The calls on one thread. -/
inductive Call (PC : Type) where
  | predict (inst : StaticInst PC) (seqNum : InstSeqNum) (pc : PC) (btb : Option PC)
  | update (doneSN : InstSeqNum)
  | squash (squashedSN : InstSeqNum)
  | squashTo (squashedSN : InstSeqNum) (corrTarget : PC) (actuallyTaken : Bool) (rand : Nat)

def step : Call PC → Option (Driver PC σ η τ ι N)
  | .predict inst seqNum pc btb => some (u.predict p inst seqNum pc btb).2.2
  | .update doneSN => some (u.update p doneSN)
  | .squash squashedSN => some (u.squash p squashedSN)
  | .squashTo squashedSN corrTarget actuallyTaken rand =>
    u.squashTo p squashedSN corrTarget actuallyTaken rand

/-- The call that the thread alone sees. -/
def Call.plain : Call PC → Gem5.Pred.Call PC
  | .predict inst seqNum pc btb =>
    .predict inst seqNum pc (answers p u inst pc btb)
  | .update doneSN => .update doneSN
  | .squash squashedSN => .squash squashedSN
  | .squashTo squashedSN corrTarget actuallyTaken _ =>
    .squashTo squashedSN (p.isa.instAddr corrTarget) actuallyTaken

section Thread

variable {p u}

theorem outcome_predHist (inst : StaticInst PC) (seqNum : InstSeqNum) (pc : PC) (btb : Option PC) :
    (outcome p u inst seqNum pc btb).2.2.predHist
        = (makeRecord p u inst seqNum pc btb).toPredictorHistory :: u.thread.predHist
      ∧ (makeRecord p u inst seqNum pc btb).seqNum = seqNum := by
  obtain ⟨e, new, own⟩ := u.thread.predict_predHist p.isa p.hasIPred inst seqNum pc
    (answers p u inst pc btb)
  have record : (makeRecord p u inst seqNum pc btb).toPredictorHistory = e := by
    rw [makeRecord]
    simp [outcome, new]
  rw [record]
  exact ⟨new, own⟩

theorem thread_predict (inst : StaticInst PC) (seqNum : InstSeqNum) (pc : PC) (btb : Option PC) :
    (u.predict p inst seqNum pc btb).2.2.thread = (outcome p u inst seqNum pc btb).2.2 := by
  have new := (outcome_predHist (p := p) (u := u) inst seqNum pc btb).1
  rw [predict, thread, List.map_cons]
  generalize outcome p u inst seqNum pc btb = o at new
  obtain ⟨taken, target, ras, hist⟩ := o
  dsimp only at new ⊢
  rw [new]
  rfl

omit [NeZero N] in
theorem updateLoop_left {doneSN : InstSeqNum} {ind : τ} :
    (updateLoop p doneSN l dir ind).1 = l.dropWhile fun e => e.seqNum ≤ doneSN := by
  induction l generalizing dir ind with
  | nil => rfl
  | cons e rest ih =>
    rw [updateLoop, dropWhile_cons]
    by_cases done : e.seqNum ≤ doneSN
    · rw [if_pos done, if_pos (decide_eq_true done), ih]
    · rw [if_neg done, if_neg (by simpa using done)]

omit [NeZero N] in
theorem update_predHist (doneSN : InstSeqNum) :
    (u.update p doneSN).predHist = u.predHist.rdropWhile fun e => e.seqNum ≤ doneSN := by
  rw [update, List.rdropWhile]
  dsimp only
  rw [updateLoop_left]

omit [NeZero N] in
theorem thread_update (doneSN : InstSeqNum) :
    (u.update p doneSN).thread = u.thread.update doneSN := by
  rw [thread, update_predHist, Thread.update, thread, List.rdropWhile, List.rdropWhile,
    ← map_reverse, dropWhile_map, ← map_reverse]
  rfl

omit [NeZero N] in
theorem thread_squashLoop {ind : τ} : (squashLoop p squashedSN ras dir ind l).thread
      = Thread.squashHist ras squashedSN (l.map Record.toPredictorHistory) := by
  induction l generalizing ras dir ind with
  | nil => rfl
  | cons e rest ih =>
    rw [squashLoop, List.map_cons, Thread.squashHist]
    split
    · rw [ih]
    · rfl

omit [NeZero N] in
theorem thread_squash (squashedSN : InstSeqNum) :
    (u.squash p squashedSN).thread = u.thread.squash squashedSN := thread_squashLoop

omit [NeZero N] in
theorem thread_squashTo (squashedSN : InstSeqNum) (corrTarget : PC) (actuallyTaken : Bool)
    (rand : Nat) : (u.squashTo p squashedSN corrTarget actuallyTaken rand).map thread
      = u.thread.squashTo squashedSN (p.isa.instAddr corrTarget) actuallyTaken := by
  rw [squashTo, Thread.squashTo, ← thread_squash]
  generalize u.squash p squashedSN = v
  obtain ⟨ras, hist, dir, ind⟩ := v
  cases hist with
  | nil => rfl
  | cons =>
    simp only [thread, List.map_cons]
    split
    · rfl
    · rfl

omit [NeZero N] in
theorem updateLoop_keeps {P : τ → Prop} {doneSN : InstSeqNum} {ind : τ} (start : P ind) (keep : ∀ t i, P t → P (p.iPred.commit t doneSN i)) :
    P (updateLoop p doneSN l dir ind).2.2 := by
  induction l generalizing dir ind with
  | nil => exact start
  | cons e rest ih =>
    rw [updateLoop]
    split
    · refine ih ?_
      split
      · exact keep ind e.indirectHistory start
      · exact start
    · exact start

omit [NeZero N] in
theorem squashLoop_keeps {P : τ → Prop} {ind : τ} (start : P ind)
    (keep : ∀ t i, P t → P (p.iPred.deleteIndirectInfo t i)) :
    P (squashLoop p squashedSN ras dir ind l).ind := by
  induction l generalizing ras dir ind with
  | nil => exact start
  | cons e rest ih =>
    rw [squashLoop]
    split
    · refine ih ?_
      split
      · exact keep ind e.indirectHistory start
      · exact start
    · exact start

omit [NeZero N] in
theorem squashLoop_predHist {ind : τ} : (squashLoop p squashedSN ras dir ind l).predHist
      = l.dropWhile fun e => squashedSN < e.seqNum := by
  induction l generalizing ras dir ind with
  | nil => rfl
  | cons e rest ih =>
    rw [squashLoop, dropWhile_cons]
    split
    · rename_i young
      rw [ih, if_pos (decide_eq_true young)]
    · rename_i old
      rw [if_neg (by simpa using old)]

omit [NeZero N] in
theorem takes_answers (inst : StaticInst PC) (pc : PC) (btb : Option PC) :
    Thread.takes inst (answers p u inst pc btb)
      = (redirect p u inst (p.isa.instAddr pc) btb).1 := by
  have first : (redirect p u inst (p.isa.instAddr pc) btb).1
      = (direct p u inst (p.isa.instAddr pc)).1 := by
    rw [redirect]
    dsimp only
    split <;> rfl
  rw [Thread.takes, answers, first, direct]
  cases inst.isUncondCtrl <;> rfl

theorem predictTarget_wasIndirect (ras : ReturnAddrStack PC N) (record : PredictorHistory PC N)
    (inst : StaticInst PC) (pc : PC) (ans : Answers PC) :
    (Thread.predictTarget p.hasIPred ras record inst pc ans).2.2.wasIndirect
      = !(inst.isDirectCtrl || !p.hasIPred) := by
  rw [Thread.predictTarget]
  split
  · rfl
  · split <;> rfl

theorem makeRecord_wasIndirect (inst : StaticInst PC) (seqNum : InstSeqNum) (pc : PC)
    (btb : Option PC) : (makeRecord p u inst seqNum pc btb).wasIndirect
      = asksIndirect p inst (redirect p u inst (p.isa.instAddr pc) btb).1 := by
  rw [← takes_answers]
  have new : (makeRecord p u inst seqNum pc btb).toPredictorHistory
      = (outcome p u inst seqNum pc btb).2.2.predHist.headD
        (.new p.isa seqNum (p.isa.instAddr pc) (redirect p u inst (p.isa.instAddr pc) btb).1) := rfl
  rw [new, asksIndirect, outcome, Thread.predict]
  cases Thread.takes inst (answers p u inst pc btb) with
  | false => rfl
  | true =>
    cases inst.isReturn with
    | true => rfl
    | false => grind [predictTarget_wasIndirect]

omit [NeZero N] in
theorem correct_wasIndirect (ras : ReturnAddrStack PC N) (e : PredictorHistory PC N)
    (actuallyTaken : Bool) : (Thread.correct ras e actuallyTaken).2.wasIndirect = e.wasIndirect := by
  rw [Thread.correct]
  repeat' split
  all_goals rfl

omit [NeZero N] in
/-- The squash of a mispredicted branch changes its record and, if it was indirect and is taken,
has its target recorded. -/
theorem squashTo_cases {u' : Driver PC σ η τ ι N} {corrTarget : PC} {actuallyTaken : Bool}
    {rand : Nat} (eq : u.squashTo p squashedSN corrTarget actuallyTaken rand = some u') :
    (u.squash p squashedSN).predHist = [] ∧ u' = u.squash p squashedSN
      ∨ ∃ e rest e', (u.squash p squashedSN).predHist = e :: rest ∧ e.seqNum = squashedSN
        ∧ u'.predHist = e' :: rest ∧ e'.seqNum = e.seqNum ∧ e'.wasIndirect = e.wasIndirect
        ∧ e'.indirectHistory = e.indirectHistory
        ∧ u'.ind = if actuallyTaken && e.wasIndirect && p.hasIPred then
            p.iPred.recordTarget (corrected p (u.squash p squashedSN).ind e actuallyTaken) rand
              e.seqNum e.indirectHistory corrTarget
          else corrected p (u.squash p squashedSN).ind e actuallyTaken := by
  rw [squashTo] at eq
  generalize u.squash p squashedSN = v at eq ⊢
  cases hist : v.predHist with
  | nil =>
    simp only [hist] at eq
    exact Or.inl ⟨rfl, (Option.some.inj eq).symm⟩
  | cons e rest =>
    simp only [hist] at eq
    split at eq
    · rename_i own
      cases eq
      exact Or.inr ⟨e, rest, _, rfl, own, rfl, Thread.correct_seqNum _ _ _,
        correct_wasIndirect _ _ _, rfl, rfl⟩
    · cases eq

/-- What holds of the stack and the records of a thread holds of a driven one. -/
theorem thread_step (c : Call PC) : (u.step p c).map thread
    = u.thread.step p.isa p.hasIPred (c.plain p u) := by
  cases c with
  | predict inst seqNum pc btb => exact congrArg some (thread_predict inst seqNum pc btb)
  | update doneSN => exact congrArg some (thread_update doneSN)
  | squash squashedSN => exact congrArg some (thread_squash squashedSN)
  | squashTo squashedSN corrTarget actuallyTaken rand =>
    exact thread_squashTo squashedSN corrTarget actuallyTaken rand

end Thread

end Driver

end Gem5.Pred
