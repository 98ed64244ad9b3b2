import Gem5.Lib.Ring
import Mathlib.Data.List.DropRight
import Mathlib.Logic.Function.Basic

/-!
# Branch prediction unit: the return address stack and its history

A prediction may pop the stack of its thread or push on it, and records in the thread's history
how to undo that. `squash` undoes the records from the youngest on. The answers of the direction
predictor, the BTB and the indirect predictor are inputs of a prediction.
-/

namespace Gem5.Pred

abbrev ThreadID := Nat
abbrev InstSeqNum := Nat
abbrev Addr := BitVec 64

/-- What the predictor uses of the PC states of the ISA. -/
structure Isa (PC : Type) where
  ofAddr : Addr → PC
  instAddr : PC → Addr
  buildRetPC : PC → PC → PC

structure StaticInst (PC : Type) where
  isUncondCtrl : Bool
  isReturn : Bool
  isCall : Bool
  isDirectCtrl : Bool
  advancePC : PC → PC

structure ReturnAddrStack (PC : Type) (N : Nat) where
  addrStack : Fin N → PC
  usedEntries : Nat
  tos : Fin N

namespace ReturnAddrStack

variable {PC : Type} {N : Nat} [NeZero N]

def reset (isa : Isa PC) : ReturnAddrStack PC N := ⟨fun _ => isa.ofAddr 0, 0, 0⟩

def top (s : ReturnAddrStack PC N) : PC := s.addrStack s.tos

def topIdx (s : ReturnAddrStack PC N) : Fin N := s.tos

/-- The index of the entry `d` places below the top. -/
def below (s : ReturnAddrStack PC N) (d : Nat) : Fin N := Ring.slot N (s.tos.val - d)

def incrTos (s : ReturnAddrStack PC N) : ReturnAddrStack PC N := { s with tos := Ring.next s.tos }

def decrTos (s : ReturnAddrStack PC N) : ReturnAddrStack PC N := { s with tos := Ring.prev s.tos }

def push (s : ReturnAddrStack PC N) (returnAddr : PC) : ReturnAddrStack PC N :=
  let s := s.incrTos
  { s with
    addrStack := Function.update s.addrStack s.tos returnAddr
    usedEntries := if s.usedEntries ≠ N then s.usedEntries + 1 else s.usedEntries }

def pop (s : ReturnAddrStack PC N) : ReturnAddrStack PC N :=
  { s with usedEntries := if 0 < s.usedEntries then s.usedEntries - 1 else s.usedEntries }.decrTos

def restore (s : ReturnAddrStack PC N) (topEntryIdx : Fin N) (restored : PC) :
    ReturnAddrStack PC N :=
  { s with tos := topEntryIdx, addrStack := Function.update s.addrStack topEntryIdx restored }

end ReturnAddrStack

structure PredictorHistory (PC : Type) (N : Nat) where
  seqNum : InstSeqNum
  pc : Addr
  RASTarget : PC
  RASIndex : Fin N
  predTaken : Bool
  usedRAS : Bool
  pushedRAS : Bool
  wasCall : Bool
  wasReturn : Bool
  wasIndirect : Bool
  target : Addr

def maxAddr : Addr := BitVec.allOnes 64

/-- The stack and the history of one thread, youngest prediction first. -/
structure Thread (PC : Type) (N : Nat) where
  ras : ReturnAddrStack PC N
  predHist : List (PredictorHistory PC N)

/-- The answers the other predictors would give: the direction of a conditional branch, a BTB
entry and an indirect target. -/
structure Answers (PC : Type) where
  lookup : Bool
  btb : Option PC
  indirect : Option PC

variable {PC : Type} {N : Nat} [NeZero N]

namespace PredictorHistory

/-- The constructor of the source. -/
def new (isa : Isa PC) (seqNum : InstSeqNum) (instPC : Addr) (predTaken : Bool) :
    PredictorHistory PC N where
  seqNum := seqNum
  pc := instPC
  RASTarget := isa.ofAddr 0
  RASIndex := 0
  predTaken := predTaken
  usedRAS := false
  pushedRAS := false
  wasCall := false
  wasReturn := false
  wasIndirect := false
  target := maxAddr

/-- What `squash` does to the stack for a record. -/
def undo (e : PredictorHistory PC N) (ras : ReturnAddrStack PC N) : ReturnAddrStack PC N :=
  if e.usedRAS then ras.restore e.RASIndex e.RASTarget
  else if e.wasCall && e.pushedRAS then ras.pop
  else ras

end PredictorHistory

namespace Thread

def init (isa : Isa PC) : Thread PC N := ⟨.reset isa, []⟩

/-- The direction: an unconditional branch is taken, a conditional one is looked up. -/
def takes (inst : StaticInst PC) (ans : Answers PC) : Bool := inst.isUncondCtrl || ans.lookup

/-- The target of a branch predicted taken that is no return, with the stack and the record;
`none` when the BTB, or the indirect predictor for an indirect branch, has no target. A call is
pushed first; a conditional call without a target is popped again. -/
def predictTarget (hasIPred : Bool) (ras : ReturnAddrStack PC N) (record : PredictorHistory PC N)
    (inst : StaticInst PC) (pc : PC) (ans : Answers PC) :
    Option PC × ReturnAddrStack PC N × PredictorHistory PC N :=
  let ras' := if inst.isCall then ras.push pc else ras
  let record :=
    if inst.isCall then { record with pushedRAS := true, wasCall := true } else record
  let record := { record with wasIndirect := ! (inst.isDirectCtrl || ! hasIPred) }
  match if inst.isDirectCtrl || ! hasIPred then ans.btb else ans.indirect with
  | some target => (some target, ras', record)
  | none =>
    if inst.isCall && ! inst.isUncondCtrl then
      (none, ras'.pop, { record with pushedRAS := false })
    else (none, ras', record)

/-- The prediction, the predicted PC and the thread after it. -/
def predict (isa : Isa PC) (hasIPred : Bool) (t : Thread PC N) (inst : StaticInst PC)
    (seqNum : InstSeqNum) (pc : PC) (ans : Answers PC) : Bool × PC × Thread PC N :=
  let predTaken := takes inst ans
  let record := PredictorHistory.new isa seqNum (isa.instAddr pc) predTaken
  if predTaken then
    if inst.isReturn then
      let rasTop := t.ras.top
      let target := isa.buildRetPC pc rasTop
      let record := { record with
        wasReturn := true, usedRAS := true, RASIndex := t.ras.topIdx, RASTarget := rasTop
        target := isa.instAddr target }
      (true, target, ⟨t.ras.pop, record :: t.predHist⟩)
    else
      match predictTarget hasIPred t.ras record inst pc ans with
      | (some target, ras, record) =>
        (true, target, ⟨ras, { record with target := isa.instAddr target } :: t.predHist⟩)
      | (none, ras, record) =>
        let target := inst.advancePC pc
        (false, target, ⟨ras, { record with target := isa.instAddr target } :: t.predHist⟩)
  else
    let target := inst.advancePC pc
    let record := { record with wasReturn := inst.isReturn, target := isa.instAddr target }
    (false, target, ⟨t.ras, record :: t.predHist⟩)

/-- Commit the branches up to a sequence number: their records leave at the back. -/
def update (t : Thread PC N) (doneSN : InstSeqNum) : Thread PC N :=
  { t with predHist := t.predHist.rdropWhile fun e => e.seqNum ≤ doneSN }

def squashHist (ras : ReturnAddrStack PC N) (squashedSN : InstSeqNum) :
    List (PredictorHistory PC N) → Thread PC N
  | [] => ⟨ras, []⟩
  | e :: rest =>
    if squashedSN < e.seqNum then squashHist (e.undo ras) squashedSN rest
    else ⟨ras, e :: rest⟩

def squash (t : Thread PC N) (squashedSN : InstSeqNum) : Thread PC N :=
  squashHist t.ras squashedSN t.predHist

/-- What a branch found mispredicted does to the stack and to its own record. -/
def correct (ras : ReturnAddrStack PC N) (e : PredictorHistory PC N) (actuallyTaken : Bool) :
    ReturnAddrStack PC N × PredictorHistory PC N :=
  if actuallyTaken then
    if e.wasReturn && ! e.usedRAS then (ras.pop, { e with usedRAS := true }) else (ras, e)
  else if e.usedRAS then (ras.restore e.RASIndex e.RASTarget, { e with usedRAS := false })
  else if e.wasCall && e.pushedRAS then (ras.pop, { e with pushedRAS := false })
  else (ras, e)

/-- The squash of a mispredicted branch; `none` where the assertion on the front record fails. -/
def squashTo (t : Thread PC N) (squashedSN : InstSeqNum) (corrTarget : Addr)
    (actuallyTaken : Bool) : Option (Thread PC N) :=
  let t := t.squash squashedSN
  match t.predHist with
  | [] => some t
  | e :: rest =>
    if e.seqNum = squashedSN then
      let (ras, e) :=
        correct t.ras { e with predTaken := actuallyTaken, target := corrTarget } actuallyTaken
      some ⟨ras, e :: rest⟩
    else none

end Thread

/-- The calls on a predictor, each for one thread. -/
inductive Call (PC : Type) where
  | predict (inst : StaticInst PC) (seqNum : InstSeqNum) (pc : PC) (ans : Answers PC)
  | update (doneSN : InstSeqNum)
  | squash (squashedSN : InstSeqNum)
  | squashTo (squashedSN : InstSeqNum) (corrTarget : Addr) (actuallyTaken : Bool)

namespace Call

/-- The sequence number of the branch a call predicts. -/
def predicted : Call PC → Option InstSeqNum
  | .predict _ seqNum _ _ => some seqNum
  | _ => none

/-- Whether a call predicts a function call taken, which is pushed then. -/
def pushes : Call PC → Bool
  | .predict inst _ _ ans => inst.isCall && ! inst.isReturn && Thread.takes inst ans
  | _ => false

/-- A return predicted not taken. -/
def untakenReturn : Call PC → Option InstSeqNum
  | .predict inst seqNum _ ans =>
    if inst.isReturn && ! Thread.takes inst ans then some seqNum else none
  | _ => none

/-- A branch found to be taken after all. -/
def resolvedTaken : Call PC → Option InstSeqNum
  | .squashTo squashedSN _ true => some squashedSN
  | _ => none

end Call

def Thread.step (isa : Isa PC) (hasIPred : Bool) (t : Thread PC N) :
    Call PC → Option (Thread PC N)
  | .predict inst seqNum pc ans => some (t.predict isa hasIPred inst seqNum pc ans).2.2
  | .update doneSN => some (t.update doneSN)
  | .squash squashedSN => some (t.squash squashedSN)
  | .squashTo squashedSN corrTarget actuallyTaken =>
    t.squashTo squashedSN corrTarget actuallyTaken

/-- The calls on one thread in turn; `none` once an assertion fails. -/
def Thread.run (isa : Isa PC) (hasIPred : Bool) (t : Thread PC N) :
    List (Call PC) → Option (Thread PC N)
  | [] => some t
  | c :: calls =>
    match t.step isa hasIPred c with
    | none => none
    | some t' => t'.run isa hasIPred calls

/-- A condition on each call of a run and the thread it finds. -/
def Thread.Along (isa : Isa PC) (hasIPred : Bool) (ok : Thread PC N → Call PC → Prop)
    (t : Thread PC N) : List (Call PC) → Prop
  | [] => True
  | c :: calls =>
    ok t c ∧
      match t.step isa hasIPred c with
      | none => True
      | some t' => t'.Along isa hasIPred ok calls

instance Thread.decidableAlong (isa : Isa PC) (hasIPred : Bool)
    (ok : Thread PC N → Call PC → Prop) [∀ t c, Decidable (ok t c)] (t : Thread PC N) :
    (calls : List (Call PC)) → Decidable (t.Along isa hasIPred ok calls)
  | [] => isTrue trivial
  | c :: calls =>
    @instDecidableAnd _ _ inferInstance <|
      match t.step isa hasIPred c with
      | none => isTrue trivial
      | some t' => t'.decidableAlong isa hasIPred ok calls

structure BPredUnit (PC : Type) (N : Nat) where
  isa : Isa PC
  hasIPred : Bool
  threads : ThreadID → Thread PC N

variable {bp bp' : BPredUnit PC N}

namespace BPredUnit

def init (isa : Isa PC) (hasIPred : Bool) : BPredUnit PC N :=
  ⟨isa, hasIPred, fun _ => .init isa⟩

def step (bp : BPredUnit PC N) (tid : ThreadID) (c : Call PC) : Option (BPredUnit PC N) :=
  match (bp.threads tid).step bp.isa bp.hasIPred c with
  | none => none
  | some t => some { bp with threads := Function.update bp.threads tid t }

def run (bp : BPredUnit PC N) : List (ThreadID × Call PC) → Option (BPredUnit PC N)
  | [] => some bp
  | (tid, c) :: calls =>
    match bp.step tid c with
    | none => none
    | some bp' => bp'.run calls

/-- The calls of a run on one thread. -/
def callsOf (tid : ThreadID) : List (ThreadID × Call PC) → List (Call PC)
  | [] => []
  | (tid', c) :: calls => if tid' = tid then c :: callsOf tid calls else callsOf tid calls

theorem callsOf_append (tid : ThreadID) (calls calls' : List (ThreadID × Call PC)) :
    callsOf tid (calls ++ calls') = callsOf tid calls ++ callsOf tid calls' := by
  induction calls with
  | nil => rfl
  | cons c calls ih => grind [callsOf]

theorem step_isa {tid : ThreadID} {c : Call PC}
    (h : bp.step tid c = some bp') : bp'.isa = bp.isa ∧ bp'.hasIPred = bp.hasIPred := by
  rw [step] at h
  split at h
  · cases h
  · cases h
    exact ⟨rfl, rfl⟩

theorem run_isa {calls : List (ThreadID × Call PC)}
    (h : bp.run calls = some bp') : bp'.isa = bp.isa ∧ bp'.hasIPred = bp.hasIPred := by
  induction calls generalizing bp with
  | nil =>
    cases h
    exact ⟨rfl, rfl⟩
  | cons c calls ih => grind [run, step_isa]

theorem run_thread {calls : List (ThreadID × Call PC)}
    (h : bp.run calls = some bp') (tid : ThreadID) :
    (bp.threads tid).run bp.isa bp.hasIPred (callsOf tid calls) = some (bp'.threads tid) := by
  induction calls generalizing bp with
  | nil =>
    cases h
    rfl
  | cons c calls ih =>
    obtain ⟨tid', c⟩ := c
    rw [run] at h
    split at h
    · cases h
    · rename_i next stepped
      have later := ih h
      rw [step] at stepped
      split at stepped
      · cases stepped
      · rename_i t moved
        cases stepped
        dsimp only at later
        rw [callsOf]
        by_cases same : tid' = tid
        · subst same
          rw [Function.update_self] at later
          rw [if_pos rfl, Thread.run, moved]
          exact later
        · grind

end BPredUnit

end Gem5.Pred
