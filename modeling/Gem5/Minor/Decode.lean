import Gem5.Minor.Fetch2

/-!
# Decode

The stage that replaces macro-ops by their micro-ops (`decode.cc`). An expansion that does
not fit in the output of a cycle goes on in the next one. A dereferenced null pointer and a
failed assertion have no result.
-/

namespace Gem5.Minor

open FlexCPU (PCState)

variable {ι : Type}

/-- `MAX_FORWARD_INSTS`. -/
def maxForwardInsts : Nat := 16

/-- `ForwardInstData::isBubble`. -/
def ForwardInstData.isBubble (d : ForwardInstData ι) : Bool := d.insts.head?.join.isNone

/-- `DecodeThreadInfo`, with the input buffer of the thread. The constructor leaves
`microopPC` open. -/
structure DecodeThread (ι : Type) where
  inputBuffer : InputBuffer (ForwardInstData ι)
  inputIndex : Nat := 0
  inMacroop : Bool := false
  microopPC : PCState := default
  execSeqNum : Nat := InstId.firstExecSeqNum
  blocked : Bool := false

/-- The constructor checks the width. -/
structure DecodeConfig where
  numThreads : Nat
  outputWidth : Nat
  processMoreThanOneInput : Bool
  outputWidth_pos : 0 < outputWidth

structure Decode (ι : Type) where
  threads : Nat → DecodeThread ι
  threadPriority : Nat := 0

namespace DecodeThread

def getInput (t : DecodeThread ι) : Option (ForwardInstData ι) :=
  t.inputBuffer.front.filter (!·.isBubble)

def popInput (t : DecodeThread ι) : DecodeThread ι :=
  { t with
    inputBuffer := if t.inputBuffer.empty then t.inputBuffer else t.inputBuffer.pop
    inputIndex := 0
    inMacroop := false }

/-- Done with the instruction at `inputIndex`. -/
def stepInput (t : DecodeThread ι) : DecodeThread ι :=
  { t with inputIndex := t.inputIndex + 1, inMacroop := false }

/-- Set up the program counter of the first micro-op. -/
def enterMacroop (t : DecodeThread ι) (inst : FetchedInst ι) : DecodeThread ι :=
  if t.inMacroop then t else { t with microopPC := inst.pc, inMacroop := true }

end DecodeThread

/-- A micro-op of `inst`, with the prediction of `inst` if it is the last one. -/
def FetchedInst.microop (isa : StaticInsts ι) (inst : FetchedInst ι) (micro : ι) (pc : PCState) :
    FetchedInst ι :=
  let out : FetchedInst ι :=
    { id := inst.id, fetchSeqNum := inst.fetchSeqNum, pc := pc, staticInst := some micro }
  if isa.isLastMicroop micro then
    { out with predictedTaken := inst.predictedTaken, predictedTarget := inst.predictedTarget }
  else out

/-- What the packing loop works on: its thread, the input at hand, and what it has put out
so far. -/
structure Decomposition (ι : Type) extends DecodeThread ι where
  instsIn : Option (ForwardInstData ι)
  output : List (FetchedInst ι) := []

namespace Decomposition

def onThread (x : Decomposition ι) (f : DecodeThread ι → DecodeThread ι) : Decomposition ι :=
  { x with toDecodeThread := f x.toDecodeThread }

/-- Number an instruction and push it into the output. -/
def emit (x : Decomposition ι) (inst : FetchedInst ι) : Decomposition ι :=
  { x with
    execSeqNum := x.execSeqNum + 1
    output := x.output ++ [{ inst with execSeqNum := x.execSeqNum }] }

/-- Generate the next micro-op of a macro-op, and step the input after the last one. -/
def decompose (isa : StaticInsts ι) (x : Decomposition ι) (inst : FetchedInst ι) (si : ι) :
    Decomposition ι :=
  let x := x.onThread (·.enterMacroop inst)
  let micro := isa.fetchMicroop si x.microopPC.upc
  let outputInst := inst.microop isa micro x.microopPC
  let x := { x with microopPC := isa.advancePC micro x.microopPC }
  let x := if isa.isLastMicroop micro then x.onThread (·.stepInput) else x
  x.emit outputInst

/-- The body of the packing loop for the instruction at hand; `none` is a bubble. -/
def body (isa : StaticInsts ι) (x : Decomposition ι) :
    Option (FetchedInst ι) → Option (Decomposition ι)
  | none => some (x.onThread (·.stepInput))
  | some inst =>
    if inst.isFault then some ((x.onThread (·.stepInput)).emit inst)
    else inst.staticInst.map fun si =>
      if isa.isMacroop si then x.decompose isa inst si
      else (x.onThread (·.stepInput)).emit inst

/-- Pop an input that is used up, which cannot happen inside a macro-op. -/
def wrapUp (cfg : DecodeConfig) (x : Decomposition ι) (d : ForwardInstData ι) :
    Option (Decomposition ι) :=
  if x.inputIndex = d.insts.length then
    if x.inMacroop then none
    else
      let x := x.onThread (·.popInput)
      some { x with instsIn := if cfg.processMoreThanOneInput then x.getInput else none }
  else some x

def continues (cfg : DecodeConfig) (x : Decomposition ι) (d : ForwardInstData ι) : Bool :=
  x.inputIndex < d.insts.length && x.output.length < cfg.outputWidth

def loop (cfg : DecodeConfig) (isa : StaticInsts ι) :
    Nat → Decomposition ι → Option (Decomposition ι)
  | 0, x => some x
  | fuel + 1, x =>
    match x.instsIn with
    | none => some x
    | some d =>
      if x.continues cfg d then
        ((x.body isa d.insts[x.inputIndex]?.join).bind (·.wrapUp cfg d)).bind
          (loop cfg isa fuel)
      else some x

/-- More than the loop can turn on the inputs of a buffer. -/
def fuel (cfg : DecodeConfig) (inputs : List (ForwardInstData ι)) : Nat :=
  cfg.outputWidth + (inputs.map fun d => d.insts.length).sum + 1

end Decomposition

/-- What `Decode::evaluate` leaves in its own state and on its output wire. -/
structure DecodeResult (ι : Type) where
  decode : Decode ι
  nextStageReserve : Nat → InputBuffer (ForwardInstData ι)
  out : Option (ForwardInstData ι) := none

namespace Decode

def updateThread (s : Decode ι) (tid : Nat) (f : DecodeThread ι → DecodeThread ι) : Decode ι :=
  { s with threads := Function.update s.threads tid (f (s.threads tid)) }

def setTail (s : Decode ι) (inp : Option (ForwardInstData ι)) : Decode ι :=
  match inp with
  | some d => s.updateThread d.threadId fun t => { t with inputBuffer := t.inputBuffer.setTail d }
  | none => s

def pushTail (s : Decode ι) (inp : Option (ForwardInstData ι)) : Decode ι :=
  match inp with
  | some d => s.updateThread d.threadId fun t => { t with inputBuffer := t.inputBuffer.pushTail }
  | none => s

def noteBlocked (cfg : DecodeConfig) (s : Decode ι)
    (nextStageReserve : Nat → InputBuffer (ForwardInstData ι)) : Decode ι :=
  { s with
    threads := fun tid =>
      if tid < cfg.numThreads then
        { s.threads tid with blocked := !(nextStageReserve tid).canReserve }
      else s.threads tid }

def getScheduledThread (priorityList : List Nat) (s : Decode ι) : Option Nat :=
  priorityList.find? fun tid => (s.threads tid).getInput.isSome && !(s.threads tid).blocked

/-- Run the packing loop for a thread. -/
def pack (cfg : DecodeConfig) (isa : StaticInsts ι) (t : DecodeThread ι) :
    Option (Decomposition ι) :=
  Decomposition.loop cfg isa (Decomposition.fuel cfg t.inputBuffer.contents)
    { toDecodeThread := t, instsIn := t.getInput }

/-- The output is resized for the first instruction, which asserts that it fits, and the
name of the first instruction is traced through its static instruction. -/
def canOutput (cfg : DecodeConfig) : List (FetchedInst ι) → Bool
  | [] => true
  | first :: _ => cfg.outputWidth < maxForwardInsts && first.staticInst.isSome

/-- Pack for the scheduled thread and reserve a slot for what comes out. -/
def work (cfg : DecodeConfig) (isa : StaticInsts ι) (priorityList : List Nat) (s : Decode ι)
    (nextStageReserve : Nat → InputBuffer (ForwardInstData ι)) : Option (DecodeResult ι) :=
  match s.getScheduledThread priorityList with
  | none => some { decode := s, nextStageReserve := nextStageReserve }
  | some tid =>
    (pack cfg isa (s.threads tid)).bind fun x =>
      if canOutput cfg x.output then
        some
          { decode := { s.updateThread tid fun _ => x.toDecodeThread with threadPriority := tid }
            nextStageReserve :=
              if x.output.isEmpty then nextStageReserve
              else Function.update nextStageReserve tid (nextStageReserve tid).reserve
            out := ForwardInstData.pack cfg.outputWidth tid x.output }
      else none

/-- `Decode::evaluate`. The priority list is that of the threading policy. -/
def evaluate (cfg : DecodeConfig) (isa : StaticInsts ι) (priorityList : List Nat)
    (inp : Option (ForwardInstData ι)) (s : Decode ι)
    (nextStageReserve : Nat → InputBuffer (ForwardInstData ι)) : Option (DecodeResult ι) :=
  let inp := inp.filter (!·.isBubble)
  let s := (s.setTail inp).noteBlocked cfg nextStageReserve
  (s.work cfg isa priorityList nextStageReserve).map fun r =>
    { r with decode := r.decode.pushTail inp }

end Decode

end Gem5.Minor
