import Gem5.Minor.Buffers
import Gem5.Minor.PipeData
import Gem5.Riscv.Decoder
import Mathlib.Logic.Function.Basic

/-!
# Fetch2

The stage that extracts instructions from lines (`fetch2.cc`). A line in the input buffer
of a thread belongs to that thread, so the extraction loop runs on the state of one
thread. The branch predictor answers each question with a target, if it predicts taken.
-/

namespace Gem5.Minor

open FlexCPU (Addr Decoder PCState)

variable {ι : Type}

/-- `ForwardInstData`: a full width of instructions, padded with bubbles. -/
structure ForwardInstData (ι : Type) where
  threadId : Nat
  insts : List (Option (FetchedInst ι))

/-- The instructions in front, padded to the width. -/
def ForwardInstData.pack (width tid : Nat) (insts : List (FetchedInst ι)) :
    Option (ForwardInstData ι) :=
  if insts.isEmpty then none
  else some ⟨tid, insts.map some ++ List.replicate (width - insts.length) none⟩

/-- `Fetch2ThreadInfo`, with the input buffer and the decoder of the thread. -/
structure Fetch2Thread where
  inputBuffer : InputBuffer ForwardLineData
  decoder : Decoder := {}
  inputIndex : Nat := 0
  pc : PCState := .ofAddr 0
  havePC : Bool := false
  lastStreamSeqNum : Nat := InstId.firstStreamSeqNum
  fetchSeqNum : Nat := InstId.firstFetchSeqNum
  expectedStreamSeqNum : Nat := InstId.firstStreamSeqNum
  predictionSeqNum : Nat := InstId.firstPredictionSeqNum
  blocked : Bool := false

/-- The constructor checks the width. -/
structure Fetch2Config where
  numThreads : Nat
  outputWidth : Nat
  processMoreThanOneInput : Bool
  outputWidth_pos : 0 < outputWidth

structure Fetch2 where
  threads : Nat → Fetch2Thread
  threadPriority : Nat := 0

/-- What is outside Fetch2 in one call of `evaluate`. -/
structure Fetch2Answers (ι : Type) where
  priorityList : List Nat
  predict : FetchedInst ι → Option PCState

/-- `BaseCPU::PCMask`. -/
def pcMask : Addr := ~~~3#64

namespace Fetch2Thread

def getInput (t : Fetch2Thread) : Option ForwardLineData := t.inputBuffer.front

def popInput (t : Fetch2Thread) : Fetch2Thread :=
  { t with
    inputBuffer := if t.inputBuffer.empty then t.inputBuffer else t.inputBuffer.pop
    inputIndex := 0 }

def forgetPC (t : Fetch2Thread) : Fetch2Thread := { t with havePC := false }

/-- One pop for each line there is. -/
def dumpAllInput (t : Fetch2Thread) : Fetch2Thread :=
  { t.inputBuffer.contents.foldl (fun t _ => t.popInput) t with inputIndex := 0 }

/-- The line was fetched for an older prediction in the stream of the last prediction. -/
def isStale (t : Fetch2Thread) (l : ForwardLineData) : Bool :=
  t.expectedStreamSeqNum == l.id.streamSeqNum && t.predictionSeqNum != l.id.predictionSeqNum

/-- Clear stale lines, one after another or only the first; `fuel` counts the lines. -/
def discardStale (processMoreThanOneInput : Bool) : Nat → Fetch2Thread → Fetch2Thread
  | 0, t => t
  | fuel + 1, t =>
    match t.getInput with
    | none => t
    | some l =>
      if t.isStale l then
        let t := t.popInput.forgetPC
        if processMoreThanOneInput then discardStale processMoreThanOneInput fuel t else t
      else t

/-- Note whether the thread is blocked and clear its stale lines. -/
def refresh (processMoreThanOneInput : Bool) (t : Fetch2Thread) (blocked : Bool) : Fetch2Thread :=
  { t with blocked := blocked }.discardStale processMoreThanOneInput
    t.inputBuffer.contents.length

/-- The line tells where a change of the program counter leads. -/
def setPC (t : Fetch2Thread) (l : ForwardLineData) : Fetch2Thread :=
  { t with
    inputIndex := ((l.pc.pc &&& pcMask) - l.lineBaseAddr).toNat % 2 ^ 32
    pc := l.pc
    havePC := true
    decoder := .reset }

/-- The part of an instruction that comes from its line and its thread. -/
def newInst (t : Fetch2Thread) (l : ForwardLineData) : FetchedInst ι :=
  { id := { l.id with predictionSeqNum := t.predictionSeqNum }
    fetchSeqNum := t.fetchSeqNum
    pc := t.pc }

end Fetch2Thread

/-- What the extraction loop works on: its thread, the line at hand, and what it has put
out so far. -/
structure Extraction (ι : Type) extends Fetch2Thread where
  lineIn : Option ForwardLineData
  output : List (FetchedInst ι) := []
  prediction : Option BranchData := none

namespace Extraction

def onThread (x : Extraction ι) (f : Fetch2Thread → Fetch2Thread) : Extraction ι :=
  { x with toFetch2Thread := f x.toFetch2Thread }

def emit (x : Extraction ι) (inst : FetchedInst ι) : Extraction ι :=
  { x with fetchSeqNum := x.fetchSeqNum + 1, output := x.output ++ [inst] }

/-- `Fetch2::predictBranch` on an instruction that has just been decoded. -/
def predictBranch (isa : StaticInsts ι) (predict : FetchedInst ι → Option PCState)
    (x : Extraction ι) (inst : FetchedInst ι) (si : ι) : Extraction ι × FetchedInst ι :=
  if isa.isControl si || isa.isSyscall si then
    let inst := { inst with triedToPredict := true }
    match predict inst with
    | none => (x, inst)
    | some target =>
      ({ x with
          expectedStreamSeqNum := inst.id.streamSeqNum
          predictionSeqNum := x.predictionSeqNum + 1
          prediction := some
            { reason := .branchPrediction
              threadId := inst.id.threadId
              newStreamSeqNum := inst.id.streamSeqNum
              newPredictionSeqNum := x.predictionSeqNum + 1
              target := target } },
        { inst with predictedTaken := true, predictedTarget := target })
  else (x, inst)

/-- The instruction that is ready in the decoder, with its fall-through successor. -/
def decodedInst (isa : StaticInsts ι) (x : Extraction ι) (l : ForwardLineData) : FetchedInst ι :=
  let (_, word, pc) := x.decoder.decodeWord x.pc
  { (x.newInst l : FetchedInst ι) with staticInst := some (isa.decodeInst word), pc := pc }

/-- The thread once that instruction has left the decoder. -/
def decoded (isa : StaticInsts ι) (x : Extraction ι) : Extraction ι :=
  let (decoder, word, pc) := x.decoder.decodeWord x.pc
  { x with decoder := decoder, pc := isa.advancePC (isa.decodeInst word) pc }

def takeInst (isa : StaticInsts ι) (predict : FetchedInst ι → Option PCState)
    (x : Extraction ι) (l : ForwardLineData) : Extraction ι :=
  let si := isa.decodeInst (x.decoder.decodeWord x.pc).2.1
  let (y, inst) := (x.decoded isa).predictBranch isa predict (x.decodedInst isa l) si
  y.emit inst

/-- Offer the word at `inputIndex` to the decoder, unless an instruction waits there. -/
def offerWord (x : Extraction ι) (l : ForwardLineData) : Extraction ι :=
  if x.decoder.instReady then x
  else { x with decoder := x.decoder.moreBytes x.pc (l.word x.inputIndex) }

/-- Step on in the line if no complete instruction waits in the decoder. -/
def stepIndex (x : Extraction ι) : Extraction ι :=
  if x.decoder.needMoreBytes then { x with inputIndex := x.inputIndex + 4 } else x

/-- A line without a fault gives at most one instruction. -/
def extract (isa : StaticInsts ι) (predict : FetchedInst ι → Option PCState)
    (x : Extraction ι) (l : ForwardLineData) : Extraction ι :=
  let x := x.offerWord l
  let x := if x.decoder.instReady then x.takeInst isa predict l else x
  x.stepIndex

/-- The body of the extraction loop for the line at hand. -/
def body (isa : StaticInsts ι) (predict : FetchedInst ι → Option PCState)
    (x : Extraction ι) (l : ForwardLineData) : Extraction ι :=
  let discardLine := x.isStale l
  let turned := !x.havePC || x.lastStreamSeqNum != l.id.streamSeqNum
  let x := if !discardLine && turned then x.onThread (·.setPC l) else x
  let x :=
    if discardLine then x
    else if l.isFault then x.emit { x.newInst l with fault := l.fault }
    else x.extract isa predict l
  { x with lastStreamSeqNum := l.id.streamSeqNum }

def nextLine (cfg : Fetch2Config) (x : Extraction ι) : Extraction ι :=
  { x with lineIn := if cfg.processMoreThanOneInput then x.getInput else none }

/-- Drop input that is wrong or used up. -/
def wrapUp (cfg : Fetch2Config) (x : Extraction ι) (l : ForwardLineData) (discardLine : Bool) :
    Extraction ι :=
  if x.prediction.isSome || l.isFault then
    (x.onThread fun t => t.dumpAllInput.forgetPC).nextLine cfg
  else if discardLine then (x.onThread fun t => t.popInput.forgetPC).nextLine cfg
  else if x.inputIndex = l.lineWidth then (x.onThread (·.popInput)).nextLine cfg
  else x

def continues (cfg : Fetch2Config) (x : Extraction ι) (l : ForwardLineData) : Bool :=
  (l.isFault || x.inputIndex < l.lineWidth) && x.output.length < cfg.outputWidth
    && x.prediction.isNone

def loop (cfg : Fetch2Config) (isa : StaticInsts ι)
    (predict : FetchedInst ι → Option PCState) : Nat → Extraction ι → Extraction ι
  | 0, x => x
  | fuel + 1, x =>
    match x.lineIn with
    | none => x
    | some l =>
      if x.continues cfg l then
        loop cfg isa predict fuel ((x.body isa predict l).wrapUp cfg l (x.isStale l))
      else x

/-- More than the loop can turn on the lines of a buffer. -/
def fuel (cfg : Fetch2Config) (lines : List ForwardLineData) : Nat :=
  cfg.outputWidth + (lines.map fun l => l.lineWidth + 2).sum

end Extraction

/-- What `Fetch2::evaluate` leaves in its own state and on its output wires. -/
structure Fetch2Result (ι : Type) where
  fetch2 : Fetch2
  nextStageReserve : Nat → InputBuffer (ForwardInstData ι)
  prediction : Option BranchData := none
  out : Option (ForwardInstData ι) := none

namespace Fetch2

def updateThread (s : Fetch2) (tid : Nat) (f : Fetch2Thread → Fetch2Thread) : Fetch2 :=
  { s with threads := Function.update s.threads tid (f (s.threads tid)) }

def setTail (s : Fetch2) (inp : Option ForwardLineData) : Fetch2 :=
  match inp with
  | some l => s.updateThread l.id.threadId fun t =>
      { t with inputBuffer := t.inputBuffer.setTail l }
  | none => s

def pushTail (s : Fetch2) (inp : Option ForwardLineData) : Fetch2 :=
  match inp with
  | some l => s.updateThread l.id.threadId fun t =>
      { t with inputBuffer := t.inputBuffer.pushTail }
  | none => s

/-- Only the change of stream matters, not where it leads. -/
def takeBranch (s : Fetch2) (branchInp : Option BranchData) : Fetch2 :=
  match branchInp with
  | some b =>
    if b.isStreamChange then s.updateThread b.threadId fun t => t.dumpAllInput.forgetPC else s
  | none => s

def clearStale (cfg : Fetch2Config) (s : Fetch2)
    (nextStageReserve : Nat → InputBuffer (ForwardInstData ι)) : Fetch2 :=
  { s with
    threads := fun tid =>
      if tid < cfg.numThreads then
        (s.threads tid).refresh cfg.processMoreThanOneInput !(nextStageReserve tid).canReserve
      else s.threads tid }

def getScheduledThread (priorityList : List Nat) (s : Fetch2) : Option Nat :=
  priorityList.find? fun tid => (s.threads tid).getInput.isSome && !(s.threads tid).blocked

/-- Run the extraction loop for a thread. -/
def extract (cfg : Fetch2Config) (isa : StaticInsts ι)
    (predict : FetchedInst ι → Option PCState) (t : Fetch2Thread) : Extraction ι :=
  Extraction.loop cfg isa predict (Extraction.fuel cfg t.inputBuffer.contents)
    { toFetch2Thread := t, lineIn := t.getInput }

/-- Extract for the scheduled thread and reserve a slot for what comes out. -/
def work (cfg : Fetch2Config) (isa : StaticInsts ι) (a : Fetch2Answers ι) (s : Fetch2)
    (nextStageReserve : Nat → InputBuffer (ForwardInstData ι)) : Fetch2Result ι :=
  match s.getScheduledThread a.priorityList with
  | none => { fetch2 := s, nextStageReserve := nextStageReserve }
  | some tid =>
    let x := extract cfg isa a.predict (s.threads tid)
    { fetch2 := { s.updateThread tid fun _ => x.toFetch2Thread with threadPriority := tid }
      nextStageReserve :=
        if x.output.isEmpty then nextStageReserve
        else Function.update nextStageReserve tid (nextStageReserve tid).reserve
      prediction := x.prediction
      out := ForwardInstData.pack cfg.outputWidth tid x.output }

/-- `Fetch2::evaluate`. What `pushTail` would find after the line in the latch has been
freed is gone from the buffer as well. -/
def evaluate (cfg : Fetch2Config) (isa : StaticInsts ι) (a : Fetch2Answers ι)
    (inp : Option ForwardLineData) (branchInp : Option BranchData) (s : Fetch2)
    (nextStageReserve : Nat → InputBuffer (ForwardInstData ι)) : Fetch2Result ι :=
  let s := ((s.setTail inp).takeBranch branchInp).clearStale cfg nextStageReserve
  let r := s.work cfg isa a nextStageReserve
  { r with fetch2 := r.fetch2.pushTail inp }

end Fetch2

end Gem5.Minor
