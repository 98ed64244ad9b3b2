import Gem5.Minor.ExtractionLoop
import Mathlib.Data.List.ReduceOption

/-!
# Extracting a straight run of instructions

While no branch changes the stream of a thread and none of its instructions is predicted
taken, Fetch2 turns consecutive lines into the reference parse of the code, however the
lines are cut, however they arrive and however often the thread is scheduled.
-/

namespace Gem5.Minor

open List Function BitVec Bool

open FlexCPU (Addr Code Decoder ExtMachInst PCState)
open FlexCPU.Decoder (InStep Offered wordAddr)

variable {ι : Type}

namespace Fetch2Thread

def receive (t : Fetch2Thread) (incoming : Option ForwardLineData) : Fetch2Thread :=
  { t with inputBuffer := t.inputBuffer.receive incoming }

def pushTail (t : Fetch2Thread) : Fetch2Thread :=
  { t with inputBuffer := t.inputBuffer.pushTail }

end Fetch2Thread

namespace Fetch2

variable {cfg : Fetch2Config} {isa : StaticInsts ι}

/-- The state in which a thread is scheduled. -/
def prepare (cfg : Fetch2Config) (s : Fetch2) (inp : Option ForwardLineData)
    (branch : Option BranchData) (next : Nat → InputBuffer (ForwardInstData ι)) : Fetch2 :=
  ((s.setTail inp).takeBranch branch).clearStale cfg next

theorem threads_setTail (s : Fetch2) (inp : Option ForwardLineData) (tid : Nat) :
    (s.setTail inp).threads tid = (s.threads tid).receive (incoming inp tid) := by
  cases inp with
  | none => rfl
  | some l =>
    by_cases own : l.id.threadId = tid
    · subst own
      simp [setTail, updateThread, Fetch2Thread.receive, InputBuffer.receive]
    · simp [setTail, updateThread, incoming_other own, Fetch2Thread.receive, InputBuffer.receive,
        Ne.symm own]

/-- A branch that leaves the stream of a thread alone. -/
def Spares (branch : Option BranchData) (tid : Nat) : Prop :=
  ∀ b, branch = some b → b.threadId = tid → b.isStreamChange = false

theorem threads_takeBranch (s : Fetch2) {branch : Option BranchData} {tid : Nat}
    (spares : Spares branch tid) : (s.takeBranch branch).threads tid = s.threads tid := by
  cases branch with
  | none => rfl
  | some b =>
    simp only [takeBranch]
    split
    next change =>
      have other : tid ≠ b.threadId := by
        rintro rfl
        exact absurd (change.symm.trans (spares b rfl rfl)) (by simp)
      simp [updateThread, other]
    · rfl

theorem threads_clearStale (s : Fetch2) (next : Nat → InputBuffer (ForwardInstData ι)) (tid : Nat) :
    (s.clearStale cfg next).threads tid =
      if tid < cfg.numThreads then
        (s.threads tid).refresh cfg.processMoreThanOneInput !(next tid).canReserve
      else s.threads tid := rfl

theorem threads_work (cfg : Fetch2Config) (isa : StaticInsts ι) (a : Fetch2Answers ι) (s : Fetch2)
    (next : Nat → InputBuffer (ForwardInstData ι)) (tid : Nat) :
    (s.work cfg isa a next).fetch2.threads tid =
      if s.getScheduledThread a.priorityList = some tid then
        (extract cfg isa a.predict (s.threads tid)).toFetch2Thread
      else s.threads tid := by
  simp only [work]
  split
  next none => simp [none]
  next scheduled found =>
    by_cases own : tid = scheduled
    · subst own
      simp [found, updateThread]
    · simp [found, updateThread, own, Ne.symm own]

theorem threads_pushTail (s : Fetch2) (inp : Option ForwardLineData) (tid : Nat)
    (settled : incoming inp tid = none → (s.threads tid).inputBuffer.Settled) :
    (s.pushTail inp).threads tid = (s.threads tid).pushTail := by
  have same : incoming inp tid = none → (s.threads tid).pushTail = s.threads tid := fun none => by
    simp [Fetch2Thread.pushTail, (settled none).pushTail_eq]
  cases inp with
  | none => exact (same rfl).symm
  | some l =>
    by_cases own : l.id.threadId = tid
    · subst own
      simp [pushTail, updateThread, Fetch2Thread.pushTail]
    · simp [pushTail, updateThread, Ne.symm own, same (incoming_other own)]

/-- What a thread puts out in a cycle. -/
def outputOf (out : Option (ForwardInstData ι)) (tid : Nat) : List (FetchedInst ι) :=
  match out with
  | some f => if f.threadId = tid then f.insts.reduceOption else []
  | none => []

theorem outputOf_pack (width scheduled tid : Nat) (insts : List (FetchedInst ι)) :
    outputOf (ForwardInstData.pack width scheduled insts) tid
      = if scheduled = tid then insts else [] := by
  have bubbles : ∀ n, (List.replicate n (none : Option (FetchedInst ι))).reduceOption = [] := by
    simp
  have packed : (insts.map some).reduceOption = insts := by
    simp [List.reduceOption]
  cases insts with
  | nil => simp [ForwardInstData.pack, outputOf]
  | cons =>
    simp only [ForwardInstData.pack, isEmpty_cons, false_eq_true, if_false, outputOf,
      reduceOption_append, bubbles, packed, append_nil]

theorem outputOf_work (a : Fetch2Answers ι) (s : Fetch2)
    (next : Nat → InputBuffer (ForwardInstData ι)) (tid : Nat) :
    outputOf (s.work cfg isa a next).out tid =
      if s.getScheduledThread a.priorityList = some tid then
        (extract cfg isa a.predict (s.threads tid)).output
      else [] := by
  simp only [work]
  split
  next none => simp [none, outputOf]
  next scheduled found =>
    rw [outputOf_pack, found]
    by_cases own : scheduled = tid
    · subst own
      simp
    · simp [own]

end Fetch2

/-- A line of code at `base`, fetched in a stream for a prediction. -/
structure ForwardLineData.Holds (code : Code) (stream prediction : Nat) (base : Addr)
    (l : ForwardLineData) : Prop where
  lineBaseAddr : l.lineBaseAddr = base
  fault : l.fault = none
  streamSeqNum : l.id.streamSeqNum = stream
  predictionSeqNum : l.id.predictionSeqNum = prediction
  pos : 0 < l.lineWidth
  aligned : l.lineWidth % 4 = 0
  small : l.lineWidth < 2 ^ 32
  bytes : ∀ i < l.lineWidth, l.line i = code (base + BitVec.ofNat 64 i)

theorem ForwardLineData.Holds.word {code : Code} {stream prediction : Nat} {base : Addr}
    {l : ForwardLineData} (holds : l.Holds code stream prediction base) {index : Nat}
    (inside : index + 4 ≤ l.lineWidth) : l.word index = code.word (base + BitVec.ofNat 64 index) := by
  have next : ∀ k, base + BitVec.ofNat 64 (index + k)
      = base + BitVec.ofNat 64 index + BitVec.ofNat 64 k := by
    intro k
    rw [ofNat_add, BitVec.add_assoc]
  have three : base + BitVec.ofNat 64 index + BitVec.ofNat 64 3
      = base + BitVec.ofNat 64 index + 2 + 1 :=
    (BitVec.add_assoc (base + BitVec.ofNat 64 index) 2 1).symm
  simp only [ForwardLineData.word]
  rw [holds.bytes _ (by omega), holds.bytes _ (by omega), holds.bytes _ (by omega),
    holds.bytes _ (by omega), next, next, next, three]
  rfl

theorem next_word (base : Addr) (n : Nat) :
    base + BitVec.ofNat 64 (n + 4) = base + BitVec.ofNat 64 n + 4 := by
  rw [ofNat_add, ← BitVec.add_assoc]
  rfl

/-- Lines that follow each other from `base`. -/
def Consecutive (code : Code) (stream prediction : Nat) : Addr → List ForwardLineData → Prop
  | _, [] => True
  | base, l :: rest =>
    l.Holds code stream prediction base
      ∧ Consecutive code stream prediction (base + BitVec.ofNat 64 l.lineWidth) rest

/-- The number of bytes in some lines. -/
def widths (lines : List ForwardLineData) : Nat := (lines.map (·.lineWidth)).sum

@[simp] theorem widths_nil : widths [] = 0 := rfl

@[simp] theorem widths_cons (l : ForwardLineData) (rest : List ForwardLineData) :
    widths (l :: rest) = l.lineWidth + widths rest := rfl

namespace Extraction

variable {cfg : Fetch2Config} {isa : StaticInsts ι} {predict : FetchedInst ι → Option PCState}

theorem predictBranch_untaken (isa : StaticInsts ι) (x : Extraction ι) (inst : FetchedInst ι) (si : ι)
    (untaken : predict { inst with triedToPredict := true } = none) :
    ∃ tried, x.predictBranch isa predict inst si = (x, { inst with triedToPredict := tried }) := by
  simp only [predictBranch]
  split
  · exact ⟨true, by simp [untaken]⟩
  · exact ⟨inst.triedToPredict, rfl⟩

theorem takeInst_untaken (isa : StaticInsts ι) (x : Extraction ι) (l : ForwardLineData)
    (untaken : ∀ inst, inst.id.threadId = l.id.threadId → predict inst = none) :
    ∃ tried, x.takeInst isa predict l =
      (x.decoded isa).emit { x.decodedInst isa l with triedToPredict := tried } := by
  have none := untaken { x.decodedInst isa l with triedToPredict := true } rfl
  obtain ⟨tried, same⟩ := predictBranch_untaken isa (x.decoded isa) (x.decodedInst isa l)
    (isa.decodeInst (x.decoder.decodeWord x.pc).2.1) none
  refine ⟨tried, ?_⟩
  simp [takeInst, same]

theorem pc_decoded (x : Extraction ι) :
    (x.decoded isa).pc = (x.decoder.decodeWord x.pc).2.2.advance := by
  simp [decoded, StaticInsts.advancePC, isa.decodeInst_plain]

theorem stepIndex_eq (x : Extraction ι) :
    x.stepIndex = { x with
      inputIndex := if x.decoder.needMoreBytes then x.inputIndex + 4 else x.inputIndex } := by
  simp only [stepIndex]
  split <;> rfl

end Extraction

/-- The lines of the thread, of which `future` are still to come, follow each other from
`base`. The decoder is in step at `inputIndex`, and `bytes` bytes of code are left from
the program counter. -/
structure Reading (code : Code) (stream prediction : Nat) (t : Fetch2Thread) (base : Addr)
    (future : List ForwardLineData) (bytes : Nat) : Prop where
  havePC : t.havePC = true
  current : t.expectedStreamSeqNum = stream → t.predictionSeqNum = prediction
  even : t.pc.pc.toNat % 2 = 0
  lines : Consecutive code stream prediction base (t.inputBuffer.contents ++ future)
  aligned : base.toNat % 4 = 0
  index : t.inputIndex % 4 = 0
  inside : ∀ l ∈ t.inputBuffer.contents.head?, t.inputIndex < l.lineWidth
  empty : t.inputBuffer.contents = [] → t.inputIndex = 0
  inStep : InStep code t.decoder t.pc.pc (base + BitVec.ofNat 64 t.inputIndex)
  count : widths (t.inputBuffer.contents ++ future) + t.decoder.seen t.pc.pc
    = t.inputIndex + bytes + 4

namespace Reading

variable {cfg : Fetch2Config} {isa : StaticInsts ι} {predict : FetchedInst ι → Option PCState}
  {code : Code} {stream prediction : Nat} {base : Addr} {future : List ForwardLineData}
  {bytes : Nat}

/-- The bytes that the decoder has not seen, as far as the instruction at hand needs them. -/
def left (t : Fetch2Thread) (bytes : Nat) : Nat := bytes - if t.decoder.mid then 2 else 0

theorem popInput {t : Fetch2Thread} {l : ForwardLineData} {rest : List ForwardLineData}
    (havePC : t.havePC = true)
    (current : t.expectedStreamSeqNum = stream → t.predictionSeqNum = prediction)
    (even : t.pc.pc.toNat % 2 = 0)
    (contents : t.inputBuffer.contents = l :: rest)
    (lines : Consecutive code stream prediction base (l :: rest ++ future))
    (aligned : base.toNat % 4 = 0) (used : t.inputIndex = l.lineWidth)
    (inStep : InStep code t.decoder t.pc.pc (base + BitVec.ofNat 64 t.inputIndex))
    (count : widths (l :: rest ++ future) + t.decoder.seen t.pc.pc = t.inputIndex + bytes + 4) :
    Reading code stream prediction t.popInput (base + BitVec.ofNat 64 l.lineWidth) future bytes := by
  have filled : t.inputBuffer.empty = false := by
    by_contra other
    rw [not_eq_false, InputBuffer.empty_iff, contents] at other
    cases other
  have left : t.popInput.inputBuffer.contents = rest := by
    simp [Fetch2Thread.popInput, filled, InputBuffer.contents_pop, contents]
  obtain ⟨holds, later⟩ := lines
  refine ⟨havePC, current, even, ?_, ?_, rfl, ?_, fun _ => rfl, ?_, ?_⟩
  · rw [left]
    exact later
  · rw [toNat_add_mod base l.lineWidth (by decide)]
    have := holds.aligned
    omega
  · intro k first
    rw [left] at first
    cases rest with
    | nil => cases first
    | cons k' rest =>
      obtain rfl : k' = k := by simpa using first
      exact later.1.pos
  · rw [used] at inStep
    simpa [Fetch2Thread.popInput] using inStep
  · rw [left]
    simp only [List.cons_append, widths_cons] at count
    change widths (rest ++ future) + t.decoder.seen t.pc.pc = 0 + bytes + 4
    omega

/-- The thread after a word, before a used-up line is dropped. -/
structure Moved (code : Code) (stream prediction : Nat) (t : Fetch2Thread) (base : Addr)
    (lines : List ForwardLineData) (width bytes : Nat) : Prop where
  havePC : t.havePC = true
  current : t.expectedStreamSeqNum = stream → t.predictionSeqNum = prediction
  even : t.pc.pc.toNat % 2 = 0
  index : t.inputIndex % 4 = 0
  inside : t.inputIndex ≤ width
  inStep : InStep code t.decoder t.pc.pc (base + BitVec.ofNat 64 t.inputIndex)
  count : widths lines + t.decoder.seen t.pc.pc = t.inputIndex + bytes + 4

/-- What one turn of the loop puts out. -/
inductive Turned (code : Code) (isa : StaticInsts ι) (x : Extraction ι) (bytes : Nat)
    (y : Extraction ι) : Nat → Prop where
  | inst {x' : FetchedInst ι} (output : y.output = x.output ++ [x'])
      (pc : x'.pc = code.pcState x.pc)
      (staticInst : x'.staticInst = some (isa.decodeInst (code.inst x.pc.pc)))
      (fits : code.size x.pc.pc ≤ bytes) (next : y.pc = x'.pc.advance) (mid : y.decoder.mid = false)
      (past : x.decoder.mid = true → code.size x.pc.pc = 4) :
      Turned code isa x bytes y (bytes - code.size x.pc.pc)
  | half (output : y.output = x.output) (next : y.pc = x.pc) (before : x.decoder.mid = false)
      (after : y.decoder.mid = true) (room : 2 ≤ bytes) : Turned code isa x bytes y bytes

/-- What a turn without a prediction leaves alone. -/
structure Kept (x y : Extraction ι) : Prop where
  inputBuffer : y.inputBuffer = x.inputBuffer
  lineIn : y.lineIn = x.lineIn
  prediction : y.prediction = x.prediction

theorem extract (isa : StaticInsts ι) (predict : FetchedInst ι → Option PCState)
    {x : Extraction ι} {l : ForwardLineData} {rest : List ForwardLineData}
    (reading : Reading code stream prediction x.toFetch2Thread base future bytes)
    (contents : x.inputBuffer.contents = l :: rest)
    (untaken : ∀ inst, inst.id.threadId = l.id.threadId → predict inst = none) :
    ∃ bytes', Turned code isa x bytes (x.extract isa predict l) bytes'
      ∧ Moved code stream prediction (x.extract isa predict l).toFetch2Thread base
          (l :: rest ++ future) l.lineWidth bytes'
      ∧ Kept x (x.extract isa predict l) := by
  obtain ⟨havePC, current, even, lines, aligned, index, inside, empty, inStep, count⟩ := reading
  rw [contents] at lines inside count
  have here : x.inputIndex + 4 ≤ l.lineWidth := by
    have := inside l rfl
    have := lines.1.aligned
    omega
  have idle : x.decoder.instReady = false := by
    cases inStep with
    | fresh _ idle _ => exact idle
    | middle _ idle _ _ _ _ => exact idle
  have offered := inStep.offer even
  rw [← lines.1.word here] at offered
  generalize word : x.decoder.moreBytes x.pc (l.word x.inputIndex) = d at offered
  have offer : x.offerWord l = { x with decoder := d } := by
    simp [Extraction.offerWord, idle, word]
  have room : x.decoder.seen x.pc.pc ≤ bytes := by
    simp only [List.cons_append, widths_cons] at count
    omega
  cases offered with
  | ready done inst mid next fits reach =>
    obtain ⟨tried, took⟩ :=
      Extraction.takeInst_untaken isa { x with decoder := d } l untaken
    have successor := Decoder.decodeWord_pc inst
    have pc : (Extraction.decoded isa { x with decoder := d }).pc = (code.pcState x.pc).advance := by
      rw [Extraction.pc_decoded]
      exact congrArg PCState.advance successor
    generalize named : (Extraction.decoded isa { x with decoder := d }).emit _ = z at took
    have extracted : x.extract isa predict l = z.stepIndex := by
      simp [Extraction.extract, offer, Decoder.instReady, done, took]
    have thread : z.toFetch2Thread = { x.toFetch2Thread with
        decoder := { d with instDone := false }
        pc := (code.pcState x.pc).advance
        fetchSeqNum := x.fetchSeqNum + 1 } := by
      rw [← named, ← pc]
      rfl
    have output : z.output = x.output ++ [{ Extraction.decodedInst isa { x with decoder := d } l with
        triedToPredict := tried }] := by
      rw [← named]
      rfl
    have kept : Kept x z := by
      rw [← named]
      exact ⟨rfl, rfl, rfl⟩
    have more : z.decoder.needMoreBytes = d.more := by rw [thread]; rfl
    rw [extracted, Extraction.stepIndex_eq, more]
    have index' : ((if d.more then x.inputIndex + 4 else x.inputIndex) : Nat)
        = x.inputIndex + if d.more then 4 else 0 := by
      split <;> rfl
    have evens : (code.size x.pc.pc) % 2 = 0 := by
      rcases code.size_cases x.pc.pc with size | size <;> rw [size]
    refine ⟨bytes - code.size x.pc.pc, ?_, ?_, ⟨kept.inputBuffer, kept.lineIn, kept.prediction⟩⟩
    · refine .inst output successor ?_ (fits.trans room) ?_ ?_ ?_
      · simp [Extraction.decodedInst, Decoder.decodeWord, inst]
      · simp [thread, Extraction.decodedInst, successor]
      · simp [thread, mid]
      · intro middle
        cases inStep with
        | fresh fresh _ _ => exact absurd (fresh.symm.trans middle) (by simp)
        | middle _ _ half long _ _ => simp [Code.size, ← half, long]
    · simp only [thread]
      refine ⟨havePC, current, ?_, ?_, ?_, ?_, ?_⟩
      · change (x.pc.pc + BitVec.ofNat 64 (code.size x.pc.pc)).toNat % 2 = 0
        rw [toNat_add_mod _ _ (by decide)]
        omega
      · simp only
        split <;> omega
      · simp only
        split <;> omega
      · refine .fresh mid rfl ?_
        refine Eq.trans ?_ next
        split
        · exact next_word base x.inputIndex
        · rfl
      · change _ + d.seen (x.pc.pc + BitVec.ofNat 64 (code.size x.pc.pc)) = _
        simp only
        omega
  | more needs next before after reach start =>
    have idle' : d.instReady = false := by
      cases next with
      | fresh _ idle _ => exact idle
      | middle _ idle _ _ _ _ => exact idle
    have extracted : x.extract isa predict l = { x with
        decoder := d
        inputIndex := x.inputIndex + 4 } := by
      simp [Extraction.extract, offer, idle', Extraction.stepIndex_eq, Decoder.needMoreBytes, needs]
    rw [extracted]
    have two : x.decoder.seen x.pc.pc = 2 := by
      have six : d.seen x.pc.pc = 6 := by simp [Decoder.seen, after]
      omega
    refine ⟨bytes, .half rfl rfl before after (two ▸ room), ⟨havePC, current, even, ?_, here, ?_, ?_⟩,
      ⟨rfl, rfl, rfl⟩⟩
    · simp only
      omega
    · simp only [next_word]
      exact next
    · simp only
      omega

/-- Between two turns of the loop: the line at hand is in front of the buffer. -/
structure Between (code : Code) (stream prediction : Nat) (x : Extraction ι) (base : Addr)
    (future : List ForwardLineData) (bytes : Nat) : Prop where
  reading : Reading code stream prediction x.toFetch2Thread base future bytes
  lastStreamSeqNum : x.lastStreamSeqNum = stream
  prediction : x.prediction = none
  lineIn : x.AtFront

theorem Turned.congr {x y z : Extraction ι} {bytes' : Nat}
    (turned : Turned code isa x bytes y bytes') (output : z.output = y.output) (pc : z.pc = y.pc)
    (decoder : z.decoder = y.decoder) : Turned code isa x bytes z bytes' := by
  cases turned with
  | inst out at_ si fits next mid past =>
    exact .inst (output.trans out) at_ si fits (pc.trans next) (decoder ▸ mid) past
  | half out next before after room =>
    exact .half (output.trans out) (pc.trans next) before (decoder ▸ after) room

theorem wrapUp (cfg : Fetch2Config) {x : Extraction ι} {l : ForwardLineData}
    {rest : List ForwardLineData} (moved : Moved code stream prediction x.toFetch2Thread base (l ::
    rest ++ future) l.lineWidth bytes)
    (lines : Consecutive code stream prediction base (l :: rest ++ future))
    (aligned : base.toNat % 4 = 0) (contents : x.inputBuffer.contents = l :: rest)
    (lastStreamSeqNum : x.lastStreamSeqNum = stream) (none : x.prediction = none)
    (lineIn : x.lineIn = some l) :
    ∃ base', Between code stream prediction (x.wrapUp cfg l false) base' future bytes
      ∧ (x.wrapUp cfg l false).output = x.output ∧ (x.wrapUp cfg l false).pc = x.pc
      ∧ (x.wrapUp cfg l false).decoder = x.decoder := by
  obtain ⟨havePC, current, even, index, inside, inStep, count⟩ := moved
  have plain : l.isFault = false := by simp [ForwardLineData.isFault, lines.1.fault]
  simp only [Extraction.wrapUp, none, plain, Option.isSome_none, Bool.or_self,
    false_eq_true, if_false]
  split
  next used =>
    have popped := popInput havePC current even contents lines aligned used inStep count
    refine ⟨base + BitVec.ofNat 64 l.lineWidth, ⟨popped, lastStreamSeqNum, none, ?_⟩, rfl, rfl, rfl⟩
    exact Extraction.atFront_nextLine _
  next unused =>
    refine ⟨base, ⟨⟨havePC, current, even, contents ▸ lines, aligned, index, ?_, ?_, inStep,
      contents ▸ count⟩, lastStreamSeqNum, none, .inr ?_⟩, rfl, rfl, rfl⟩
    · grind
    · grind
    · rw [lineIn, Fetch2Thread.getInput, InputBuffer.front_eq, contents]
      rfl

theorem isStale_eq_false {t : Fetch2Thread} {l : ForwardLineData}
    (current : t.expectedStreamSeqNum = stream → t.predictionSeqNum = prediction)
    (holds : l.Holds code stream prediction base) : t.isStale l = false := by
  simp only [Fetch2Thread.isStale, holds.streamSeqNum, holds.predictionSeqNum,
    and_eq_false_iff, beq_eq_false_iff_ne, bne_eq_false_iff_eq]
  by_cases same : t.expectedStreamSeqNum = stream
  · exact .inr (current same)
  · exact .inl same

theorem turn (cfg : Fetch2Config) {w x : Extraction ι} {l : ForwardLineData}
    {rest : List ForwardLineData}
    (reading : Reading code stream prediction x.toFetch2Thread base future bytes)
    (contents : x.inputBuffer.contents = l :: rest) (none : x.prediction = none)
    (lineIn : x.lineIn = some l)
    (untaken : ∀ inst, inst.id.threadId = l.id.threadId → predict inst = Option.none)
    (body : w.body isa predict l =
      { x.extract isa predict l with lastStreamSeqNum := l.id.streamSeqNum }) :
    ∃ base' bytes', Turned code isa x bytes ((w.body isa predict l).wrapUp cfg l false) bytes'
      ∧ Between code stream prediction ((w.body isa predict l).wrapUp cfg l false) base'
          future bytes' := by
  have lines := reading.lines
  rw [contents] at lines
  have holds := lines.1
  obtain ⟨bytes', turned, moved, kept⟩ := reading.extract isa predict contents untaken
  have same : Moved code stream prediction (w.body isa predict l).toFetch2Thread base
      (l :: rest ++ future) l.lineWidth bytes' := by
    rw [body]
    exact ⟨moved.havePC, moved.current, moved.even, moved.index, moved.inside, moved.inStep,
      moved.count⟩
  obtain ⟨base', later, output, pc, decoder⟩ := wrapUp cfg same lines reading.aligned
    (by rw [body]; exact kept.inputBuffer ▸ contents) (by rw [body]; exact holds.streamSeqNum)
    (by rw [body]; exact kept.prediction.trans none) (by rw [body]; exact kept.lineIn.trans lineIn)
  refine ⟨base', bytes', turned.congr (output.trans ?_) (pc.trans ?_) (decoder.trans ?_), later⟩
  all_goals rw [body]

theorem Between.turn (cfg : Fetch2Config) (isa : StaticInsts ι) {x : Extraction ι} {l : ForwardLineData}
    (between : Between code stream prediction x base future bytes) (lineIn : x.lineIn = some l)
    (untaken : ∀ inst, inst.id.threadId = l.id.threadId → predict inst = none) :
    ∃ base' bytes',
      Turned code isa x bytes ((x.body isa predict l).wrapUp cfg l (x.isStale l)) bytes'
      ∧ Between code stream prediction ((x.body isa predict l).wrapUp cfg l (x.isStale l)) base'
          future bytes' := by
  obtain ⟨rest, contents⟩ := between.lineIn.contents lineIn
  have reading := between.reading
  have lines := reading.lines
  rw [contents] at lines
  have holds := lines.1
  have fresh := isStale_eq_false reading.current holds
  have plain : l.isFault = false := by simp [ForwardLineData.isFault, holds.fault]
  rw [fresh]
  refine Reading.turn cfg reading contents between.prediction lineIn untaken ?_
  simp [Extraction.body, fresh, plain, reading.havePC, between.lastStreamSeqNum,
    holds.streamSeqNum]

end Reading

/-- The lines start with the word of `start`, and `bytes` bytes of code follow it. -/
def Cut (code : Code) (stream prediction : Nat) (start : PCState) (bytes : Nat) :
    List ForwardLineData → Prop
  | [] => bytes = 0
  | l :: rest =>
    l.pc = start ∧ start.pc.toNat % 2 = 0 ∧ l.lineBaseAddr.toNat % 4 = 0
      ∧ Consecutive code stream prediction l.lineBaseAddr (l :: rest)
      ∧ (start.pc - l.lineBaseAddr).toNat < l.lineWidth
      ∧ widths (l :: rest) = (start.pc - l.lineBaseAddr).toNat + bytes

/-- The thread has no program counter for the stream yet. -/
structure Starting (code : Code) (stream prediction : Nat) (start : PCState) (t : Fetch2Thread)
    (future : List ForwardLineData) (bytes : Nat) : Prop where
  turned : t.havePC = false ∨ t.lastStreamSeqNum ≠ stream
  current : t.expectedStreamSeqNum = stream → t.predictionSeqNum = prediction
  index : t.inputIndex = 0
  lines : Cut code stream prediction start bytes (t.inputBuffer.contents ++ future)

namespace Starting

variable {code : Code} {stream prediction : Nat} {start : PCState} {t : Fetch2Thread}
  {future : List ForwardLineData} {bytes : Nat}

theorem setPC (starting : Starting code stream prediction start t future bytes)
    {l : ForwardLineData} {rest : List ForwardLineData}
    (contents : t.inputBuffer.contents = l :: rest) :
    Reading code stream prediction (t.setPC l) l.lineBaseAddr future bytes := by
  have lines := starting.lines
  rw [contents] at lines
  obtain ⟨rfl, even, aligned, consecutive, inside, total⟩ := lines
  have rounded : l.pc.pc &&& pcMask = wordAddr l.pc.pc :=
    and_not_low l.pc.pc (k := 2) (by decide)
  have residue : (l.pc.pc - l.lineBaseAddr).toNat % 4 = l.pc.pc.toNat % 4 := by
    have back : l.pc.pc = l.lineBaseAddr
        + BitVec.ofNat 64 (l.pc.pc - l.lineBaseAddr).toNat := by
      rw [BitVec.ofNat_toNat, setWidth_eq, BitVec.add_comm, BitVec.sub_add_cancel]
    have sum := congrArg (fun a : BitVec 64 => a.toNat % 4) back
    simp only [toNat_add_mod l.lineBaseAddr _ (show 4 ∣ 2 ^ 64 by decide)] at sum
    omega
  generalize offset : (l.pc.pc - l.lineBaseAddr).toNat = n at inside total residue
  have index : (wordAddr l.pc.pc - l.lineBaseAddr).toNat = n - n % 4 := by
    have moved : wordAddr l.pc.pc - l.lineBaseAddr
        = (l.pc.pc - l.lineBaseAddr) - BitVec.ofNat 64 (n % 4) := by
      rw [wordAddr, residue]
      bv_omega
    rw [moved, toNat_sub_of_le, offset, toNat_ofNat]
    · omega
    · rw [le_def, offset, toNat_ofNat]
      omega
  have small := consecutive.1.small
  have stored : (t.setPC l).inputIndex = n - n % 4 := by
    simp only [Fetch2Thread.setPC, rounded]
    omega
  have contents' : (t.setPC l).inputBuffer.contents = l :: rest := contents
  refine ⟨rfl, starting.current, even, ?_, aligned, ?_, ?_, ?_, .fresh rfl rfl ?_, ?_⟩
  · rw [contents']
    exact consecutive
  · rw [stored]
    omega
  · grind
  · grind
  · rw [stored, ← index, BitVec.ofNat_toNat, setWidth_eq, BitVec.add_comm,
      BitVec.sub_add_cancel]
    rfl
  · rw [contents', stored]
    change widths (l :: (rest ++ future)) + (4 - l.pc.pc.toNat % 4) = n - n % 4 + bytes + 4
    change widths (l :: (rest ++ future)) = n + bytes at total
    omega

theorem body {isa : StaticInsts ι} {predict : FetchedInst ι → Option PCState} {x : Extraction ι}
    (starting : Starting code stream prediction start x.toFetch2Thread future bytes)
    {l : ForwardLineData} {base : Addr} (holds : l.Holds code stream prediction base) :
    x.body isa predict l =
      { (x.onThread (·.setPC l)).extract isa predict l with
        lastStreamSeqNum := l.id.streamSeqNum } := by
  have fresh := Reading.isStale_eq_false starting.current holds
  have plain : l.isFault = false := by simp [ForwardLineData.isFault, holds.fault]
  have turned : (!x.havePC || x.lastStreamSeqNum != l.id.streamSeqNum) = true := by
    rw [holds.streamSeqNum]
    rcases starting.turned with none | other
    · simp [none]
    · simp [other]
  simp [Extraction.body, fresh, plain, turned]

end Starting

/-- An instruction of the reference parse, as Fetch2 shows it. -/
def decodedAs (isa : StaticInsts ι) (inst : PCState × ExtMachInst) : PCState × Option ι :=
  (inst.1, some (isa.decodeInst inst.2))

def FetchedInst.shown (x : FetchedInst ι) : PCState × Option ι := (x.pc, x.staticInst)

namespace Reading

/-- In `turns` turns the loop has gone from `x` to `z` and put out `new`; what the parse
finds from the new program counter on is still to come. -/
structure Went (code : Code) (isa : StaticInsts ι) (stream prediction : Nat)
    (future : List ForwardLineData) (x : Extraction ι) (bytes : Nat) (z : Extraction ι)
    (base' : Addr) (bytes' : Nat) (new : List (FetchedInst ι)) (turns : Nat) : Prop where
  between : Between code stream prediction z base' future bytes'
  output : z.output = x.output ++ new
  parse : (code.insts x.pc bytes).map (decodedAs isa)
    = new.map FetchedInst.shown ++ (code.insts z.pc bytes').map (decodedAs isa)
  left : left z.toFetch2Thread bytes' + 2 * turns ≤ left x.toFetch2Thread bytes

variable {cfg : Fetch2Config} {isa : StaticInsts ι} {predict : FetchedInst ι → Option PCState}
  {code : Code} {stream prediction : Nat} {base base' base'' : Addr}
  {future : List ForwardLineData} {bytes bytes' bytes'' : Nat}

theorem Between.went {x : Extraction ι}
    (between : Between code stream prediction x base future bytes) (isa : StaticInsts ι) :
    Went code isa stream prediction future x bytes x base bytes [] 0 :=
  ⟨between, by simp, by simp, by simp⟩

theorem Went.trans {x y z : Extraction ι} {new more : List (FetchedInst ι)} {turns turns' : Nat}
    (first : Went code isa stream prediction future x bytes y base' bytes' new turns)
    (second : Went code isa stream prediction future y bytes' z base'' bytes'' more turns') :
    Went code isa stream prediction future x bytes z base'' bytes'' (new ++ more)
      (turns + turns') := by
  refine ⟨second.between, ?_, ?_, ?_⟩
  · rw [second.output, first.output, List.append_assoc]
  · rw [first.parse, second.parse, map_append, List.append_assoc]
  · have := first.left
    have := second.left
    omega

theorem Turned.went {x y : Extraction ι} (turned : Turned code isa x bytes y bytes')
    (between : Between code stream prediction y base' future bytes') :
    ∃ new, Went code isa stream prediction future x bytes y base' bytes' new 1 := by
  cases turned with
  | @inst x' output pc staticInst fits next mid past =>
    refine ⟨[x'], between, output, ?_, ?_⟩
    · rw [Code.insts_of_fits fits, next, pc]
      simp [decodedAs, FetchedInst.shown, pc, staticInst]
    · simp only [Reading.left, mid, false_eq_true, if_false]
      rcases code.size_cases x.pc.pc with size | size
      · grind
      · split <;> omega
  | half output next before after room =>
    refine ⟨[], between, by simpa using output, by simp [next], ?_⟩
    simp only [Reading.left, before, after, if_true, false_eq_true, if_false]
    omega

theorem Between.loop (cfg : Fetch2Config) (isa : StaticInsts ι) {tid : Nat}
    (untaken : ∀ inst, inst.id.threadId = tid → predict inst = none) (fuel : Nat)
    {x : Extraction ι} (between : Between code stream prediction x base future bytes)
    (owned : ∀ l ∈ x.inputBuffer.contents, l.id.threadId = tid) :
    ∃ base' bytes' new turns, Went code isa stream prediction future x bytes
      (Extraction.loop cfg isa predict fuel x) base' bytes' new turns := by
  induction fuel generalizing x base bytes with
  | zero => exact ⟨base, bytes, [], 0, between.went isa⟩
  | succ fuel ih =>
    simp only [Extraction.loop]
    split
    · exact ⟨base, bytes, [], 0, between.went isa⟩
    next l lineIn =>
      split
      · obtain ⟨rest, contents⟩ := between.lineIn.contents lineIn
        have own : l.id.threadId = tid := owned l (contents ▸ List.mem_cons_self)
        obtain ⟨base₁, bytes₁, turned, later⟩ := between.turn cfg isa lineIn
          fun inst same => untaken inst (same.trans own)
        obtain ⟨new, first⟩ := turned.went later
        have popped := Extraction.popped_turn cfg isa predict x l
        obtain ⟨base₂, bytes₂, more, turns, second⟩ := ih later
          fun k inside => owned k (popped.contents.subset inside)
        exact ⟨base₂, bytes₂, new ++ more, 1 + turns, first.trans second⟩
      · exact ⟨base, bytes, [], 0, between.went isa⟩

end Reading

end Gem5.Minor
