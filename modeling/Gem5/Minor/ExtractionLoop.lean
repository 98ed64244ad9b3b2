import Gem5.Minor.FetchMoves

/-!
# The extraction loop ends by its own test

A turn of the loop drops a line, puts out an instruction or steps on in its line, so the
fuel of the loop never runs out before its test fails.
-/

namespace Gem5.Minor

open List Bool

open FlexCPU (Decoder PCState)

variable {ι : Type}

theorem Fetch2Thread.contents_popInput (t : Fetch2Thread) :
    t.popInput.inputBuffer.contents = t.inputBuffer.contents.tail := by
  simp only [popInput]
  split
  next empty => simp [(InputBuffer.empty_iff _).mp empty]
  next => exact InputBuffer.contents_pop _

theorem Fetch2Thread.contents_dumpAllInput (t : Fetch2Thread) :
    t.dumpAllInput.inputBuffer.contents = [] := by
  have all : ∀ (lines : List ForwardLineData) (u : Fetch2Thread),
      (lines.foldl (fun u _ => u.popInput) u).inputBuffer.contents
        = u.inputBuffer.contents.drop lines.length := by
    intro lines
    induction lines with
    | nil => exact fun u => rfl
    | cons l rest ih =>
      intro u
      rw [List.foldl_cons, ih, contents_popInput, length_cons, drop_tail]
  exact (all _ t).trans (drop_length)

namespace Extraction

variable {cfg : Fetch2Config} (isa : StaticInsts ι) (predict : FetchedInst ι → Option PCState)

/-- An upper bound of the turns of the loop. The first turn on a line may set its index. -/
def turnsLeft (cfg : Fetch2Config) (x : Extraction ι) : Nat :=
  match x.inputBuffer.contents with
  | [] => 0
  | l :: rest =>
    (cfg.outputWidth - x.output.length)
      + (if x.havePC && x.lastStreamSeqNum == l.id.streamSeqNum then l.lineWidth - x.inputIndex + 1
        else l.lineWidth + 2)
      + (rest.map fun l => l.lineWidth + 2).sum

/-- The line at hand, if any, is in front of the buffer. -/
def AtFront (x : Extraction ι) : Prop := x.lineIn = none ∨ x.lineIn = x.getInput

/-- The loop would not turn again. -/
def Stops (cfg : Fetch2Config) (x : Extraction ι) : Prop :=
  ∀ l, x.lineIn = some l → x.continues cfg l = false

/-- A word gives an instruction, or the loop steps on in the line. -/
structure Extracted (x y : Extraction ι) : Prop where
  inputBuffer : y.inputBuffer = x.inputBuffer
  lineIn : y.lineIn = x.lineIn
  havePC : y.havePC = x.havePC
  moves : (y.output.length = x.output.length + 1 ∧ x.inputIndex ≤ y.inputIndex)
    ∨ (y.output = x.output ∧ y.inputIndex = x.inputIndex + 4)

theorem predictBranch_fst (x : Extraction ι) (inst : FetchedInst ι) (si : ι) :
    ∃ stream prediction branch, (x.predictBranch isa predict inst si).1 = { x with
      expectedStreamSeqNum := stream, predictionSeqNum := prediction, prediction := branch } := by
  simp only [predictBranch]
  split
  · aesop
  · exact ⟨_, _, _, rfl⟩

theorem moreBytes_more (d : Decoder) (pc : PCState) (word : FlexCPU.MachInst)
    (idle : (d.moreBytes pc word).instReady = false) :
    (d.moreBytes pc word).needMoreBytes = true := by
  simp only [Decoder.moreBytes, Decoder.instReady, Decoder.needMoreBytes] at idle ⊢
  split at idle
  next => exact absurd idle (by simp)
  next odd => grind

theorem extracted_takeInst (x : Extraction ι) (l : ForwardLineData) :
    Extracted x (x.takeInst isa predict l).stepIndex := by
  obtain ⟨stream, prediction, branch, same⟩ := predictBranch_fst isa predict
    (x.decoded isa) (x.decodedInst isa l) (isa.decodeInst (x.decoder.decodeWord x.pc).2.1)
  simp only [takeInst, same, stepIndex]
  split
  · exact ⟨rfl, rfl, rfl, .inl ⟨by simp [emit, decoded], Nat.le_add_right _ 4⟩⟩
  · exact ⟨rfl, rfl, rfl, .inl ⟨by simp [emit, decoded], le_rfl⟩⟩

theorem extracted_extract (x : Extraction ι) (l : ForwardLineData) :
    Extracted x (x.extract isa predict l) := by
  have taken : ∀ d, Extracted x (({ x with decoder := d }.takeInst isa predict l).stepIndex) := by
    intro d
    obtain ⟨inputBuffer, lineIn, havePC, moves⟩ :=
      extracted_takeInst isa predict { x with decoder := d } l
    exact ⟨inputBuffer, lineIn, havePC, moves⟩
  by_cases waits : x.decoder.instReady = true
  · simp only [extract, offerWord, waits, if_true]
    exact taken x.decoder
  · rw [not_eq_true] at waits
    simp only [extract, offerWord, waits, false_eq_true, if_false]
    split
    · exact taken _
    next idle =>
      rw [not_eq_true] at idle
      simp only [stepIndex, moreBytes_more _ _ _ idle]
      exact ⟨rfl, rfl, rfl, .inr ⟨rfl, rfl⟩⟩

theorem atFront_nextLine (x : Extraction ι) : AtFront (x.nextLine cfg) := by
  simp only [nextLine]
  split
  · exact .inr rfl
  · exact .inl rfl

theorem AtFront.contents {x : Extraction ι} {l : ForwardLineData} (front : AtFront x)
    (lineIn : x.lineIn = some l) : ∃ rest, x.inputBuffer.contents = l :: rest := by
  apply List.head?_eq_some_iff.mp
  rcases front with nothing | front
  · exact absurd (nothing.symm.trans lineIn) (by simp)
  · rw [← InputBuffer.front_eq, ← Fetch2Thread.getInput, ← front, lineIn]

theorem turnsLeft_cons {x : Extraction ι} {l : ForwardLineData} {rest : List ForwardLineData}
    (contents : x.inputBuffer.contents = l :: rest) :
    turnsLeft cfg x = (cfg.outputWidth - x.output.length)
      + (if x.havePC && x.lastStreamSeqNum == l.id.streamSeqNum then l.lineWidth - x.inputIndex + 1
        else l.lineWidth + 2)
      + (rest.map fun l => l.lineWidth + 2).sum := by
  simp [turnsLeft, contents]

theorem turnsLeft_le (x : Extraction ι) :
    turnsLeft cfg x ≤ (cfg.outputWidth - x.output.length)
      + (x.inputBuffer.contents.map fun l => l.lineWidth + 2).sum := by
  simp only [turnsLeft]
  split
  · exact Nat.zero_le _
  next l rest contents => grind

theorem turnsLeft_pop {x y : Extraction ι} {l : ForwardLineData} {rest : List ForwardLineData}
    (contents : x.inputBuffer.contents = l :: rest)
    (popped : y.inputBuffer.contents = [] ∨ y.inputBuffer.contents = rest)
    (output : x.output.length ≤ y.output.length) : turnsLeft cfg y < turnsLeft cfg x := by
  have later : turnsLeft cfg y ≤ _ := turnsLeft_le y
  have before : (cfg.outputWidth - x.output.length) + 1
      + (rest.map fun l => l.lineWidth + 2).sum ≤ turnsLeft cfg x := by
    rw [turnsLeft_cons contents]
    split <;> omega
  rcases popped with nil | tail
  · grind
  · rw [tail] at later
    omega

theorem Extracted.output_le {x y : Extraction ι} (extracted : Extracted x y) :
    x.output.length ≤ y.output.length := by
  rcases extracted.moves with ⟨longer, -⟩ | ⟨same, -⟩
  · omega
  · rw [same]

/-- The thread on which the body works on a line. -/
def started (x : Extraction ι) (l : ForwardLineData) : Extraction ι :=
  if !x.havePC || x.lastStreamSeqNum != l.id.streamSeqNum then x.onThread (·.setPC l) else x

theorem body_plain {x : Extraction ι} {l : ForwardLineData} (fresh : x.isStale l = false)
    (plain : l.isFault = false) :
    x.body isa predict l = { (x.started l).extract isa predict l with
      lastStreamSeqNum := l.id.streamSeqNum } := by
  simp [body, fresh, plain, started]

theorem output_started (x : Extraction ι) (l : ForwardLineData) :
    (x.started l).output = x.output ∧ (x.started l).lineIn = x.lineIn := by
  simp only [started]
  split
  · exact ⟨rfl, rfl⟩
  · exact ⟨rfl, rfl⟩

theorem output_body (x : Extraction ι) (l : ForwardLineData) :
    x.output.length ≤ (x.body isa predict l).output.length
      ∧ (x.body isa predict l).lineIn = x.lineIn := by
  by_cases stale : x.isStale l = true
  · simp [body, stale]
  · rw [not_eq_true] at stale
    by_cases fault : l.isFault = true
    · have started := output_started x l
      have faulted : x.body isa predict l =
          { (x.started l).emit { (x.started l).newInst l with fault := l.fault } with
            lastStreamSeqNum := l.id.streamSeqNum } := by
        simp [body, stale, fault, Extraction.started]
      rw [faulted, ← started.1]
      exact ⟨by simp [emit], started.2⟩
    · rw [not_eq_true] at fault
      have extracted := extracted_extract isa predict (x.started l) l
      have started := output_started x l
      rw [body_plain isa predict stale fault]
      exact ⟨started.1 ▸ extracted.output_le, extracted.lineIn.trans started.2⟩

theorem turnsLeft_stay {x : Extraction ι} {l : ForwardLineData} {rest : List ForwardLineData}
    (contents : x.inputBuffer.contents = l :: rest) (continues : x.continues cfg l = true)
    (fresh : x.isStale l = false) (plain : l.isFault = false) :
    turnsLeft cfg (x.body isa predict l) < turnsLeft cfg x := by
  simp only [plain, Extraction.continues, Bool.false_or, and_eq_true,
    decide_eq_true_eq] at continues
  obtain ⟨-, -, havePC, moves⟩ :=
    extracted_extract isa predict (x.started l) l
  have same : (x.body isa predict l).inputBuffer = x.inputBuffer := inputBuffer_body x l
  have output := (output_started x l).1
  rw [turnsLeft_cons (same ▸ contents), turnsLeft_cons contents, body_plain isa predict fresh plain]
  simp only [havePC, beq_self_eq_true, Bool.and_true]
  rw [output] at moves
  by_cases turned : (!x.havePC || x.lastStreamSeqNum != l.id.streamSeqNum) = true
  · have unset : (x.havePC && x.lastStreamSeqNum == l.id.streamSeqNum) = false := by
      rw [← not_eq_true']
      simpa using turned
    have set : (x.started l).havePC = true := by simp [started, turned, onThread, Fetch2Thread.setPC]
    simp only [unset, set, if_true, false_eq_true, if_false]
    rcases moves with ⟨longer, -⟩ | ⟨same, -⟩
    · omega
    · rw [same]
      omega
  · have start : x.started l = x := by simp [started, turned]
    simp only [not_eq_true, or_eq_false_iff, not_eq_false', bne_eq_false_iff_eq]
      at turned
    rw [start] at moves ⊢
    simp only [turned, beq_self_eq_true, Bool.and_true, if_true]
    rcases moves with ⟨longer, further⟩ | ⟨same, further⟩
    · omega
    · rw [same]
      omega

theorem turnsLeft_turn {x : Extraction ι} {l : ForwardLineData} (front : AtFront x)
    (lineIn : x.lineIn = some l) (continues : x.continues cfg l = true) :
    AtFront ((x.body isa predict l).wrapUp cfg l (x.isStale l))
      ∧ turnsLeft cfg ((x.body isa predict l).wrapUp cfg l (x.isStale l)) < turnsLeft cfg x := by
  obtain ⟨rest, contents⟩ := front.contents lineIn
  obtain ⟨longer, line⟩ := output_body isa predict x l
  have same : (x.body isa predict l).inputBuffer = x.inputBuffer := inputBuffer_body x l
  simp only [wrapUp]
  split
  next => 
    refine ⟨atFront_nextLine _, turnsLeft_pop contents (.inl ?_) longer⟩
    exact Fetch2Thread.contents_dumpAllInput _
  next going =>
    have tail : (x.body isa predict l).popInput.inputBuffer.contents = rest := by
      rw [Fetch2Thread.contents_popInput, same, contents, tail_cons]
    split
    next => exact ⟨atFront_nextLine _, turnsLeft_pop contents (.inr tail) longer⟩
    next fresh =>
      rw [not_eq_true] at fresh
      split
      · exact ⟨atFront_nextLine _, turnsLeft_pop contents (.inr tail) longer⟩
      · have plain : l.isFault = false := by
          simp only [not_eq_true, or_eq_false_iff] at going
          exact going.2
        refine ⟨?_, turnsLeft_stay isa predict contents continues fresh plain⟩
        simp only [AtFront, Fetch2Thread.getInput, line, same]
        exact front

/-- With enough fuel the loop runs until its test fails. -/
theorem loop_stops (fuel : Nat) {x : Extraction ι} (front : AtFront x)
    (enough : turnsLeft cfg x ≤ fuel) : Stops cfg (loop cfg isa predict fuel x) := by
  induction fuel generalizing x with
  | zero =>
    intro l lineIn
    obtain ⟨rest, contents⟩ := front.contents lineIn
    rw [turnsLeft_cons contents] at enough
    split at enough <;> omega
  | succ fuel ih =>
    simp only [loop]
    split
    next none =>
      intro l some
      exact absurd (none.symm.trans some) (by simp)
    next l lineIn =>
      split
      next continues => grind [turnsLeft_turn]
      next stops =>
        intro k same
        obtain rfl : l = k := Option.some.inj (lineIn.symm.trans same)
        exact not_eq_true _ ▸ stops

end Extraction

theorem Fetch2.extract_stops (cfg : Fetch2Config) (isa : StaticInsts ι)
    (predict : FetchedInst ι → Option PCState) (t : Fetch2Thread) :
    (Fetch2.extract cfg isa predict t).Stops cfg :=
  Extraction.loop_stops isa predict _ (.inr rfl) (Extraction.turnsLeft_le _)

end Gem5.Minor
