import Gem5.Minor.Extraction

/-!
# Runs of Fetch2 over a straight run of instructions

Cycle after cycle a thread takes lines in and puts instructions out. What it has put out is
what the reference parse finds in its lines, up to the lines that still wait.
-/

namespace Gem5.Minor

open List Bool

open FlexCPU (Addr Code Decoder PCState)
open InputBuffer (Popped)

variable {ι : Type} {cfg : Fetch2Config} {isa : StaticInsts ι} {code : Code}
  {stream prediction : Nat} {start : PCState}

/-- The loop before its first turn. -/
abbrev Extraction.atFirst (t : Fetch2Thread) : Extraction ι :=
  { toFetch2Thread := t, lineIn := t.getInput }

theorem Fetch2.extract_turn (cfg : Fetch2Config) (isa : StaticInsts ι)
    (predict : FetchedInst ι → Option PCState) {t : Fetch2Thread} {l : ForwardLineData}
    (first : t.getInput = some l) (inside : t.inputIndex < l.lineWidth) :
    ∃ fuel, Fetch2.extract cfg isa predict t = Extraction.loop cfg isa predict fuel
      (((Extraction.atFirst t).body isa predict l).wrapUp cfg l
        ((Extraction.atFirst t : Extraction ι).isStale l)) := by
  have width := cfg.outputWidth_pos
  obtain ⟨fuel, enough⟩ : ∃ fuel,
      Extraction.fuel cfg t.inputBuffer.contents = fuel + 1 :=
    ⟨Extraction.fuel cfg t.inputBuffer.contents - 1, by simp [Extraction.fuel]; omega⟩
  refine ⟨fuel, ?_⟩
  simp [Fetch2.extract, enough, Extraction.loop, first, Extraction.continues, inside, width,
    Extraction.atFirst]

/-- `u` is `t` with its lines rearranged in the buffer. -/
structure Fetch2Thread.Rebuffered (t u : Fetch2Thread) : Prop where
  contents : u.inputBuffer.contents = t.inputBuffer.contents
  same : u = { t with inputBuffer := u.inputBuffer, blocked := u.blocked }

theorem Fetch2Thread.rebuffered_pushTail {t : Fetch2Thread} (ordered : t.inputBuffer.Ordered) :
    t.Rebuffered t.pushTail :=
  ⟨ordered.contents_pushTail, rfl⟩

theorem Fetch2Thread.rebuffered_refresh {t : Fetch2Thread} (more blocked : Bool)
    (fresh : ∀ l, t.getInput = some l → t.isStale l = false) :
    t.Rebuffered (t.refresh more blocked) := by
  have same : t.refresh more blocked = { t with blocked := blocked } := by
    simp only [refresh]
    cases t.inputBuffer.contents.length with
    | zero => rfl
    | succ =>
      simp only [discardStale]
      split
      · rfl
      next l first =>
        have not_stale : Fetch2Thread.isStale { t with blocked := blocked } l = false :=
          fresh l first
        simp [not_stale]
  rw [same]
  exact ⟨rfl, rfl⟩

namespace Reading

variable {t u : Fetch2Thread} {base : Addr} {future : List ForwardLineData} {bytes : Nat}

theorem rebuffered (reading : Reading code stream prediction t base future bytes)
    (rebuffered : t.Rebuffered u) : Reading code stream prediction u base future bytes := by
  obtain ⟨contents, same⟩ := rebuffered
  obtain ⟨havePC, current, even, lines, aligned, index, inside, empty, inStep, count⟩ := reading
  rw [← contents] at lines inside empty count
  rw [same]
  exact ⟨havePC, current, even, lines, aligned, index, inside, empty, inStep, count⟩

theorem receive {incoming : Option ForwardLineData}
    (reading : Reading code stream prediction t base (incoming.toList ++ future) bytes)
    (settled : t.inputBuffer.Settled) :
    Reading code stream prediction (t.receive incoming) base future bytes := by
  cases incoming with
  | none => exact reading
  | some l =>
    have contents : (t.receive (some l)).inputBuffer.contents = t.inputBuffer.contents ++ [l] :=
      InputBuffer.contents_setTail settled l
    obtain ⟨havePC, current, even, lines, aligned, index, inside, empty, inStep, count⟩ := reading
    have joined : t.inputBuffer.contents ++ (Option.toList (some l) ++ future)
        = (t.receive (some l)).inputBuffer.contents ++ future := by
      rw [contents]
      simp
    rw [joined] at lines count
    refine ⟨havePC, current, even, lines, aligned, index, ?_, ?_, inStep, count⟩
    · intro k first
      rw [contents] at first lines
      cases waiting : t.inputBuffer.contents with
      | nil =>
        rw [waiting] at first lines
        obtain rfl : l = k := by simpa using first
        change t.inputIndex < l.lineWidth
        rw [empty waiting]
        exact lines.1.pos
      | cons k' rest => aesop
    · simp [contents]

theorem fresh (reading : Reading code stream prediction t base future bytes)
    {l : ForwardLineData} (first : t.getInput = some l) : t.isStale l = false := by
  rw [Fetch2Thread.getInput, InputBuffer.front_eq] at first
  obtain ⟨rest, contents⟩ := List.head?_eq_some_iff.mp first
  have lines := reading.lines
  rw [contents] at lines
  exact isStale_eq_false reading.current lines.1

theorem scheduled (cfg : Fetch2Config) (isa : StaticInsts ι)
    {predict : FetchedInst ι → Option PCState} {tid : Nat}
    (reading : Reading code stream prediction t base future bytes)
    (last : t.lastStreamSeqNum = stream) (input : t.getInput.isSome = true)
    (owned : ∀ l ∈ t.inputBuffer.contents, l.id.threadId = tid)
    (untaken : ∀ inst, inst.id.threadId = tid → predict inst = none) :
    ∃ base' bytes' new turns,
      Went code isa stream prediction future (Extraction.atFirst t : Extraction ι) bytes
        (Fetch2.extract cfg isa predict t) base' bytes' new (1 + turns) := by
  obtain ⟨l, first⟩ := Option.isSome_iff_exists.mp input
  have between : Between code stream prediction (Extraction.atFirst t : Extraction ι) base future
      bytes := ⟨reading, last, rfl, .inr rfl⟩
  obtain ⟨rest, contents⟩ := between.lineIn.contents first
  have inside : t.inputIndex < l.lineWidth :=
    reading.inside l (List.head?_eq_some_iff.mpr ⟨rest, contents⟩)
  obtain ⟨fuel, more⟩ := Fetch2.extract_turn cfg isa predict first inside
  obtain ⟨base₁, bytes₁, turned, later⟩ := between.turn cfg isa first
    fun inst same => untaken inst (same.trans (owned l (contents ▸ List.mem_cons_self)))
  have popped := Extraction.popped_turn cfg isa predict (Extraction.atFirst t) l
  obtain ⟨new, one⟩ := turned.went later
  obtain ⟨base₂, bytes₂, new', turns, rest⟩ := later.loop cfg isa untaken fuel
    fun k inside => owned k (popped.contents.subset inside)
  exact ⟨base₂, bytes₂, new ++ new', turns, more ▸ one.trans rest⟩

end Reading

namespace Starting

variable {t u : Fetch2Thread} {future : List ForwardLineData} {bytes : Nat}

theorem rebuffered (starting : Starting code stream prediction start t future bytes)
    (rebuffered : t.Rebuffered u) : Starting code stream prediction start u future bytes := by
  obtain ⟨contents, same⟩ := rebuffered
  obtain ⟨turned, current, index, lines⟩ := starting
  rw [← contents] at lines
  rw [same]
  exact ⟨turned, current, index, lines⟩

theorem receive {incoming : Option ForwardLineData}
    (starting : Starting code stream prediction start t (incoming.toList ++ future) bytes)
    (settled : t.inputBuffer.Settled) :
    Starting code stream prediction start (t.receive incoming) future bytes := by
  cases incoming with
  | none => exact starting
  | some l =>
    obtain ⟨turned, current, index, lines⟩ := starting
    have contents : (t.receive (some l)).inputBuffer.contents = t.inputBuffer.contents ++ [l] :=
      InputBuffer.contents_setTail settled l
    refine ⟨turned, current, index, ?_⟩
    rw [contents]
    simpa using lines

theorem holds (starting : Starting code stream prediction start t future bytes)
    {l : ForwardLineData} (first : t.getInput = some l) :
    l.Holds code stream prediction l.lineBaseAddr := by
  rw [Fetch2Thread.getInput, InputBuffer.front_eq] at first
  obtain ⟨rest, contents⟩ := List.head?_eq_some_iff.mp first
  have lines := starting.lines
  rw [contents] at lines
  exact lines.2.2.2.1.1

theorem scheduled (cfg : Fetch2Config) (isa : StaticInsts ι)
    {predict : FetchedInst ι → Option PCState} {tid : Nat}
    (starting : Starting code stream prediction start t future bytes)
    (input : t.getInput.isSome = true) (owned : ∀ l ∈ t.inputBuffer.contents, l.id.threadId = tid)
    (untaken : ∀ inst, inst.id.threadId = tid → predict inst = none) :
    ∃ x : Extraction ι, x.output = [] ∧ x.pc = start ∧ x.decoder.mid = false
      ∧ ∃ base' bytes' new turns, Reading.Went code isa stream prediction future x bytes
          (Fetch2.extract cfg isa predict t) base' bytes' new (1 + turns) := by
  obtain ⟨l, first⟩ := Option.isSome_iff_exists.mp input
  have holds := starting.holds first
  obtain ⟨rest, contents⟩ :=
    Extraction.AtFront.contents (x := (Extraction.atFirst t : Extraction ι)) (.inr rfl) first
  have own : l.id.threadId = tid := owned l (contents ▸ List.mem_cons_self)
  have inside : t.inputIndex < l.lineWidth := starting.index ▸ holds.pos
  obtain ⟨fuel, more⟩ := Fetch2.extract_turn cfg isa predict first inside
  have pc : l.pc = start := by
    have lines := starting.lines
    rw [contents] at lines
    exact lines.1
  have fresh := Reading.isStale_eq_false starting.current holds
  obtain ⟨base₁, bytes₁, turned, later⟩ := Reading.turn cfg
    (x := (Extraction.atFirst t : Extraction ι).onThread (·.setPC l))
    (starting.setPC contents) contents rfl first
    (fun inst same => untaken inst (same.trans own)) (starting.body holds)
  have popped := Extraction.popped_turn cfg isa predict (Extraction.atFirst t) l
  have same : (Extraction.atFirst t : Extraction ι).isStale l = false := fresh
  rw [same] at more popped
  obtain ⟨new, one⟩ := turned.went later
  obtain ⟨base₂, bytes₂, new', turns, rest⟩ := later.loop cfg isa untaken fuel
    fun k inside => owned k (popped.contents.subset inside)
  exact ⟨_, rfl, pc, rfl, base₂, bytes₂, new ++ new', turns, more ▸ one.trans rest⟩

end Starting

/-- A cycle of Fetch2, with all that is outside it. -/
structure Fetch2Cycle (ι : Type) where
  answers : Fetch2Answers ι
  inp : Option ForwardLineData
  branch : Option BranchData
  nextStageReserve : Nat → InputBuffer (ForwardInstData ι)

namespace Fetch2Cycle

/-- The state of a thread at the start of the extraction. -/
def ready (cfg : Fetch2Config) (c : Fetch2Cycle ι) (s : Fetch2) (tid : Nat) : Fetch2Thread :=
  (Fetch2.prepare cfg s c.inp c.branch c.nextStageReserve).threads tid

/-- The thread that is scheduled. -/
def turn (cfg : Fetch2Config) (c : Fetch2Cycle ι) (s : Fetch2) : Option Nat :=
  (Fetch2.prepare cfg s c.inp c.branch c.nextStageReserve).getScheduledThread
    c.answers.priorityList

/-- The cycle itself. -/
def result (cfg : Fetch2Config) (isa : StaticInsts ι) (c : Fetch2Cycle ι) (s : Fetch2) :
    Fetch2Result ι :=
  s.evaluate cfg isa c.answers c.inp c.branch c.nextStageReserve

variable {c : Fetch2Cycle ι} {s : Fetch2} {tid : Nat}

theorem ready_eq (inRange : tid < cfg.numThreads) (spares : Fetch2.Spares c.branch tid) :
    c.ready cfg s tid = ((s.threads tid).receive (Fetch2.incoming c.inp tid)).refresh
      cfg.processMoreThanOneInput !(c.nextStageReserve tid).canReserve := by
  simp [ready, Fetch2.prepare, Fetch2.threads_clearStale, inRange,
    Fetch2.threads_takeBranch _ spares, Fetch2.threads_setTail]

theorem input_of_turn (scheduled : c.turn cfg s = some tid) :
    (c.ready cfg s tid).getInput.isSome = true := by
  have found := List.find?_some scheduled
  rw [and_eq_true] at found
  exact found.1

theorem threads_result (settled : (s.threads tid).inputBuffer.Settled) :
    (c.result cfg isa s).fetch2.threads tid
      = (if c.turn cfg s = some tid then
          (Fetch2.extract cfg isa c.answers.predict (c.ready cfg s tid)).toFetch2Thread
        else c.ready cfg s tid).pushTail := by
  have work := Fetch2.threads_work cfg isa c.answers
    (Fetch2.prepare cfg s c.inp c.branch c.nextStageReserve) c.nextStageReserve tid
  have popped := Fetch2.popped_worked cfg isa c.answers c.inp c.branch s
    c.nextStageReserve tid
  change ((Fetch2.work cfg isa c.answers _ _).fetch2.pushTail c.inp).threads tid = _
  rw [Fetch2.threads_pushTail]
  · exact congrArg Fetch2Thread.pushTail work
  · intro none
    rw [none] at popped
    exact settled.popped popped

theorem output_result :
    Fetch2.outputOf (c.result cfg isa s).out tid
      = if c.turn cfg s = some tid then
          (Fetch2.extract cfg isa c.answers.predict (c.ready cfg s tid)).output
        else [] :=
  Fetch2.outputOf_work c.answers _ c.nextStageReserve tid

end Fetch2Cycle

/-- How far a thread has come. -/
inductive Progress (code : Code) (isa : StaticInsts ι) (stream prediction : Nat) (start : PCState)
    (total : Nat) (t : Fetch2Thread) (future : List ForwardLineData) (out : List (FetchedInst ι))
    (scheduled : Nat) : Prop where
  | starting (phase : Starting code stream prediction start t future total) (nothing : out = [])
      (never : scheduled = 0)
  | reading {base : Addr} {bytes : Nat} (phase : Reading code stream prediction t base future bytes)
      (last : t.lastStreamSeqNum = stream)
      (parse : (code.insts start total).map (decodedAs isa)
        = out.map FetchedInst.shown ++ (code.insts t.pc bytes).map (decodedAs isa))
      (left : Reading.left t bytes + 2 * scheduled ≤ total)

namespace Progress

variable {total scheduled : Nat} {t u : Fetch2Thread} {future : List ForwardLineData}
  {out : List (FetchedInst ι)}

theorem rebuffered (phase : Progress code isa stream prediction start total t future out scheduled)
    (rebuffered : t.Rebuffered u) :
    Progress code isa stream prediction start total u future out scheduled := by
  cases phase with
  | starting phase nothing never => exact .starting (phase.rebuffered rebuffered) nothing never
  | reading phase last parse left =>
    have same := rebuffered.same
    refine .reading (phase.rebuffered rebuffered) ?_ ?_ ?_
    · rw [same]
      exact last
    · rw [same]
      exact parse
    · rw [same]
      exact left

theorem receive {incoming : Option ForwardLineData} (phase : Progress code isa stream prediction
    start total t (incoming.toList ++ future) out scheduled) (settled : t.inputBuffer.Settled) :
    Progress code isa stream prediction start total (t.receive incoming) future out scheduled := by
  cases phase with
  | starting phase nothing never => exact .starting (phase.receive settled) nothing never
  | reading phase last parse left => exact .reading (phase.receive settled) last parse left

theorem fresh (phase : Progress code isa stream prediction start total t future out scheduled)
    (l : ForwardLineData) (first : t.getInput = some l) : t.isStale l = false := by
  cases phase with
  | starting phase _ _ => exact Reading.isStale_eq_false phase.current (phase.holds first)
  | reading phase _ _ _ => exact phase.fresh first

theorem extract (cfg : Fetch2Config) {predict : FetchedInst ι → Option PCState} {tid : Nat}
    (phase : Progress code isa stream prediction start total t future out scheduled)
    (input : t.getInput.isSome = true) (owned : ∀ l ∈ t.inputBuffer.contents, l.id.threadId = tid)
    (untaken : ∀ inst, inst.id.threadId = tid → predict inst = none) :
    Progress code isa stream prediction start total (Fetch2.extract cfg isa predict t).toFetch2Thread
      future (out ++ (Fetch2.extract cfg isa predict t).output) (scheduled + 1) := by
  cases phase with
  | starting phase nothing never =>
    obtain ⟨x, none, pc, whole, base', bytes', new, turns, went⟩ :=
      phase.scheduled cfg isa input owned untaken
    have output := went.output
    have parse := went.parse
    have left := went.left
    refine .reading went.between.reading went.between.lastStreamSeqNum ?_ ?_
    · grind
    · grind [Reading.left]
  | reading phase last parse left =>
    obtain ⟨base', bytes', new, turns, went⟩ := phase.scheduled cfg isa last input owned untaken
    have output := went.output
    have parse' := went.parse
    have left' : Reading.left _ bytes' + 2 * (1 + turns) ≤ Reading.left t _ := went.left
    refine .reading went.between.reading went.between.lastStreamSeqNum ?_ ?_
    · rw [parse, output, parse', map_append, List.append_assoc, nil_append]
    · omega

end Progress

/-- A thread, the lines still to come to it, what it has put out and how often it was
scheduled. -/
structure Fed (code : Code) (isa : StaticInsts ι) (stream prediction : Nat) (start : PCState)
    (total tid : Nat) (t : Fetch2Thread) (future : List ForwardLineData)
    (out : List (FetchedInst ι)) (scheduled : Nat) : Prop where
  settled : t.inputBuffer.Settled
  owned : ∀ l ∈ t.inputBuffer.contents, l.id.threadId = tid
  phase : Progress code isa stream prediction start total t future out scheduled

theorem Fed.cycle {total tid scheduled : Nat} {s : Fetch2} {future : List ForwardLineData}
    {out : List (FetchedInst ι)} (c : Fetch2Cycle ι) (inRange : tid < cfg.numThreads)
    (spares : Fetch2.Spares c.branch tid)
    (untaken : ∀ inst, inst.id.threadId = tid → c.answers.predict inst = none) (fed : Fed code isa
    stream prediction start total tid (s.threads tid) ((Fetch2.incoming c.inp tid).toList ++ future)
    out scheduled) :
    Fed code isa stream prediction start total tid ((c.result cfg isa s).fetch2.threads tid)
      future (out ++ Fetch2.outputOf (c.result cfg isa s).out tid)
      (scheduled + if c.turn cfg s = some tid then 1 else 0) := by
  obtain ⟨settled, owned, phase⟩ := fed
  have served := Fetch2.evaluate_served cfg isa c.answers c.inp c.branch s
    c.nextStageReserve tid settled
  have ours : ∀ l ∈ (s.threads tid).inputBuffer.contents ++ (Fetch2.incoming c.inp tid).toList,
      l.id.threadId = tid := by
    intro l inside
    rcases List.mem_append.mp inside with old | new
    · exact owned l old
    · exact of_decide_eq_true (Option.filter_eq_some_iff.mp (Option.mem_toList.mp new)).2
  refine ⟨served.settled, fun l inside => ours l (served.contents.subset inside), ?_⟩
  have received := phase.receive settled
  have serving := settled.receive (Fetch2.incoming c.inp tid)
  have ready : Progress code isa stream prediction start total (c.ready cfg s tid) future out
      scheduled := by
    rw [Fetch2Cycle.ready_eq inRange spares]
    exact received.rebuffered (Fetch2Thread.rebuffered_refresh _ _ received.fresh)
  have popped : Popped ((s.threads tid).inputBuffer.receive (Fetch2.incoming c.inp tid))
      (c.ready cfg s tid).inputBuffer := by
    rw [Fetch2Cycle.ready_eq inRange spares]
    exact Fetch2Thread.popped_refresh _ ((s.threads tid).receive _) _
  have serving' := serving.popped popped
  rw [Fetch2Cycle.threads_result settled, Fetch2Cycle.output_result]
  by_cases turn : c.turn cfg s = some tid
  · simp only [turn]
    have extracted := ready.extract cfg (Fetch2Cycle.input_of_turn turn)
      (fun l inside => ours l (serving'.contents.subset inside)) untaken
    exact extracted.rebuffered
      (Fetch2Thread.rebuffered_pushTail (serving'.popped (Fetch2.popped_extract _ _)).ordered)
  · simp only [turn, if_false, append_nil]
    exact ready.rebuffered (Fetch2Thread.rebuffered_pushTail serving'.ordered)

/-- Cycles of Fetch2 one after another. -/
def Fetch2.run (cfg : Fetch2Config) (isa : StaticInsts ι) (s : Fetch2) :
    List (Fetch2Cycle ι) → Fetch2
  | [] => s
  | c :: rest => Fetch2.run cfg isa (c.result cfg isa s).fetch2 rest

/-- What a thread puts out in a run. -/
def Fetch2.outputs (cfg : Fetch2Config) (isa : StaticInsts ι) (tid : Nat) (s : Fetch2) :
    List (Fetch2Cycle ι) → List (FetchedInst ι)
  | [] => []
  | c :: rest => Fetch2.outputOf (c.result cfg isa s).out tid
      ++ Fetch2.outputs cfg isa tid (c.result cfg isa s).fetch2 rest

/-- How often a thread is scheduled in a run. -/
def Fetch2.turns (cfg : Fetch2Config) (isa : StaticInsts ι) (tid : Nat) (s : Fetch2) :
    List (Fetch2Cycle ι) → Nat
  | [] => 0
  | c :: rest => (if c.turn cfg s = some tid then 1 else 0)
      + Fetch2.turns cfg isa tid (c.result cfg isa s).fetch2 rest

/-- The lines that come to a thread in a run. -/
def Fetch2Cycle.lines (tid : Nat) (cycles : List (Fetch2Cycle ι)) : List ForwardLineData :=
  cycles.flatMap fun c => (Fetch2.incoming c.inp tid).toList

/-- A cycle without a change of stream for the thread and without a taken prediction. -/
structure Fetch2Cycle.Straight (tid : Nat) (c : Fetch2Cycle ι) : Prop where
  spares : Fetch2.Spares c.branch tid
  untaken : ∀ inst, inst.id.threadId = tid → c.answers.predict inst = none

theorem Fed.run {total tid scheduled : Nat} {s : Fetch2} {out : List (FetchedInst ι)}
    (cycles : List (Fetch2Cycle ι)) (inRange : tid < cfg.numThreads)
    (straight : ∀ c ∈ cycles, c.Straight tid) (fed : Fed code isa stream prediction start total tid
    (s.threads tid) (Fetch2Cycle.lines tid cycles) out scheduled) :
    Fed code isa stream prediction start total tid ((s.run cfg isa cycles).threads tid) []
      (out ++ s.outputs cfg isa tid cycles) (scheduled + s.turns cfg isa tid cycles) := by
  induction cycles generalizing s out scheduled with
  | nil => simpa [Fetch2.run, Fetch2.outputs, Fetch2.turns, Fetch2Cycle.lines] using fed
  | cons c rest ih =>
    have first := straight c List.mem_cons_self
    have step := Fed.cycle c inRange first.spares first.untaken fed
    have later := ih (fun c' inside => straight c' (List.mem_cons_of_mem c inside)) step
    simp only [Fetch2.outputs, Fetch2.turns, ← List.append_assoc, ← Nat.add_assoc]
    exact later

theorem Reading.done {t : Fetch2Thread} {base : Addr} {bytes : Nat}
    (reading : Reading code stream prediction t base [] bytes)
    (empty : t.inputBuffer.contents = []) : code.insts t.pc bytes = [] := by
  have count := reading.count
  simp only [empty, append_nil, widths_nil] at count
  have size := code.size_cases t.pc.pc
  cases reading.inStep with
  | fresh mid _ _ =>
    simp only [Decoder.seen, mid, false_eq_true, if_false] at count
    exact Code.insts_of_short (by omega)
  | middle mid _ half long _ _ =>
    simp only [Decoder.seen, mid, if_true] at count
    have long : code.size t.pc.pc = 4 := by simp [Code.size, ← half, long]
    exact Code.insts_of_short (by omega)

/-- A thread of which no line is left over, before the lines of a stream. -/
structure Fetch2Thread.Waiting (stream prediction : Nat) (t : Fetch2Thread) : Prop where
  settled : t.inputBuffer.Settled
  empty : t.inputBuffer.contents = []
  turned : t.havePC = false ∨ t.lastStreamSeqNum ≠ stream
  current : t.expectedStreamSeqNum = stream → t.predictionSeqNum = prediction
  index : t.inputIndex = 0

/-- A thread puts out the reference parse of its lines in order; no instruction is held
back once its lines are used up, and each time it is scheduled two bytes of code at least are
used. -/
theorem Fetch2.run_parse (s : Fetch2) (cycles : List (Fetch2Cycle ι)) {tid total : Nat}
    (inRange : tid < cfg.numThreads) (waiting : (s.threads tid).Waiting stream prediction)
    (straight : ∀ c ∈ cycles, c.Straight tid)
    (cut : Cut code stream prediction start total (Fetch2Cycle.lines tid cycles)) :
    (s.outputs cfg isa tid cycles).map FetchedInst.shown
        <+: (code.insts start total).map (decodedAs isa)
      ∧ (((s.run cfg isa cycles).threads tid).inputBuffer.contents = [] →
        (s.outputs cfg isa tid cycles).map FetchedInst.shown
          = (code.insts start total).map (decodedAs isa))
      ∧ 2 * s.turns cfg isa tid cycles ≤ total := by
  obtain ⟨settled, empty, turned, current, index⟩ := waiting
  have fed : Fed code isa stream prediction start total tid (s.threads tid)
      (Fetch2Cycle.lines tid cycles) [] 0 := by
    refine ⟨settled, ?_, .starting ⟨turned, current, index, ?_⟩ rfl rfl⟩
    · simp [empty]
    · rw [empty]
      exact cut
  have phase := (fed.run cycles inRange straight).phase
  rw [nil_append, Nat.zero_add] at phase
  cases phase with
  | starting phase nothing never =>
    rw [nothing, never]
    refine ⟨ nil_prefix, fun empty => ?_, Nat.zero_le _⟩
    have none := phase.lines
    rw [empty] at none
    have zero : total = 0 := none
    simp [zero, Code.insts, Code.parse]
  | reading phase last parse left =>
    refine ⟨parse ▸ prefix_append _ _, fun empty => ?_, by omega⟩
    rw [parse, phase.done empty, map_nil, append_nil]

end Gem5.Minor
