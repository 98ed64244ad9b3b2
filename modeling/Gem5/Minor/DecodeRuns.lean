import Gem5.Lib.Runs
import Gem5.Minor.Expansion

/-!
# Runs of Decode

A run remembers the packets that came in and those that went out. In every cycle the
environment chooses the input, the priorities of the threads and the state of the buffers
of the next stage.
-/

namespace Gem5.Minor

open List Function Option

variable {ι : Type}

/-- What is outside Decode in one call of `evaluate`. -/
structure DecodeCycle (ι : Type) where
  priorityList : List Nat
  inp : Option (ForwardInstData ι)
  nextStageReserve : Nat → InputBuffer (ForwardInstData ι)

/-- The packet that comes in, unless the wire carries a bubble. -/
def DecodeCycle.packet (c : DecodeCycle ι) : Option (ForwardInstData ι) :=
  c.inp.filter (!·.isBubble)

structure DecodeRun (ι : Type) where
  decode : Decode ι
  received : List (ForwardInstData ι) := []
  sent : List (ForwardInstData ι) := []

namespace DecodeRun

/-- The constructor of Decode. -/
def start (decodeInputBufferSize : Nat) : DecodeRun ι :=
  { decode := { threads := fun _ => { inputBuffer := ⟨⟨decodeInputBufferSize, [], 0, 0, 0⟩, none⟩ } } }

def cycle (cfg : DecodeConfig) (isa : StaticInsts ι) (r : DecodeRun ι) (c : DecodeCycle ι) :
    Option (DecodeRun ι) :=
  (r.decode.evaluate cfg isa c.priorityList c.inp c.nextStageReserve).map fun result =>
    { decode := result.decode
      received := r.received ++ c.packet.toList
      sent := r.sent ++ result.out.toList }

end DecodeRun

/-- The slots that the packets of a thread have, in order. -/
def slotsOf (tid : Nat) (packets : List (ForwardInstData ι)) : List (Option (FetchedInst ι)) :=
  (packets.filter (·.threadId == tid)).flatMap (·.insts)

/-- The instructions of a thread, in order. -/
def instsOf (tid : Nat) (packets : List (ForwardInstData ι)) : List (FetchedInst ι) :=
  (slotsOf tid packets).filterMap id

/-- Decode as it chooses the thread to work for. -/
def Decode.waiting (cfg : DecodeConfig) (s : Decode ι) (c : DecodeCycle ι) : Decode ι :=
  (s.setTail c.packet).noteBlocked cfg c.nextStageReserve

/-- The input of a cycle is as Fetch2 makes it. -/
def DecodeCycle.Sound (isa : StaticInsts ι) (c : DecodeCycle ι) : Prop :=
  ∀ d, c.packet = some d → ∀ x, some x ∈ d.insts → x.Sound isa

/-- The instruction that comes out first, if one does, is not a fault. -/
def Decode.StartsPlain (cfg : DecodeConfig) (s : Decode ι) (c : DecodeCycle ι) : Prop :=
  ∀ tid, (s.waiting cfg c).getScheduledThread c.priorityList = some tid →
    ∀ x, ((s.waiting cfg c).threads tid).nextInst cfg = some x → x.staticInst.isSome = true

section Cycle

variable {cfg : DecodeConfig} {isa : StaticInsts ι} {t : DecodeThread ι} {s : Decode ι}
  {c : DecodeCycle ι} {rest : List (FetchedInst ι)} {d : ForwardInstData ι} {tid : Nat}

theorem slotsOf_append (a b : List (ForwardInstData ι)) :
    slotsOf tid (a ++ b) = slotsOf tid a ++ slotsOf tid b := by
  simp [slotsOf]

theorem instsOf_append (a b : List (ForwardInstData ι)) :
    instsOf tid (a ++ b) = instsOf tid a ++ instsOf tid b := by
  simp [instsOf, slotsOf_append]

/-- The packet of a cycle for one thread. -/
def DecodeCycle.packetFor (c : DecodeCycle ι) (tid : Nat) : Option (ForwardInstData ι) :=
  c.packet.filter (·.threadId == tid)

theorem slotsOf_packet : slotsOf tid c.packet.toList
    = (c.packetFor tid).toList.flatMap (·.insts) := by
  unfold DecodeCycle.packetFor
  cases c.packet with
  | none => rfl
  | some d => by_cases mine : d.threadId = tid <;> simp [slotsOf, mine, filter_some]

variable (cfg s c tid) in
theorem Decode.waiting_thread : ∃ blocked, (s.waiting cfg c).threads tid
    = { s.threads tid with
        inputBuffer := (s.threads tid).inputBuffer.receive (c.packetFor tid)
        blocked := blocked } := by
  have tail : (s.setTail c.packet).threads tid = { s.threads tid with
      inputBuffer := (s.threads tid).inputBuffer.receive (c.packetFor tid) } := by
    unfold DecodeCycle.packetFor
    cases c.packet with
    | none => rfl
    | some d =>
      by_cases mine : d.threadId = tid
      · simp [Decode.setTail, Decode.updateThread, InputBuffer.receive, mine, filter_some]
      · have other : tid ≠ d.threadId := fun eq => mine eq.symm
        simp [Decode.setTail, Decode.updateThread, InputBuffer.receive, mine, other,
          filter_some]
  simp only [Decode.waiting, Decode.noteBlocked]
  split
  · exact ⟨_, by rw [tail]⟩
  · exact ⟨_, tail⟩

theorem DecodeThread.Ready.setTail (h : t.Ready isa rest) (settled : t.inputBuffer.Settled)
    (filled : d.isBubble = false) (sound : ∀ x, some x ∈ d.insts → x.Sound isa) :
    ({ t with inputBuffer := t.inputBuffer.setTail d } : DecodeThread ι).Ready isa
      (rest ++ expandAll isa d.insts) := by
  have contents := InputBuffer.contents_setTail settled d
  have inside : t.inputIndex ≤ (t.inputBuffer.contents.flatMap (·.insts)).length := by
    have within := h.within
    rw [DecodeThread.Within] at within
    cases have_ : t.inputBuffer.contents with
    | nil => grind
    | cons e inputs => grind
  have slots : ({ t with inputBuffer := t.inputBuffer.setTail d } : DecodeThread ι).slots
      = t.slots ++ d.insts := by
    simp only [DecodeThread.slots, contents, flatMap_append, flatMap_singleton]
    exact drop_append_of_le_length inside
  refine ⟨?_, ?_, ?_⟩
  · rw [slots]
    refine ⟨?_, fun outside => ?_, fun within => ?_⟩
    · intro x mem
      rcases List.mem_append.mp mem with old | new
      · exact h.pending.sound x old
      · exact sound x new
    · rw [expandAll_append, h.pending.outside outside]
    · obtain ⟨x, si, later, k, front, macroop, le, at_, queue⟩ := h.pending.inside within
      refine ⟨x, si, later ++ d.insts, k, ?_, macroop, le, at_, ?_⟩
      · rw [front, List.cons_append]
      · rw [queue, expandAll_append, List.append_assoc]
  · intro e mem
    rw [contents] at mem
    rcases List.mem_append.mp mem with old | new
    · exact h.filled e old
    · rwa [List.mem_singleton.mp new]
  · rw [DecodeThread.Within]
    dsimp only
    have within := h.within
    rw [DecodeThread.Within] at within
    cases have_ : t.inputBuffer.contents with
    | nil => grind [length_pos_of_ne_nil, ForwardInstData.ne_nil_of_filled]
    | cons e inputs => grind

theorem DecodeThread.Ready.receive (h : t.Ready isa rest) (settled : t.inputBuffer.Settled)
    (sound : c.Sound isa) (blocked : Bool) :
    ({ t with
      inputBuffer := t.inputBuffer.receive (c.packetFor tid)
      blocked := blocked } : DecodeThread ι).Ready isa
      (rest ++ expandAll isa (slotsOf tid c.packet.toList)) := by
  have keep : ∀ {u : DecodeThread ι} {rest}, u.Ready isa rest →
      ({ u with blocked := blocked } : DecodeThread ι).Ready isa rest :=
    fun ready => ⟨ready.pending.congr rfl rfl, ready.filled, ready.within⟩
  rw [slotsOf_packet]
  cases packet : c.packetFor tid with
  | none =>
    exact keep ((append_nil rest).symm ▸ h)
  | some d =>
    have got := (Option.filter_eq_some_iff.mp packet).1
    have filled := (Option.filter_eq_some_iff.mp got).2
    rw [toList_some, flatMap_singleton]
    exact keep (h.setTail settled (by simpa using filled) (sound d got))

/-- What a thread still has to put out continues what it has put out. -/
structure Streaming (isa : StaticInsts ι) (t : DecodeThread ι)
    (received : List (Option (FetchedInst ι))) (sent rest : List (FetchedInst ι)) : Prop where
  ready : t.Ready isa rest
  count : t.execSeqNum = InstId.firstExecSeqNum + sent.length
  stream : sent ++ numbered t.execSeqNum rest
    = numbered InstId.firstExecSeqNum (expandAll isa received)

variable {received : List (Option (FetchedInst ι))} {sent : List (FetchedInst ι)}

variable (cfg) in
theorem Streaming.receive (h : Streaming isa (s.threads tid) received sent rest)
    (settled : (s.threads tid).inputBuffer.Settled) (sound : c.Sound isa) :
    Streaming isa ((s.waiting cfg c).threads tid) (received ++ slotsOf tid c.packet.toList) sent
      (rest ++ expandAll isa (slotsOf tid c.packet.toList)) := by
  obtain ⟨blocked, eq⟩ := Decode.waiting_thread cfg s c tid
  rw [eq]
  refine ⟨h.ready.receive settled sound blocked, h.count, ?_⟩
  change sent ++ numbered (s.threads tid).execSeqNum _ = _
  have length : sent.length + rest.length = (expandAll isa received).length := by
    have all := congrArg List.length h.stream
    rwa [length_append, numbered_length, numbered_length] at all
  rw [numbered_append, ← List.append_assoc, h.stream, expandAll_append, numbered_append, h.count,
    Nat.add_assoc, length]

theorem Streaming.pack {x : Decomposition ι} {m : Nat} (h : Streaming isa t received sent rest)
    (packed : Packed cfg isa t rest m x) :
    Streaming isa x.toDecodeThread received (sent ++ x.output) (rest.drop m) := by
  refine ⟨packed.ready h.ready, ?_, ?_⟩
  · rw [packed.execSeqNum, h.count, length_append, packed.output_length, Nat.add_assoc]
  · rw [← h.stream, packed.output, packed.execSeqNum, List.append_assoc]
    congr 1
    have whole := numbered_append t.execSeqNum (rest.take m) (rest.drop m)
    rw [take_append_drop, length_take, Nat.min_eq_left packed.le] at whole
    exact whole.symm

theorem Streaming.pushTail (h : Streaming isa t received sent rest)
    (ordered : t.inputBuffer.Ordered) :
    Streaming isa { t with inputBuffer := t.inputBuffer.pushTail } received sent rest := by
  have contents := ordered.contents_pushTail
  obtain ⟨⟨pending, filled, within⟩, count, stream⟩ := h
  refine ⟨⟨?_, ?_, ?_⟩, count, stream⟩
  · rw [DecodeThread.slots, contents]
    exact pending.congr rfl rfl
  · rw [contents]
    exact filled
  · rw [DecodeThread.Within, contents]
    exact within

theorem instsOf_pack (width tid other : Nat) (output : List (FetchedInst ι)) :
    instsOf tid (ForwardInstData.pack width other output).toList
      = if tid = other then output else [] := by
  by_cases mine : tid = other
  · cases output with
    | nil => simp [ForwardInstData.pack, instsOf, slotsOf]
    | cons =>
      simp [ForwardInstData.pack, instsOf, slotsOf, mine]
  · grind [ForwardInstData.pack, instsOf, slotsOf]

variable (cfg) in
/-- Either no thread is scheduled, or the packing loop runs for one and gets on, and only
the output decides whether there is a result. -/
theorem Decode.work_spec {rests : Nat → List (FetchedInst ι)} (priorityList : List Nat)
    (ready : ∀ tid, (s.threads tid).Ready isa (rests tid))
    (nextStageReserve : Nat → InputBuffer (ForwardInstData ι)) :
    s.getScheduledThread priorityList = none
        ∧ s.work cfg isa priorityList nextStageReserve = some ⟨s, nextStageReserve, none⟩
      ∨ ∃ tid x m, s.getScheduledThread priorityList = some tid
        ∧ Packed cfg isa (s.threads tid) (rests tid) m x
        ∧ (m ≠ 0 ∨ x.inputBuffer.contents.length < (s.threads tid).inputBuffer.contents.length)
        ∧ s.work cfg isa priorityList nextStageReserve
          = if Decode.canOutput cfg x.output then
              some
                { decode :=
                    { s.updateThread tid fun _ => x.toDecodeThread with threadPriority := tid }
                  nextStageReserve :=
                    if x.output.isEmpty then nextStageReserve
                    else Function.update nextStageReserve tid (nextStageReserve tid).reserve
                  out := ForwardInstData.pack cfg.outputWidth tid x.output }
            else none := by
  cases scheduled : s.getScheduledThread priorityList with
  | none => exact Or.inl ⟨rfl, by rw [Decode.work, scheduled]⟩
  | some tid =>
    have found := List.find?_some scheduled
    simp only [Bool.and_eq_true] at found
    obtain ⟨x, m, pack, packed, progress⟩ := (ready tid).pack cfg found.1
    refine Or.inr ⟨tid, x, m, rfl, packed, progress, ?_⟩
    rw [Decode.work, scheduled]
    change (Decode.pack cfg isa (s.threads tid)).bind _ = _
    rw [pack]
    rfl

end Cycle

/-- Every thread of the run is in order between two cycles. -/
structure DecodeRun.Inv (isa : StaticInsts ι) (r : DecodeRun ι) : Prop where
  settled : ∀ tid, (r.decode.threads tid).inputBuffer.Settled
  streams : ∀ tid, ∃ rest, Streaming isa (r.decode.threads tid) (slotsOf tid r.received)
    (instsOf tid r.sent) rest

namespace DecodeRun

variable {cfg : DecodeConfig} {isa : StaticInsts ι} {r r' : DecodeRun ι} {c : DecodeCycle ι}

theorem Inv.start (size : Nat) : Inv isa (.start size : DecodeRun ι) where
  settled := fun _ => rfl
  streams := fun _ => by
    refine ⟨[], ⟨⟨?_, ?_, rfl⟩, rfl, rfl⟩⟩
    · exact ⟨by simp [DecodeRun.start, DecodeThread.slots, InputBuffer.contents], fun _ => rfl,
        by simp [DecodeRun.start]⟩
    · simp [DecodeRun.start, InputBuffer.contents]

theorem cycle_eq : r.cycle cfg isa c
    = ((r.decode.waiting cfg c).work cfg isa c.priorityList c.nextStageReserve).map fun result =>
      { decode := result.decode.pushTail c.packet
        received := r.received ++ c.packet.toList
        sent := r.sent ++ result.out.toList } := by
  exact Option.map_map ..

theorem pushTail_thread {s : Decode ι} {tid : Nat}
    (settled : c.packetFor tid = none → (s.threads tid).inputBuffer.Settled) :
    (s.pushTail c.packet).threads tid
      = { s.threads tid with inputBuffer := (s.threads tid).inputBuffer.pushTail } := by
  unfold DecodeCycle.packetFor at settled
  cases packet : c.packet with
  | none =>
    rw [packet] at settled
    rw [(settled rfl).pushTail_eq]
    rfl
  | some d =>
    by_cases mine : d.threadId = tid
    · simp [Decode.pushTail, Decode.updateThread, mine]
    · have other : tid ≠ d.threadId := fun eq => mine eq.symm
      rw [packet, filter_some, if_neg (by simpa using mine)] at settled
      rw [(settled rfl).pushTail_eq]
      simp [Decode.pushTail, Decode.updateThread, other]

theorem Inv.pushTail {s : Decode ι} {tid : Nat} (inv : Inv isa r)
    (popped : InputBuffer.Popped
      ((r.decode.threads tid).inputBuffer.receive (c.packetFor tid)) (s.threads tid).inputBuffer) :
    (s.pushTail c.packet).threads tid
        = { s.threads tid with inputBuffer := (s.threads tid).inputBuffer.pushTail }
      ∧ (s.threads tid).inputBuffer.Ordered := by
  refine ⟨pushTail_thread fun none => ?_, ?_⟩
  · rw [none] at popped
    exact InputBuffer.Settled.popped (inv.settled tid) popped
  · exact (((inv.settled tid).receive (c.packetFor tid)).popped popped).ordered

theorem Inv.finish {s : Decode ι} {out : List (ForwardInstData ι)} (inv : Inv isa r) (popped : ∀
    tid, InputBuffer.Popped ((r.decode.threads tid).inputBuffer.receive (c.packetFor tid))
    (s.threads tid).inputBuffer) (streams : ∀ tid, ∃ rest, Streaming isa (s.threads tid) (slotsOf
    tid r.received ++ slotsOf tid c.packet.toList) (instsOf tid r.sent ++ instsOf tid out) rest) :
    Inv isa ⟨s.pushTail c.packet, r.received ++ c.packet.toList, r.sent ++ out⟩ := by
  constructor
  · intro tid
    rw [(inv.pushTail (popped tid)).1]
    exact InputBuffer.settled_pushTail _
  · intro tid
    obtain ⟨rest, streaming⟩ := streams tid
    obtain ⟨thread, ordered⟩ := inv.pushTail (popped tid)
    refine ⟨rest, ?_⟩
    rw [thread, slotsOf_append, instsOf_append]
    exact streaming.pushTail ordered

variable (cfg) in
theorem waiting_buffer {s : Decode ι} (tid : Nat) : ((s.waiting cfg c).threads tid).inputBuffer
    = (s.threads tid).inputBuffer.receive (c.packetFor tid) := by
  obtain ⟨blocked, eq⟩ := Decode.waiting_thread cfg s c tid
  rw [eq]

theorem Inv.cycle_cases (inv : Inv isa r) (sound : c.Sound isa)
    (eq : r.cycle cfg isa c = some r') :
    ∃ rests : Nat → List (FetchedInst ι),
      (∀ tid, Streaming isa ((r.decode.waiting cfg c).threads tid)
        (slotsOf tid r.received ++ slotsOf tid c.packet.toList) (instsOf tid r.sent) (rests tid))
      ∧ ((r.decode.waiting cfg c).getScheduledThread c.priorityList = none
          ∧ r' = ⟨(r.decode.waiting cfg c).pushTail c.packet, r.received ++ c.packet.toList,
              r.sent ++ []⟩
        ∨ ∃ tid x m, (r.decode.waiting cfg c).getScheduledThread c.priorityList = some tid
          ∧ Packed cfg isa ((r.decode.waiting cfg c).threads tid) (rests tid) m x
          ∧ (m ≠ 0 ∨ x.inputBuffer.contents.length
            < ((r.decode.waiting cfg c).threads tid).inputBuffer.contents.length)
          ∧ r' = ⟨({ (r.decode.waiting cfg c).updateThread tid fun _ => x.toDecodeThread with
                threadPriority := tid } : Decode ι).pushTail c.packet,
              r.received ++ c.packet.toList,
              r.sent ++ (ForwardInstData.pack cfg.outputWidth tid x.output).toList⟩) := by
  choose rests streaming using inv.streams
  have waiting := fun tid => (streaming tid).receive cfg (inv.settled tid) sound
  refine ⟨_, waiting, ?_⟩
  rw [cycle_eq] at eq
  rcases Decode.work_spec cfg c.priorityList (fun tid => (waiting tid).ready) c.nextStageReserve
    with ⟨none, idle⟩ | ⟨tid, x, m, scheduled, packed, progress, busy⟩
  · grind
  · grind

theorem Inv.cycle (inv : Inv isa r) (sound : c.Sound isa) (eq : r.cycle cfg isa c = some r') :
    Inv isa r' := by
  obtain ⟨rests, waiting, cases_⟩ := inv.cycle_cases sound eq
  rcases cases_ with ⟨-, rfl⟩ | ⟨tid, x, m, -, packed, -, rfl⟩
  · refine inv.finish (fun tid => ?_) fun tid => ⟨rests tid, ?_⟩
    · rw [waiting_buffer cfg tid]
      exact .refl
    · rw [show instsOf tid ([] : List (ForwardInstData ι)) = [] from rfl, append_nil]
      exact waiting tid
  · refine inv.finish (fun other => ?_) fun other => ?_
    · rw [← waiting_buffer cfg other]
      by_cases mine : other = tid
      · subst mine
        simpa [Decode.updateThread] using packed.popped
      · simp only [Decode.updateThread, update_of_ne mine]
        exact .refl
    · rw [instsOf_pack]
      by_cases mine : other = tid
      · subst mine
        refine ⟨(rests other).drop m, ?_⟩
        simpa [Decode.updateThread] using (waiting other).pack packed
      · refine ⟨rests other, ?_⟩
        simp only [Decode.updateThread, update_of_ne mine, if_neg mine, append_nil]
        exact waiting other

theorem Inv.cycle_isSome (inv : Inv isa r) (sound : c.Sound isa)
    (fits : cfg.outputWidth < maxForwardInsts) (plain : r.decode.StartsPlain cfg c) :
    (r.cycle cfg isa c).isSome = true := by
  choose rests streaming using inv.streams
  have waiting := fun tid => (streaming tid).receive cfg (inv.settled tid) sound
  rw [cycle_eq, isSome_map]
  rcases Decode.work_spec cfg c.priorityList (fun tid => (waiting tid).ready) c.nextStageReserve
    with ⟨-, idle⟩ | ⟨tid, x, m, scheduled, packed, -, busy⟩
  · rw [idle]
    rfl
  · rw [busy, if_pos]
    · rfl
    · cases output : x.output with
      | nil => rfl
      | cons out outs =>
        obtain ⟨z, next, static⟩ := packed.first out (by rw [output]; rfl)
        simp [Decode.canOutput, fits, static (plain tid scheduled z next)]

theorem Inv.cycle_progress (inv : Inv isa r) (sound : c.Sound isa)
    (eq : r.cycle cfg isa c = some r') {tid : Nat}
    (scheduled : (r.decode.waiting cfg c).getScheduledThread c.priorityList = some tid) :
    (instsOf tid r.sent).length < (instsOf tid r'.sent).length
      ∨ (r'.decode.threads tid).inputBuffer.contents.length
        < ((r.decode.waiting cfg c).threads tid).inputBuffer.contents.length := by
  obtain ⟨rests, -, cases_⟩ := inv.cycle_cases sound eq
  rcases cases_ with ⟨none, -⟩ | ⟨other, x, m, busy, packed, progress, rfl⟩
  · rw [scheduled] at none
    cases none
  · obtain rfl : tid = other := Option.some.inj (scheduled.symm.trans busy)
    rcases progress with some_ | shorter
    · grind [instsOf_append, instsOf_pack, packed.output_length]
    · right
      let s : Decode ι := { (r.decode.waiting cfg c).updateThread tid fun _ => x.toDecodeThread with
        threadPriority := tid }
      have here : s.threads tid = x.toDecodeThread := by simp [s, Decode.updateThread]
      have popped := packed.popped
      rw [waiting_buffer cfg, ← here] at popped
      obtain ⟨thread, ordered⟩ := inv.pushTail (s := s) popped
      rw [thread, ordered.contents_pushTail, here]
      exact shorter

/-- The cycles that Fetch2 may offer, other than those whose output starts with a fault. -/
def Offered (cfg : DecodeConfig) (isa : StaticInsts ι) (r : DecodeRun ι) (c : DecodeCycle ι) :
    Prop :=
  c.Sound isa ∧ r.decode.StartsPlain cfg c

/-- For each thread, what has come out is the beginning of the numbered expansion of what
has come in, and all of it once the input buffer is empty. Every cycle has a result, and
the thread that it works for gets on. -/
theorem decode_expands (fits : cfg.outputWidth < maxForwardInsts) {decodeInputBufferSize : Nat}
    (run : Runs.Leads (cycle cfg isa) (Offered cfg isa) (.start decodeInputBufferSize) r) :
    (∀ tid, ∃ rest, instsOf tid r.sent ++ rest
          = numbered InstId.firstExecSeqNum (expandAll isa (slotsOf tid r.received))
        ∧ ((r.decode.threads tid).inputBuffer.contents = [] → rest = []))
      ∧ ∀ c, Offered cfg isa r c → ∃ r', r.cycle cfg isa c = some r'
        ∧ ∀ tid, (r.decode.waiting cfg c).getScheduledThread c.priorityList = some tid →
          (instsOf tid r.sent).length < (instsOf tid r'.sent).length
            ∨ (r'.decode.threads tid).inputBuffer.contents.length
              < ((r.decode.waiting cfg c).threads tid).inputBuffer.contents.length := by
  have inv : Inv isa r := run.invariant (.start _) fun _ _ _ inv offered eq =>
    inv.cycle offered.1 eq
  refine ⟨fun tid => ?_, fun c offered => ?_⟩
  · obtain ⟨rest, streaming⟩ := inv.streams tid
    refine ⟨_, streaming.stream, fun empty => ?_⟩
    have pending := streaming.ready.pending
    have none : (r.decode.threads tid).slots = [] := by
      rw [DecodeThread.slots, empty]
      exact List.drop_nil
    rw [none] at pending
    cases inside : (r.decode.threads tid).inMacroop with
    | false =>
      rw [pending.outside inside]
      rfl
    | true =>
      obtain ⟨x, si, later, k, front, -⟩ := pending.inside inside
      cases front
  · obtain ⟨r', eq⟩ := Option.isSome_iff_exists.mp (inv.cycle_isSome offered.1 fits offered.2)
    exact ⟨r', eq, fun tid scheduled => inv.cycle_progress offered.1 eq scheduled⟩

section Samples

/-- Instruction 1 is a macro-op of the micro-ops 2 and 3. -/
def macroIsa : StaticInsts Nat where
  decodeInst := fun _ => 0
  isControl := fun _ => false
  isSyscall := fun _ => false
  isMacroop := (· == 1)
  isMicroop := (2 ≤ ·)
  isLastMicroop := (· == 3)
  fetchMicroop := fun _ upc => if upc = 0 then 2 else 3
  decodeInst_plain := fun _ => rfl

def widthConfig (outputWidth : Nat) (pos : 0 < outputWidth) : DecodeConfig :=
  ⟨1, outputWidth, true, pos⟩

def sampleInst (si : Nat) : FetchedInst Nat :=
  { id := ⟨0, 1, 1, 1⟩, fetchSeqNum := 1, pc := .ofAddr 0x1000, staticInst := some si }

def sampleFault : FetchedInst Nat :=
  { id := ⟨0, 1, 1, 1⟩, fetchSeqNum := 1, pc := .ofAddr 0x1000, fault := some 0 }

/-- The packet comes in, and the next stage has room. -/
def packetCycle (insts : List (Option (FetchedInst Nat))) : DecodeCycle Nat :=
  ⟨[0], some ⟨0, insts⟩, fun _ => ⟨⟨7, [], 0, 0, 0⟩, none⟩⟩

theorem sampleInst_sound (si : Nat) : (sampleInst si).Sound macroIsa where
  staticInst := fun _ => rfl
  counts := by
    rintro si' ⟨⟩ macroop
    refine StaticInsts.counts_of_microops ⟨rfl, rfl⟩ (fun upc => ?_) ⟨1, rfl⟩
    simp only [macroIsa]
    split <;> rfl

theorem sampleFault_sound : sampleFault.Sound macroIsa := ⟨by simp [FetchedInst.isFault, sampleFault],
  by simp [sampleFault]⟩

theorem packetCycle_sound {insts : List (Option (FetchedInst Nat))}
    (sound : ∀ x, some x ∈ insts → x.Sound macroIsa) : (packetCycle insts).Sound macroIsa := by
  intro d got x mem
  obtain rfl := Option.some.inj (Option.filter_eq_some_iff.mp got).1
  exact sound x mem

/-- A macro-op and a fault come in together. -/
def mixedCycle : DecodeCycle Nat := packetCycle [some (sampleInst 1), some sampleFault]

theorem mixedCycle_offered :
    Offered (widthConfig 3 (by decide)) macroIsa (start 1) mixedCycle := by
  constructor
  · refine packetCycle_sound fun x mem => ?_
    simp only [List.mem_cons, Option.some.injEq, not_mem_nil, or_false] at mem
    rcases mem with rfl | rfl
    · exact sampleInst_sound 1
    · exact sampleFault_sound
  · intro tid scheduled x next
    have zero : tid = 0 := by
      have mem := List.mem_of_find?_eq_some scheduled
      simpa [mixedCycle, packetCycle] using mem
    subst zero
    have plain : ((((start 1).decode.waiting (widthConfig 3 (by decide)) mixedCycle).threads
        0).nextInst (widthConfig 3 (by decide))).all (·.staticInst.isSome) = true := by
      decide +kernel
    rw [next] at plain
    exact plain

theorem decode_expands_mixed : ∃ r : DecodeRun Nat,
    (start 1).cycle (widthConfig 3 (by decide)) macroIsa mixedCycle = some r
      ∧ (instsOf 0 r.sent).map (·.staticInst) = [some 2, some 3, none]
      ∧ ∃ rest, instsOf 0 r.sent ++ rest
        = numbered InstId.firstExecSeqNum (expandAll macroIsa (slotsOf 0 r.received)) := by
  have sent : ((start 1).cycle (widthConfig 3 (by decide)) macroIsa mixedCycle).map
      (fun r => (instsOf 0 r.sent).map (·.staticInst)) = some [some 2, some 3, none] := by
    decide +kernel
  obtain ⟨r, eq, micros⟩ := Option.map_eq_some_iff.mp sent
  obtain ⟨rest, stream, -⟩ :=
    (decode_expands (by decide) (.tail mixedCycle .refl mixedCycle_offered eq)).1 0
  exact ⟨r, eq, micros, rest, stream⟩

/-- An output width of 16 is more than a packet holds, and a fault that comes out first
has no static instruction whose name could be traced. -/
theorem decode_stops :
    (packetCycle [some (sampleInst 0)]).Sound macroIsa
      ∧ (start 1).cycle (widthConfig 16 (by decide)) macroIsa (packetCycle [some (sampleInst 0)])
        = none
      ∧ (packetCycle [some sampleFault]).Sound macroIsa
      ∧ (start 1).cycle (widthConfig 2 (by decide)) macroIsa (packetCycle [some sampleFault])
        = none := by
  refine ⟨packetCycle_sound fun x mem => ?_, Option.isNone_iff_eq_none.mp (by decide +kernel),
    packetCycle_sound fun x mem => ?_, Option.isNone_iff_eq_none.mp (by decide +kernel)⟩
  · obtain rfl : x = sampleInst 0 := by simpa using mem
    exact sampleInst_sound 0
  · obtain rfl : x = sampleFault := by simpa using mem
    exact sampleFault_sound

end Samples

end DecodeRun

end Gem5.Minor
