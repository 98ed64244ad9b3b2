import Gem5.FlexCPU.FetchLoop
import Gem5.FlexCPU.Reachable
import Gem5.Minor.Reservations
import Gem5.Minor.StraightRuns

/-!
# Both front ends extract the reference parse

Fetch2 of the Minor CPU and the fetch loop of a FlexCPU thread feed the same decoder. The
fetch buffer of FlexCPU takes base 0 for invalid, so nothing is ever decoded from the block
at address 0.
-/

namespace Gem5.FlexCPU

open Thread Option Bool

/-- A suspended context that will start at address 0. -/
def ThreadContext.bootAtZero : ThreadContext := ⟨.suspended, .ofAddr 0, fun _ => 0⟩

/-- Instruction `i`, which lies at address 0, is being fetched. -/
structure AtZero (t : Thread) (i : InstId) : Prop where
  panicked : t.panicked = none
  active : t.tc.status = .active
  mem : i ∈ t.inflightInsts
  unsquashed : (t.insts i).squashed = false
  pc : (t.insts i).pcState.pc = 0
  fetchOffset : t.fetchOffset = 0
  fetchBufBase : t.fetchBufBase = 0
  decodes : t.decodes = []
  phase : t.calls = [.attemptFetch i] ∧ t.requests = [] ∨ t.calls = [] ∧
    (t.requests = [.itb i 0] ∨ t.requests = [.fetch i 0] ∨ t.requests = [.fetchResp i 0])

theorem Thread.settle_of_none {t r : Thread} (fine : r.panicked = none) : Thread.settle t r = r := by
  simp [Thread.settle, fine]

theorem Thread.attemptFetch_invalid {cfg : Config} {t : Thread} {i : InstId}
    (invalid : t.fetchBufBase = 0) :
    t.attemptFetch cfg i = t.request (.itb i (t.fetchAddr i &&& Thread.fetchBufMask cfg)) := by
  simp [Thread.attemptFetch, Thread.fetchBufHit, invalid]

theorem AtZero.settled {t r : Thread} {i : InstId} (atZero : AtZero r i) :
    AtZero (Thread.settle t r) i := by
  rwa [Thread.settle_of_none atZero.panicked]

theorem AtZero.step {cfg : Config} {t : Thread} {i : InstId} (atZero : AtZero t i) {e : Event}
    (faultless : ∀ k ans, e = .serve k ans → ans.fault = none) : AtZero (t.step cfg e) i := by
  have same := atZero
  obtain ⟨panicked, active, mem, unsquashed, pc, offset, base, decodes, phase⟩ := atZero
  rcases phase with ⟨calls, requests⟩ | ⟨calls, phase⟩
  · have addr : t.fetchAddr i &&& Thread.fetchBufMask cfg = 0 := by
      simp [Thread.fetchAddr, pc, offset]
    have step : t.step cfg e = Thread.settle t (Thread.attemptFetch cfg { t with calls := [] } i) := by
      simp [Thread.step, panicked, calls, Thread.runCall]
    have asked : Thread.attemptFetch cfg { t with calls := [] } i
        = Thread.request { t with calls := [] } (.itb i 0) := by
      rw [Thread.attemptFetch_invalid (t := { t with calls := [] }) base]
      exact congrArg (fun a => Thread.request { t with calls := [] } (.itb i a)) addr
    rw [step, asked]
    refine AtZero.settled
      ⟨panicked, active, mem, unsquashed, pc, offset, base, decodes, .inr ⟨rfl, .inl ?_⟩⟩
    simp [Thread.request, requests]
  · cases e with
    | activate =>
      have step : t.step cfg .activate = t := by
        simp only [Thread.step, panicked, calls, Thread.handleEvent, Thread.activate, active]
        exact Thread.settle_of_none panicked
      rw [step]
      exact same
    | serve k ans =>
      have fault := faultless k ans rfl
      have serve : t.step cfg (.serve k ans) = Thread.settle t (t.handleEvent cfg (.serve k ans)) := by
        simp [Thread.step, panicked, calls]
      rw [serve]
      cases found : t.requests[k]? with
      | none => grind [Thread.handleEvent, Thread.settle_of_none]
      | some r =>
        have live : Thread.live { t with requests := [] } i = true := by
          simp [Thread.live, Thread.alive, mem, unsquashed]
        have first : k = 0 ∧ t.requests = [r] := by grind
        obtain ⟨rfl, single⟩ := first
        have left : t.requests.eraseIdx 0 = [] := by rw [single]; rfl
        simp only [Thread.handleEvent, found, servable, left]
        rw [single] at phase
        simp only [List.singleton_inj] at phase
        rcases phase with rfl | rfl | rfl
        · simp only [Thread.serveRequest, live, fault]
          exact AtZero.settled ⟨panicked, active, mem, unsquashed, pc, offset, base, decodes,
            .inr ⟨calls, .inr (.inl rfl)⟩⟩
        · simp only [Thread.serveRequest, unsquashed]
          exact AtZero.settled ⟨panicked, active, mem, unsquashed, pc, offset, base, decodes,
            .inr ⟨calls, .inr (.inr rfl)⟩⟩
        · have live : Thread.live (Thread.bufferInstructionData { t with requests := [] } 0
              ans.fetched) i = true := live
          simp only [Thread.serveRequest, live]
          refine AtZero.settled
            ⟨panicked, active, mem, unsquashed, pc, offset, rfl, decodes, .inl ⟨?_, rfl⟩⟩
          simp [Thread.push, Thread.bufferInstructionData, calls]

theorem AtZero.run {cfg : Config} {t : Thread} {i : InstId} (atZero : AtZero t i)
    (events : List Event) (faultless : ∀ k ans, .serve k ans ∈ events → ans.fault = none) :
    AtZero (Runs.run (Thread.step cfg) t events) i := by
  induction events generalizing t with
  | nil => exact atZero
  | cons e rest ih =>
    have next : AtZero (t.step cfg e) i :=
      atZero.step fun k ans same => faultless k ans (same ▸ List.mem_cons_self)
    exact ih next fun k ans inside => faultless k ans (List.mem_cons_of_mem e inside)

theorem atZero_boot (decodeInst : ExtMachInst → StaticInst) :
    AtZero ((Thread.init (Config.sample decodeInst) .bootAtZero).step (Config.sample decodeInst)
      .activate) 0 := by
  have started : (Thread.init (Config.sample decodeInst) .bootAtZero).step (Config.sample decodeInst)
      .activate = Thread.settle (Thread.init (Config.sample decodeInst) .bootAtZero)
        (Thread.advanceInst (Config.sample decodeInst)
        { Thread.init (Config.sample decodeInst) .bootAtZero with
          tc := { ThreadContext.bootAtZero with status := .active } } (.ofAddr 0)) := by
    simp [Thread.step, Thread.init, Thread.handleEvent, Thread.activate, ThreadContext.bootAtZero,
      Thread.advanceToNextPC, Thread.back, Thread.hasNextPC, Thread.getNextPC]
  rw [started]
  exact ⟨rfl, rfl, List.mem_singleton_self _, rfl, rfl, rfl, rfl, rfl, .inl ⟨rfl, rfl⟩⟩

/-- An instruction in the block at address 0 is never decoded. -/
theorem FetchLoop.block_at_zero :
    ¬ ∃ events : List Event, (∀ k ans, .serve k ans ∈ events → ans.fault = none)
      ∧ (Thread.play (Config.sample fun _ => .nop) .bootAtZero events).decodes ≠ [] := by
  rintro ⟨events, faultless, decoded⟩
  apply decoded
  simp only [Thread.play]
  induction events with
  | nil => rfl
  | cons e rest ih =>
    have later : ∀ k ans, .serve k ans ∈ rest → ans.fault = none :=
      fun k ans inside => faultless k ans (List.mem_cons_of_mem e inside)
    cases e with
    | activate => exact ((atZero_boot _).run rest later).decodes
    | serve k ans => exact ih later (fun none => decoded none)

variable {ι : Type}

/-- Fetch2 puts out the reference parse of the lines of a thread, whatever their division
and however the thread is scheduled; the fetch loop of FlexCPU extracts it from every block
that its buffer can hold. -/
theorem streaming_extraction (code : Code) (start : PCState) (even : start.pc.toNat % 2 = 0) :
    (∀ (cfg : Minor.Fetch2Config) (isa : Minor.StaticInsts ι) (s : Minor.Fetch2)
        (cycles : List (Minor.Fetch2Cycle ι)) (tid stream prediction total : Nat),
      tid < cfg.numThreads → (s.threads tid).Waiting stream prediction →
      (∀ c ∈ cycles, c.Straight tid) →
      Minor.Cut code stream prediction start total (Minor.Fetch2Cycle.lines tid cycles) →
      (s.outputs cfg isa tid cycles).map Minor.FetchedInst.shown
          <+: (code.insts start total).map (Minor.decodedAs isa)
        ∧ (((s.run cfg isa cycles).threads tid).inputBuffer.contents = [] →
          (s.outputs cfg isa tid cycles).map Minor.FetchedInst.shown
            = (code.insts start total).map (Minor.decodedAs isa))
        ∧ 2 * s.turns cfg isa tid cycles ≤ total)
      ∧ ∀ (cfg : Config) (t : Thread) (s : FetchLoop),
        cfg.WholeWords → FetchLoop.Fresh cfg code t →
        Relation.ReflTransGen (FetchLoop.Step cfg code start) ⟨t, none, [], 0⟩ s →
        (∀ bytes, 4 * s.out.length ≤ bytes →
            s.out <+: (code.insts start bytes).map (FetchLoop.decodedAs cfg))
          ∧ s.turns ≤ 10 * (s.out.length + 1)
          ∧ ∀ i, s.fetching = some i →
            .attemptFetch i ∈ s.thread.calls ∨ ∃ r ∈ s.thread.requests, r.fetches i = true :=
  ⟨fun _ _ s cycles _ _ _ _ inRange waiting straight cut =>
      s.run_parse cycles inRange waiting straight cut,
    fun _ _ _ whole fresh run => FetchLoop.run_parse whole fresh even run⟩

/-- Code of zeros, one thread with a buffer for one line, and a cycle that brings a line. -/
def zeroCode : Code := fun _ => 0

def zeroFetch2 : Minor.Fetch2Config where
  numThreads := 1
  outputWidth := 2
  processMoreThanOneInput := false
  outputWidth_pos := Nat.two_pos

def zeroCycle : Minor.Fetch2Cycle Unit where
  answers := { priorityList := [0], predict := fun _ => none }
  inp := some
    { id := ⟨0, 1, 1, 1⟩
      pc := .ofAddr 0x1000
      lineBaseAddr := 0x1000
      lineWidth := 4 }
  branch := none
  nextStageReserve := fun _ => ⟨{ capacity := 1 }, none⟩

def zeroThreads : Minor.Fetch2 := { threads := fun _ => { inputBuffer := ⟨{ capacity := 1 }, none⟩ } }

def zeroThread : Thread :=
  Thread.init (Config.sample fun _ => .nop) { ThreadContext.boot with status := .active }

theorem streaming_extraction_zeros :
    (zeroThreads.outputs zeroFetch2 Minor.Fetching.smallFetching.isa 0 [zeroCycle]).map
        Minor.FetchedInst.shown
        = (zeroCode.insts (.ofAddr 0x1000) 4).map
          (Minor.decodedAs Minor.Fetching.smallFetching.isa)
      ∧ .attemptFetch 0 ∈
        (zeroThread.advanceInst (Config.sample fun _ => .nop) (.ofAddr 0x1000)).calls := by
  have both := @streaming_extraction Unit zeroCode (.ofAddr 0x1000) (by decide)
  refine ⟨(both.1 zeroFetch2 Minor.Fetching.smallFetching.isa zeroThreads [zeroCycle] 0 1 1 4
    (by decide) ⟨rfl, rfl, .inl rfl, fun _ => rfl, rfl⟩ ?_ ?_).2.1 ?_, ?_⟩
  · intro c inside
    obtain rfl := List.mem_singleton.mp inside
    refine ⟨?_, fun _ _ => rfl⟩
    intro b none
    cases none
  · refine ⟨rfl, by decide, by decide, ⟨?_, trivial⟩, by decide, by decide⟩
    exact ⟨rfl, rfl, rfl, rfl, by decide, by decide, by decide, fun _ _ => rfl⟩
  · decide +kernel
  · have start : FetchLoop.Step (Config.sample fun _ => .nop) zeroCode (.ofAddr 0x1000)
        ⟨zeroThread, none, [], 0⟩
        ⟨zeroThread.advanceInst (Config.sample fun _ => .nop) (.ofAddr 0x1000), some 0, [], 0⟩ :=
      .advance rfl rfl rfl rfl rfl rfl ⟨⟨by decide, by decide⟩, fun _ => ⟨by decide, by decide⟩⟩
    have fresh : FetchLoop.Fresh (Config.sample fun _ => .nop) zeroCode zeroThread :=
      ⟨rfl, rfl, rfl, fun invalid => absurd rfl invalid⟩
    have loop := both.2 _ zeroThread _ ⟨by decide, by decide, by decide⟩ fresh (.single start)
    rcases loop.2.2 0 rfl with call | ⟨r, inside, -⟩
    · exact call
    · have none : (zeroThread.advanceInst (Config.sample fun _ => .nop)
          (.ofAddr 0x1000)).requests = [] := rfl
      simp only [none] at inside
      cases inside

end Gem5.FlexCPU
