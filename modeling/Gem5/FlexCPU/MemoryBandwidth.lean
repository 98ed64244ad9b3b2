import Gem5.FlexCPU.ResourceRuns
import Gem5.FlexCPU.SplitAccess

/-!
# The bandwidth of the memory unit

`memoryUnit` counts the requests that return `true`. Five of its six closures return
`true` when they hand a packet to the port; the low half of a split read returns
`false`, and its packet is not counted.
-/

namespace Gem5.FlexCPU

/-- The closures that are queued on `memoryUnit`. -/
inductive MemKind where
  | read
  | write
  | splitRead (h : Side)
  | splitWrite (h : Side)
  deriving DecidableEq

structure MemFunc where
  kind : MemKind
  llsc : Bool := false
  deriving DecidableEq

/-- What a closure does: it returns `false` for an expired context, panics, or hands its
packet to the port and returns. -/
inductive MemResult where
  | expired
  | panic
  | sent (result : Bool)
  deriving DecidableEq

def MemKind.isWrite : MemKind → Bool
  | read => false
  | write => true
  | splitRead _ => false
  | splitWrite _ => true

/-- The `return` after the packet is sent. -/
def MemKind.result : MemKind → Bool
  | splitRead .low => false
  | _ => true

def MemFunc.run (f : MemFunc) (expired reserved : Bool) : MemResult :=
  if expired then .expired
  else if f.kind.isWrite && f.llsc && !reserved then .panic
  else .sent f.kind.result

/-- The closure of one half of a split access. -/
def SplitAccess.func (s : SplitAccess) (h : Side) : MemFunc :=
  ⟨if s.write then .splitWrite h else .splitRead h, s.llsc h⟩

/-- A closure of a split access returns what `SplitAccess.request` returns, and sends
when it sends. -/
theorem SplitAccess.request_run (s : SplitAccess) (h : Side) (reserved : Bool) :
    match (s.func h).run s.expired reserved with
    | .sent result => (s.request h reserved).2 = result ∧ (s.request h reserved).1.sent h = true
    | .expired => (s.request h reserved).2 = false ∧ (s.request h reserved).1.sent h = s.sent h
    | .panic => (s.request h reserved).1.panicked = true := by
  have kind : (s.func h).kind.isWrite = s.write := by
    cases write : s.write <;> simp [SplitAccess.func, MemKind.isWrite, write]
  have result : (s.func h).kind.result = (s.write || h == .high) := by
    cases write : s.write <;> cases h <;> simp [SplitAccess.func, MemKind.result, write]
  have expired : s.deref.expired = s.expired := rfl
  have write : s.deref.write = s.write := rfl
  have llsc : s.deref.llsc = s.llsc := rfl
  unfold MemFunc.run SplitAccess.request
  rw [kind, result, show (s.func h).llsc = s.llsc h from rfl]
  simp only [expired, write, llsc]
  cases s.expired with
  | true => grind [SplitAccess.release, SplitAccess.deref, SplitAccess.deletePacket]
  | false =>
    cases (s.write && s.llsc h && !reserved) with
    | true => rfl
    | false => simp [SplitAccess.flip]

/-- The four entry points and the closures they queue. -/
inductive MemCall where
  | requestMemRead (llsc : Bool)
  | requestMemWrite (llsc : Bool)
  | requestSplitMemRead (llsc : Side → Bool)
  | requestSplitMemWrite (llsc : Side → Bool)

def MemCall.funcs : MemCall → List MemFunc
  | requestMemRead llsc => [⟨.read, llsc⟩]
  | requestMemWrite llsc => [⟨.write, llsc⟩]
  | requestSplitMemRead llsc => [⟨.splitRead .low, llsc .low⟩, ⟨.splitRead .high, llsc .high⟩]
  | requestSplitMemWrite llsc => [⟨.splitWrite .low, llsc .low⟩, ⟨.splitWrite .high, llsc .high⟩]

/-- `memoryUnit` with the contexts that have expired and the ticks in which its closures
called `sendPacket`. -/
structure MemoryUnit where
  unit : Resource MemFunc := {}
  expired : InstId → Bool := fun _ => false
  sends : List Nat := []
  panicked : Bool := false

namespace MemoryUnit

open Resource

/-- `MemoryResource(cpu, bandwidth, name)`. -/
def params (bandwidth : Int) (period : Nat) : ResourceParams :=
  ⟨.memoryResource, 0, bandwidth, 1, period⟩

inductive Event where
  | advance (tick : Nat)
  | fire
  | proceed
  | call (inst : InstId) (c : MemCall)
  | run (reserved accepted : Bool)
  | expire (inst : InstId)
  | retry

/-- The closure that runs. -/
def front (m : MemoryUnit) : Option (Queued MemFunc) :=
  match m.unit.stage with
  | .running tid => (m.unit.queues tid).head?
  | _ => none

/-- The front closure runs to its end; a packet that is not accepted blocks the port. -/
def runFront (prm : ResourceParams) (m : MemoryUnit) (reserved accepted : Bool) : MemoryUnit :=
  match m.front with
  | none => m
  | some q =>
    match q.func.run (m.expired q.inst) reserved with
    | .expired => { m with unit := m.unit.step prm (.finish false) }
    | .panic => { m with panicked := true }
    | .sent result =>
      let unit := if accepted then m.unit else m.unit.step prm .block
      { m with sends := m.sends ++ [m.unit.now], unit := unit.step prm (.finish result) }

def step (prm : ResourceParams) (m : MemoryUnit) (e : Event) : MemoryUnit :=
  if m.panicked then m
  else match e with
    | .advance tick => { m with unit := m.unit.step prm (.advance tick) }
    | .fire => { m with unit := m.unit.step prm (.fire 0) }
    | .proceed => { m with unit := m.unit.step prm .proceed }
    | .call inst c => { m with unit := m.unit.step prm (.submit 0 (c.funcs.map (inst, ·))) }
    | .run reserved accepted => m.runFront prm reserved accepted
    | .expire inst => { m with expired := Function.update m.expired inst true }
    | .retry => { m with unit := m.unit.step prm .retry }

/-- The event does not send the low half of a split read. -/
def countsSends (m : MemoryUnit) : Event → Bool
  | .run _ _ => m.front.all fun q => m.expired q.inst || q.func.kind != .splitRead .low
  | _ => true

variable {prm : ResourceParams} {m : MemoryUnit}

/-- Every packet is counted. -/
structure Counted (prm : ResourceParams) (m : MemoryUnit) : Prop where
  inv : m.unit.Inv prm
  counted : ∀ tick, m.sends.count tick ≤ m.unit.served tick

theorem Counted.ofStep (h : Counted prm m) (e : Resource.Event MemFunc) :
    Counted prm { m with unit := m.unit.step prm e } :=
  ⟨h.inv.step e, fun tick => Nat.le_trans (h.counted tick) (served_le_step m.unit e tick)⟩

theorem Counted.send (h : Counted prm m) {tid : Nat} (running : m.unit.stage = .running tid) :
    Counted prm { m with
      sends := m.sends ++ [m.unit.now], unit := m.unit.step prm (.finish true) } := by
  have full := (h.inv.running tid running).1
  refine ⟨h.inv.step (.finish true), fun tick => ?_⟩
  have served := served_finish full true tick
  have before := h.counted tick
  have form : m.unit.step prm (.finish true) = m.unit.finish tid true := by
    simp [Resource.step, running]
  simp only [form, served, List.count_append, List.count_singleton, beq_iff_eq, and_true]
  by_cases here : m.unit.now = tick
  · simp only [here]
    omega
  · grind

theorem Counted.run (h : Counted prm m) (reserved accepted : Bool)
    (counts : m.countsSends (.run reserved accepted) = true) :
    Counted prm (m.runFront prm reserved accepted) := by
  unfold runFront
  cases front : m.front with
  | none => exact h
  | some q =>
    obtain ⟨tid, running⟩ : ∃ tid, m.unit.stage = .running tid := by
      unfold MemoryUnit.front at front
      split at front
      · exact ⟨_, by assumption⟩
      · cases front
    simp only
    cases ran : q.func.run (m.expired q.inst) reserved with
    | expired => exact h.ofStep _
    | panic => exact ⟨h.inv, h.counted⟩
    | sent result =>
      have live : m.expired q.inst = false := by
        cases expired : m.expired q.inst with
        | false => rfl
        | true => simp [MemFunc.run, expired] at ran
      have counted : result = true := by
        have value : q.func.kind.result = result := by
          simp only [MemFunc.run, live, Bool.false_eq_true, if_false] at ran
          split at ran
          · cases ran
          · injection ran
        rw [← value]
        simp only [countsSends] at counts
        cases kind : q.func.kind with
        | splitRead side => cases side <;> simp_all [MemKind.result]
        | _ => rfl
      subst counted
      cases accepted with
      | true => exact h.send running
      | false =>
        have blocked : m.unit.step prm .block = { m.unit with portBlocked := true } := by
          simp [Resource.step, running]
        have held : Counted prm { m with unit := { m.unit with portBlocked := true } } := by
          have := h.ofStep .block
          rwa [blocked] at this
        simp only [blocked]
        exact held.send running

theorem Counted.step (h : Counted prm m) (e : Event) (counts : m.countsSends e = true) :
    Counted prm (m.step prm e) := by
  unfold MemoryUnit.step
  split
  · exact h
  · cases e with
    | run reserved accepted => exact h.run reserved accepted counts
    | expire => exact ⟨h.inv, h.counted⟩
    | _ => exact h.ofStep _

/-- If no low half of a split read is sent, the packets that the closures send in one tick
are within the bandwidth. -/
theorem packets_within_bandwidth {bandwidth : Int} {period : Nat} (limited : 0 < bandwidth)
    (run : Runs.Reaches (MemoryUnit.step (params bandwidth period))
      (fun m e => m.countsSends e = true) {} m) (tick : Nat) :
    m.sends.count tick ≤ bandwidth := by
  have counted : Counted (params bandwidth period) m :=
    Runs.Reaches.invariant run ⟨Inv.init _, by simp⟩ fun _ e h counts => h.step e counts
  have bound := (counted.inv.limit limited).2 tick
  have below := counted.counted tick
  change (m.unit.served tick : Int) ≤ bandwidth at bound
  omega

/-- A read and a split write on a unit that serves one request a tick. -/
def plainRun : List Event :=
  [.call 0 (.requestMemRead false), .call 1 (.requestSplitMemWrite fun _ => false), .fire, .proceed,
    .run true true, .proceed, .advance 500, .fire, .proceed, .run true true]

theorem packets_within_bandwidth_plain :
    (Runs.run (MemoryUnit.step (params 1 500)) {} plainRun).sends = [0, 500]
      ∧ (Runs.run (MemoryUnit.step (params 1 500)) {} plainRun).sends.count 500 ≤ (1 : Int) := by
  have run : Runs.Reaches (MemoryUnit.step (params 1 500)) (fun m e => m.countsSends e = true) {}
      (Runs.run (MemoryUnit.step (params 1 500)) {} plainRun) := Runs.reaches_offered (by decide)
  exact ⟨by decide, packets_within_bandwidth (by decide) run 500⟩

/-- A split read on the same unit. -/
def splitReadRun : List Event :=
  [.call 0 (.requestSplitMemRead fun _ => false), .fire, .proceed, .run true true, .proceed,
    .run true true]

/-- Both halves of the split read are sent in one tick. -/
theorem split_read_exceeds_bandwidth :
    Runs.Reaches (MemoryUnit.step (params 1 500)) Runs.Free {}
        (Runs.run (MemoryUnit.step (params 1 500)) {} splitReadRun)
      ∧ (Runs.run (MemoryUnit.step (params 1 500)) {} splitReadRun).sends.count 0 = 2 :=
  ⟨Runs.reaches_run .., by decide⟩

end MemoryUnit

end Gem5.FlexCPU
