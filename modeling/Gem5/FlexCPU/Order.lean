import Gem5.FlexCPU.Reachable

/-!
# The ordering machine

What the ordering guarantees of the thread are about: which instructions are in the
buffer, how far each has come, what it waits for and which milestones it has
announced. Resources, callbacks, counters and values are gone. The machine has its
own steps; a thread's steps are steps of this machine.
-/

namespace Gem5.FlexCPU

/-- What the ordering rules see of one instruction. -/
structure Mark where
  status : Status := .invalid
  squashed : Bool := false
  static : StaticInst := .nop
  number : Nat := 0
  fired : Milestone → Nat := fun _ => 0
  deps : Gate → List (Milestone × InstId) := fun _ => []

/-- The instruction announces `m`. -/
def Mark.pass (x : Mark) (m : Milestone) : Mark :=
  { x with
    status := m.status
    fired := fun q => if q = m then x.fired m + 1 else x.fired q }

structure Order where
  mark : InstId → Mark
  buffer : List InstId
  next : InstId
  issues : Nat
  serializing : Option InstId
  barrier : Option InstId
  executed : List InstId
  sends : List InstId

inductive Action where
  | idle
  | fetch
  | decode (i : InstId)
  | issue (i : InstId)
  | enter (i : InstId)
  | execute (i : InstId)
  | announce (i : InstId)
  | effAddr (i : InstId)
  | overlap (i other : InstId)
  | send (i : InstId)
  | complete (i : InstId)
  | commit (i : InstId)
  | pop
  | squash (i : InstId)
  | fault (i : InstId)
  | sendFault (i : InstId)
  | reset

namespace Order

def set (s : Order) (i : InstId) (x : Mark) : Order :=
  { s with mark := Function.update s.mark i x }

def Live (s : Order) (i : InstId) : Prop := i ∈ s.buffer ∧ (s.mark i).squashed = false

/-- The announcements that the dependencies of `i` still stand for. -/
def due (s : Order) (g : Gate) (i : InstId) : Nat :=
  Latch.due (fun d : Milestone × InstId => d.1.announcements)
    (fun d => (s.mark d.2).fired d.1) ((s.mark i).deps g)

def begins (s : Order) (i : InstId) : Nat :=
  ((s.mark i).deps .exec).countP (·.1 = .beginExec)

/-- Every instruction of `vs` is squashed. -/
def flag (s : Order) (vs : List InstId) : InstId → Mark := fun j =>
  if j ∈ vs then { s.mark j with squashed := true } else s.mark j

/-- What an instruction that is issued in `s` waits for. -/
structure Waits (cfg : Config) (s : Order) (i : InstId)
    (deps : Gate → List (Milestone × InstId)) : Prop where
  older : ∀ g, ∀ d ∈ deps g, d.2 < i ∧ (s.mark d.2).fired d.1 = 0
  serial : ∀ q, s.serializing = some q → s.Live q → (s.mark q).fired .commit = 0 →
    (.commit, q) ∈ deps .exec
  strict : cfg.strictSerialize = true → (s.mark i).static.isSerializing = true →
    ∀ p, s.buffer.dropLast.getLast? = some p → (s.mark p).fired .commit = 0 →
    (.commit, p) ∈ deps .exec
  behind : (s.mark i).static.isMemRef = true → ∀ q, s.barrier = some q → s.Live q →
    (s.mark q).status < .complete → (.completion, q) ∈ deps .mem
  fence : (s.mark i).static.isMemBarrier = true → ∀ j ∈ s.buffer, j ≠ i →
    (s.mark j).static.isMemBarrier = true ∨ (s.mark j).static.isMemRef = true →
    (s.mark j).status < .complete →
    (.completion, j) ∈ deps (if (s.mark i).static.isMemRef then .mem else .exec)

def records (cfg : Config) (s : Order) (si : StaticInst) : Bool :=
  if cfg.strictSerialize then 1 < s.buffer.length && si.isSerializing else si.isSerializeAfter

/-- The pointer to the youngest instruction of a kind after a squash. -/
def rebuild (s : Order) (kept vs : List InstId) (last : Option InstId)
    (kind : StaticInst → Bool) : Option InstId :=
  if vs.any (fun v => last == some v) then
    (kept.reverse.find? fun j => kind (s.mark j).static).or last
  else last

inductive Step (cfg : Config) : Order → Action → Order → Prop where
  | idle {s : Order} : Step cfg s .idle s
  | fetch {s : Order} (issued : ∀ i ∈ s.buffer, Status.issued ≤ (s.mark i).status)
      (unsquashed : ∀ i ∈ s.buffer, (s.mark i).squashed = false) :
      Step cfg s .fetch { s with
        mark := Function.update s.mark s.next { status := .empty }
        buffer := s.buffer ++ [s.next]
        next := s.next + 1 }
  | decode {s : Order} {i si} (live : s.Live i) (status : (s.mark i).status = .empty) :
      Step cfg s (.decode i) (s.set i { s.mark i with status := .decoded, static := si })
  | issue {s : Order} {i deps} (live : s.Live i) (status : (s.mark i).status = .decoded)
      (last : s.buffer.getLast? = some i) (settled : ∀ j ∈ s.buffer, (s.mark j).fired .commit = 0)
      (waits : Waits cfg s i deps) :
      Step cfg s (.issue i) { s with
        mark := Function.update s.mark i
          { s.mark i with status := .issued, number := s.issues, deps := deps }
        issues := s.issues + 1
        serializing := if s.records cfg (s.mark i).static then some i else s.serializing
        barrier := if (s.mark i).static.isMemBarrier then some i else s.barrier }
  | enter {s : Order} {i} (live : s.Live i) (status : (s.mark i).status = .issued) :
      Step cfg s (.enter i) (s.set i { s.mark i with status := .issuedTid })
  | execute {s : Order} {i} (live : s.Live i) (status : (s.mark i).status = .issuedTid)
      (ready : s.due .exec i ≤ s.begins i) :
      Step cfg s (.execute i) { s.set i ((s.mark i).pass .beginExec) with
        executed := s.executed ++ [i] }
  | announce {s : Order} {i} (live : s.Live i) (status : (s.mark i).status = .executing)
      (once : (s.mark i).fired .beginExec = 1) :
      Step cfg s (.announce i) (s.set i ((s.mark i).pass .beginExec))
  | effAddr {s : Order} {i} (live : s.Live i) (status : (s.mark i).status = .executing) :
      Step cfg s (.effAddr i) (s.set i ((s.mark i).pass .effAddr))
  | overlap {s : Order} {i other} (unsent : (s.mark i).squashed = true ∨
        (s.mark i).static.isMemRef = true ∧ (s.mark i).status < .memorying)
      (older : other < i) (issued : Status.issued ≤ (s.mark i).status) (allocated : i < s.next)
      (silent : (s.mark other).fired .completion = 0) :
      Step cfg s (.overlap i other) (s.set i { s.mark i with
        deps := fun g => (s.mark i).deps g ++ if g = .mem then [(.completion, other)] else [] })
  | send {s : Order} {i} (live : s.Live i) (status : (s.mark i).status = .effAddred)
      (memRef : (s.mark i).static.isMemRef = true) (ready : s.due .mem i = 0) :
      Step cfg s (.send i) { s.set i { s.mark i with status := .memorying } with
        sends := s.sends ++ [i] }
  | complete {s : Order} {i} (unsquashed : (s.mark i).squashed = false) (allocated : i < s.next)
      (pending : (s.mark i).fired .completion = 0)
      (status : i ∈ s.buffer ∧ (s.mark i).status = .executing
          ∧ (s.mark i).static.isMemRef = false
        ∨ i ∈ s.buffer ∧ (s.mark i).status = .memorying ∧ (s.mark i).static.isMemRef = true
        ∨ (s.mark i).status = .committed ∧ (s.mark i).static.isStore = true) :
      Step cfg s (.complete i) (s.set i ((s.mark i).pass .completion))
  | commit {s : Order} {i} (front : s.buffer.head? = some i)
      (unsquashed : (s.mark i).squashed = false) (pending : (s.mark i).fired .commit = 0)
      (status : (s.mark i).status = .complete
        ∨ (s.mark i).status = .memorying ∧ (s.mark i).static.isStore = true) :
      Step cfg s (.commit i) (s.set i ((s.mark i).pass .commit))
  | pop {s : Order} {i rest} (front : s.buffer = i :: rest)
      (committed : (s.mark i).fired .commit = 1) :
      Step cfg s .pop { s with buffer := rest }
  | squash {s : Order} {i a vs} (buffer : s.buffer = a ++ i :: vs.reverse)
      (unsquashed : (s.mark i).squashed = false)
      (status : (s.mark i).status = .complete) (control : (s.mark i).static.isControl = true)
      (pending : (s.mark i).fired .commit = 0) :
      Step cfg s (.squash i) { s with
        mark := s.flag vs
        buffer := a ++ [i]
        serializing := s.rebuild (a ++ [i]) vs s.serializing (Thread.serializes cfg)
        barrier := s.rebuild (a ++ [i]) vs s.barrier (·.isMemBarrier) }
  | fault {s : Order} {i a vs} (buffer : s.buffer = a ++ i :: vs.reverse)
      (unsquashed : (s.mark i).squashed = false) (pending : (s.mark i).fired .commit = 0)
      (status : (s.mark i).status = .empty ∨ (s.mark i).status = .executing
        ∨ (s.mark i).status = .memorying ∧ (s.mark i).static.isStore = false) :
      Step cfg s (.fault i) { s with mark := s.flag (vs ++ [i]), buffer := a ++ [i] }
  | sendFault {s : Order} {i a vs} (buffer : s.buffer = a ++ i :: vs.reverse)
      (unsquashed : (s.mark i).squashed = false) (pending : (s.mark i).fired .commit = 0)
      (status : (s.mark i).status = .effAddred) (memRef : (s.mark i).static.isMemRef = true)
      (ready : s.due .mem i = 0) :
      Step cfg s (.sendFault i) { s with
        mark := (s.set i { s.mark i with status := .memorying }).flag (vs ++ [i])
        buffer := a ++ [i]
        sends := s.sends ++ [i] }
  | reset {s : Order} {i} (buffer : s.buffer = [i]) (squashed : (s.mark i).squashed = true) :
      Step cfg s .reset { s with buffer := [] }

/-- The facts about a thread's instructions that the steps keep. -/
structure Wf (s : Order) : Prop where
  ordered : s.buffer.Pairwise (· < ·)
  bounded : ∀ i ∈ s.buffer, i < s.next
  fresh : ∀ i, s.next ≤ i → s.mark i = {}
  parents : ∀ c g, ∀ d ∈ (s.mark c).deps g, d.2 < c
  newest : ∀ i ∈ s.buffer, (s.mark i).status < .issued → i + 1 = s.next
  squashed : ∀ i ∈ s.buffer, (s.mark i).squashed = true →
    s.buffer.getLast? = some i ∧ (s.mark i).fired .commit = 0
  fired_le : ∀ i m, (s.mark i).fired m ≤ m.announcements
  fired_zero : ∀ i m, (s.mark i).squashed = false → m ≠ .commit →
    (s.mark i).status < m.status → (s.mark i).fired m = 0
  left : ∀ i, i < s.next → i ∉ s.buffer → (s.mark i).squashed = false →
    (s.mark i).fired .commit = 1 ∧ ((s.mark i).status = .committed
      ∨ (s.mark i).static.isStore = true ∧ (s.mark i).status = .complete)
  committed : ∀ i ∈ s.buffer, (s.mark i).squashed = false →
    ((s.mark i).status = .committed ↔ (s.mark i).fired .commit = 1)
  uncommitted : ∀ i ∈ s.buffer, s.buffer.head? ≠ some i → (s.mark i).fired .commit = 0
  unissued : ∀ i, (s.mark i).status < .issued → ∀ g, (s.mark i).deps g = []
  stores : ∀ c ∈ s.buffer, (s.mark c).squashed = false → (s.mark c).static.isStore = true →
    Status.issued ≤ (s.mark c).status → ∀ p ∈ s.buffer, p < c → (s.mark p).fired .commit = 0 →
    ∃ q, p ≤ q ∧ (.commit, q) ∈ (s.mark c).deps .mem ∧ (s.mark q).fired .commit = 0
  serializing : ∀ j, s.serializing = some j → j < s.next ∧ Status.issued ≤ (s.mark j).status
  barrier : ∀ j, s.barrier = some j → j < s.next ∧ Status.issued ≤ (s.mark j).status

end Order

def InflightInst.mark (x : InflightInst) : Mark where
  status := x.status
  squashed := x.squashed
  static := x.staticInst
  number := x.issueSeqNum
  fired := x.fired
  deps := x.deps

/-- What the ordering machine sees of a thread. -/
def Thread.order (t : Thread) : Order where
  mark := fun j => (t.insts j).mark
  buffer := t.inflightInsts
  next := t.nextInst
  issues := t.nextIssueNum
  serializing := t.lastSerializingInstruction
  barrier := t.lastMemBarrier
  executed := t.executed
  sends := t.sends

variable {cfg : Config} {t : Thread}

theorem Inv.wf (inv : Inv cfg t) : t.order.Wf where
  ordered := inv.heap.ordered
  bounded := inv.heap.bounded
  fresh := fun i old => by
    change (t.insts i).mark = {}
    rw [inv.heap.fresh i old]
    rfl
  parents := inv.heap.parents_lt
  newest := inv.heap.newest
  squashed := fun i mem squashed =>
    ⟨(inv.buffer.squashed i mem squashed).1, (inv.buffer.squashed i mem squashed).2.2⟩
  fired_le := inv.milestones.fired_le
  fired_zero := inv.milestones.fired_zero
  left := inv.milestones.left
  committed := inv.milestones.committed_iff
  uncommitted := inv.buffer.uncommitted
  unissued := fun i early => (inv.milestones.unissued i early).1
  stores := inv.stores
  serializing := inv.lasts.serializing
  barrier := inv.lasts.barrier

end Gem5.FlexCPU
