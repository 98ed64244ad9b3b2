import Gem5.FlexCPU.Isa
import Gem5.Lib.Runs

/-!
# The control block of a split access

`requestSplitMemRead` and `requestSplitMemWrite` queue two closures on `memoryUnit`
that share one `SplitAccCtrlBlk` with each other and with the two completions. A half
is killed when its closure finds the context expired, and the block is released by
whoever finds that nobody else will need it. Deletions are counted, and an access to
the block after its deletion is recorded.
-/

namespace Gem5.FlexCPU

/-- The two halves of a split access. -/
inductive Side where
  | low
  | high
  deriving DecidableEq

def Side.other : Side → Side
  | low => high
  | high => low

theorem Side.other_ne (h : Side) : h.other ≠ h := by cases h <;> simp [Side.other]

/-- `SplitAccCtrlBlk`: for each half whether its packet pointer is set and whether its
response was received. -/
structure SplitAccCtrlBlk where
  ptr : Side → Bool := fun _ => true
  received : Side → Bool := fun _ => false

/-- A split access with the closures still queued, the entries of `outstandingMemReqs`,
the deletions so far and the arguments of its callback. -/
structure SplitAccess where
  write : Bool
  llsc : Side → Bool := fun _ => false
  expired : Bool := false
  queued : Side → Bool := fun _ => true
  outstanding : Side → Bool := fun _ => false
  sent : Side → Bool := fun _ => false
  block : SplitAccCtrlBlk := {}
  blockDeletes : Nat := 0
  mainDeletes : Nat := 0
  packetDeletes : Side → Nat := fun _ => 0
  useAfterFree : Bool := false
  callbacks : List (Option Fault) := []
  panicked : Bool := false

namespace SplitAccess

def flip (f : Side → Bool) (h : Side) (b : Bool) : Side → Bool := fun q => if q = h then b else f q

/-- A read or write through the pointer to the block. -/
def deref (s : SplitAccess) : SplitAccess :=
  { s with useAfterFree := s.useAfterFree || decide (0 < s.blockDeletes) }

/-- `delete split->main; delete split`. -/
def release (s : SplitAccess) : SplitAccess :=
  { s.deref with mainDeletes := s.mainDeletes + 1, blockDeletes := s.blockDeletes + 1 }

def deletePacket (s : SplitAccess) (h : Side) : SplitAccess :=
  { s with packetDeletes := fun q => if q = h then s.packetDeletes h + 1 else s.packetDeletes q }

/-- The closure of half `h` on `memoryUnit`, with its result. The low half of a read
returns `false` also when it was sent; a store conditional that lost its reservation
panics. -/
def request (s : SplitAccess) (h : Side) (reserved : Bool) : SplitAccess × Bool :=
  let s := s.deref
  if s.expired then
    let s := { s.deletePacket h with
      queued := flip s.queued h false
      block := { s.block with ptr := flip s.block.ptr h false } }
    (if !s.block.ptr h.other || s.block.received h.other then s.release else s, false)
  else if s.write && s.llsc h && !reserved then ({ s with panicked := true }, false)
  else
    ({ s with
      queued := flip s.queued h false
      outstanding := flip s.outstanding h true
      sent := flip s.sent h true }, s.write || h == .high)

/-- `completeMemAccess` for half `h` of a split access. -/
def completeMemAccess (s : SplitAccess) (h : Side) (fault : Option Fault) : SplitAccess :=
  let s := s.deref
  let s := { s with block := { s.block with received := flip s.block.received h true } }
  if !s.block.ptr .low || !s.block.ptr .high then s.release
  else if !(s.block.received .low && s.block.received .high) then s
  else
    { s.release with
      callbacks := s.callbacks ++ [if !s.expired && !s.write then fault else none] }

/-- `DataPort::recvTimingResp`. -/
def recvTimingResp (s : SplitAccess) (h : Side) (fault : Option Fault) : SplitAccess :=
  let s := s.completeMemAccess h fault
  { s.deletePacket h with outstanding := flip s.outstanding h false }

inductive Event where
  | expire
  | dispatch (reserved : Bool)
  | respond (h : Side) (fault : Option Fault)

/-- `memoryUnit` runs the closures in order; a response needs an outstanding request. -/
def step (s : SplitAccess) : Event → SplitAccess
  | .expire => if s.panicked then s else { s with expired := true }
  | .dispatch reserved =>
    if s.panicked then s
    else if s.queued .low then (s.request .low reserved).1
    else if s.queued .high then (s.request .high reserved).1
    else s
  | .respond h fault =>
    if s.panicked || !s.outstanding h then s else s.recvTimingResp h fault

/-- `requestSplitMemRead` and `requestSplitMemWrite` up to the queued closures. -/
def create (write : Bool) (llsc : Side → Bool) : SplitAccess := { write := write, llsc := llsc }

abbrev Reachable (write : Bool) (llsc : Side → Bool) : SplitAccess → Prop :=
  Runs.Reaches step Runs.Free (create write llsc)

end SplitAccess

/-- What has become of one half. -/
inductive Phase where
  | waiting
  | sent
  | answered
  | killed
  deriving DecidableEq

/-- Nobody will use the block for this half any more. -/
def Phase.done : Phase → Bool
  | waiting => false
  | sent => false
  | answered => true
  | killed => true

namespace SplitAccess

variable {s : SplitAccess} {h : Side} {phase : Side → Phase}

/-- The state of a split access is that of its two halves. -/
structure Follows (s : SplitAccess) (phase : Side → Phase) : Prop where
  queued : ∀ h, s.queued h = decide (phase h = .waiting)
  outstanding : ∀ h, s.outstanding h = decide (phase h = .sent)
  sent : ∀ h, s.sent h = decide (phase h = .sent ∨ phase h = .answered)
  ptr : ∀ h, s.block.ptr h = decide (phase h ≠ .killed)
  received : ∀ h, s.block.received h = decide (phase h = .answered)
  packets : ∀ h, s.packetDeletes h = if (phase h).done then 1 else 0
  inOrder : phase .low = .waiting → phase .high = .waiting
  expired : ∀ h, phase h = .killed → s.expired = true
  block : s.blockDeletes = if (phase .low).done && (phase .high).done then 1 else 0
  main : s.mainDeletes = s.blockDeletes
  callbacks : s.callbacks.length
    = if phase .low = .answered ∧ phase .high = .answered then 1 else 0
  safe : s.useAfterFree = false

theorem follows_create (write : Bool) (llsc : Side → Bool) :
    (create write llsc).Follows fun _ => .waiting := by
  constructor <;> simp [create, Phase.done]

theorem Follows.expire (f : s.Follows phase) : ({ s with expired := true }).Follows phase :=
  { f with expired := fun _ _ => rfl }

theorem Follows.deref (f : s.Follows phase) (busy : (phase h).done = false) : s.deref = s := by
  have none : s.blockDeletes = 0 := by
    rw [f.block]
    cases h <;> simp [busy]
  have live : decide (0 < s.blockDeletes) = false := by simp [none]
  rw [SplitAccess.deref, live, Bool.or_false]

theorem Follows.send (f : s.Follows phase) (waiting : phase h = .waiting)
    (first : h = .high → phase .low ≠ .waiting) :
    ({ s with
      queued := flip s.queued h false
      outstanding := flip s.outstanding h true
      sent := flip s.sent h true }).Follows (Function.update phase h .sent) := by
  have same : ∀ q, (Function.update phase h .sent q).done = (phase q).done := by
    intro q
    by_cases self : q = h
    · subst self
      simp [waiting, Phase.done]
    · simp [self]
  have answered : ∀ q, Function.update phase h .sent q = .answered ↔ phase q = .answered := by grind
  have killed : ∀ q, Function.update phase h .sent q = .killed ↔ phase q = .killed := by grind
  refine
    { queued := fun q => ?_
      outstanding := fun q => ?_
      sent := fun q => ?_
      ptr := fun q => by simp [f.ptr, killed]
      received := fun q => by simp [f.received, answered]
      packets := fun q => by simp only [f.packets, same]
      inOrder := fun low => ?_
      expired := fun q dead => f.expired q ((killed q).mp dead)
      block := by simp only [f.block, same]
      main := f.main
      callbacks := by simp only [f.callbacks, answered]
      safe := f.safe }
  · by_cases self : q = h <;> simp [flip, self, f.queued]
  · by_cases self : q = h <;> simp [flip, self, f.outstanding]
  · by_cases self : q = h <;> simp [flip, self, f.sent]
  · cases h with
    | low => simp at low
    | high => grind

theorem Follows.other_done (f : s.Follows phase) (h : Side) :
    (!s.block.ptr h.other || s.block.received h.other) = (phase h.other).done := by
  rw [f.ptr, f.received]
  cases phase h.other <;> rfl

theorem done_both {p : Phase} (busy : (phase h).done = false) (finish : p.done = true) :
    ((Function.update phase h p .low).done && (Function.update phase h p .high).done)
      = (phase h.other).done ∧ ((phase .low).done && (phase .high).done) = false := by
  cases h <;> simp [Side.other, busy, finish]

theorem Follows.finish (f : s.Follows phase) {p : Phase} (busy : (phase h).done = false)
    (finish : p.done = true) {t : SplitAccess}
    (deletes : t.blockDeletes = if (phase h.other).done then s.blockDeletes + 1 else s.blockDeletes)
    (mains : t.mainDeletes = if (phase h.other).done then s.mainDeletes + 1 else s.mainDeletes)
    (packets : t.packetDeletes = fun q => if q = h then s.packetDeletes h + 1 else s.packetDeletes q) :
    (∀ q, t.packetDeletes q = if (Function.update phase h p q).done then 1 else 0)
      ∧ t.blockDeletes = (if (Function.update phase h p .low).done
          && (Function.update phase h p .high).done then 1 else 0)
      ∧ t.mainDeletes = t.blockDeletes := by
  obtain ⟨after, before⟩ := done_both (h := h) (p := p) busy finish
  have none := f.block
  rw [before] at none
  refine ⟨fun q => ?_, ?_, ?_⟩
  · rw [packets]
    by_cases self : q = h
    · subst self
      simp [f.packets, busy, finish]
    · simp [self, f.packets]
  · rw [deletes, after, none]
    rfl
  · rw [deletes, mains, f.main]

theorem Follows.kill (f : s.Follows phase) (waiting : phase h = .waiting)
    (first : h = .high → phase .low ≠ .waiting) (expired : s.expired = true) (reserved : Bool) :
    (s.request h reserved).1.Follows (Function.update phase h .killed) := by
  have busy : (phase h).done = false := by simp [waiting, Phase.done]
  have finished := f.other_done h
  have form : (s.request h reserved).1 = { s.deletePacket h with
      queued := flip s.queued h false
      block := { s.block with ptr := flip s.block.ptr h false }
      blockDeletes := if (phase h.other).done then s.blockDeletes + 1 else s.blockDeletes
      mainDeletes := if (phase h.other).done then s.mainDeletes + 1 else s.mainDeletes } := by
    have none : s.blockDeletes = 0 := by
      rw [f.block]
      cases h <;> simp [busy]
    simp only [request, f.deref busy, expired, flip, deletePacket, h.other_ne, if_false, finished]
    cases (phase h.other).done with
    | true => simp [SplitAccess.release, SplitAccess.deref, none]
    | false => simp
  rw [form]
  obtain ⟨packets, block, main⟩ := f.finish (h := h) (p := .killed) busy rfl
    (t := { s.deletePacket h with
      blockDeletes := if (phase h.other).done then s.blockDeletes + 1 else s.blockDeletes
      mainDeletes := if (phase h.other).done then s.mainDeletes + 1 else s.mainDeletes }) rfl rfl rfl
  refine
    { queued := fun q => ?_
      outstanding := fun q => ?_
      sent := fun q => ?_
      ptr := fun q => ?_
      received := fun q => ?_
      packets := packets
      inOrder := fun low => ?_
      expired := fun _ _ => expired
      block := block
      main := main
      callbacks := ?_
      safe := f.safe }
  · by_cases self : q = h <;> simp [flip, self, f.queued]
  · by_cases self : q = h <;> simp [self, f.outstanding, deletePacket, waiting]
  · by_cases self : q = h <;> simp [self, f.sent, deletePacket, waiting]
  · by_cases self : q = h <;> simp [flip, self, f.ptr]
  · by_cases self : q = h <;> simp [self, f.received, waiting]
  · cases h with
    | low => simp at low
    | high => exact absurd (by simpa using low) (first rfl)
  · have := f.callbacks
    cases h <;> simp_all [deletePacket]

theorem Follows.answer (f : s.Follows phase) (sent : phase h = .sent) (fault : Option Fault) :
    (s.recvTimingResp h fault).Follows (Function.update phase h .answered) := by
  have busy : (phase h).done = false := by simp [sent, Phase.done]
  have none : s.blockDeletes = 0 := by
    rw [f.block]
    cases h <;> simp [busy]
  obtain ⟨result, form⟩ : ∃ result, s.recvTimingResp h fault = { s.deletePacket h with
      outstanding := flip s.outstanding h false
      block := { s.block with received := flip s.block.received h true }
      blockDeletes := if (phase h.other).done then s.blockDeletes + 1 else s.blockDeletes
      mainDeletes := if (phase h.other).done then s.mainDeletes + 1 else s.mainDeletes
      callbacks := if phase h.other = .answered then s.callbacks ++ [result] else s.callbacks } := by
    have ptrs := f.ptr
    have received := f.received
    simp only [recvTimingResp, completeMemAccess, SplitAccess.release, SplitAccess.deref,
      deletePacket]
    cases h with
    | low => cases other : phase .high <;>
        simp [Side.other, flip, ptrs, received, sent, other, none, Phase.done]
    | high => cases other : phase .low <;>
        simp [Side.other, flip, ptrs, received, sent, other, none, Phase.done]
  rw [form]
  obtain ⟨packets, block, main⟩ := f.finish (h := h) (p := .answered) busy rfl
    (t := { s.deletePacket h with
      blockDeletes := if (phase h.other).done then s.blockDeletes + 1 else s.blockDeletes
      mainDeletes := if (phase h.other).done then s.mainDeletes + 1 else s.mainDeletes }) rfl rfl rfl
  refine
    { queued := fun q => ?_
      outstanding := fun q => ?_
      sent := fun q => ?_
      ptr := fun q => ?_
      received := fun q => ?_
      packets := packets
      inOrder := fun low => ?_
      expired := fun q dead => ?_
      block := block
      main := main
      callbacks := ?_
      safe := f.safe }
  · by_cases self : q = h <;> simp [self, f.queued, deletePacket, sent]
  · by_cases self : q = h <;> simp [flip, self, f.outstanding]
  · by_cases self : q = h <;> simp [self, f.sent, deletePacket, sent]
  · by_cases self : q = h <;> simp [self, f.ptr, sent]
  · by_cases self : q = h <;> simp [flip, self, f.received]
  · cases h with
    | low => simp at low
    | high =>
      have waiting : phase .low = .waiting := by simpa using low
      have := f.inOrder waiting
      rw [sent] at this
      cases this
  · by_cases self : q = h
    · simp [self] at dead
    · exact f.expired q (by simpa [self] using dead)
  · have before := f.callbacks
    cases h with
    | low => cases other : phase .high <;> simp [Side.other, sent, other] at before ⊢ <;> exact before
    | high => cases other : phase .low <;> simp [Side.other, sent, other] at before ⊢ <;> exact before

theorem Follows.request (f : s.Follows phase) (waiting : phase h = .waiting)
    (first : h = .high → phase .low ≠ .waiting) (reserved : Bool) :
    ∃ phase, (s.request h reserved).1.Follows phase := by
  have busy : (phase h).done = false := by simp [waiting, Phase.done]
  by_cases expired : s.expired = true
  · exact ⟨_, f.kill waiting first expired reserved⟩
  · simp only [SplitAccess.request, f.deref busy]
    rw [if_neg expired]
    split
    · exact ⟨phase, { f with }⟩
    · exact ⟨_, f.send waiting first⟩

theorem Follows.step (f : s.Follows phase) (e : Event) : ∃ phase, (s.step e).Follows phase := by
  cases e with
  | expire =>
    simp only [SplitAccess.step]
    split
    · exact ⟨phase, f⟩
    · exact ⟨phase, f.expire⟩
  | dispatch reserved =>
    simp only [SplitAccess.step]
    split
    · exact ⟨phase, f⟩
    split
    · rename_i low
      rw [f.queued, decide_eq_true_eq] at low
      exact f.request low (fun eq => by cases eq) reserved
    rename_i low
    split
    · rename_i high
      rw [f.queued, decide_eq_true_eq] at low high
      exact f.request high (fun _ => low) reserved
    · exact ⟨phase, f⟩
  | respond h fault =>
    simp only [SplitAccess.step]
    split
    · exact ⟨phase, f⟩
    · rename_i enabled
      have sent : s.outstanding h = true := by
        cases out : s.outstanding h <;> simp_all
      rw [f.outstanding, decide_eq_true_eq] at sent
      exact ⟨_, f.answer sent fault⟩

/-- The block and its main packet are deleted at most once and not used afterwards; they
are deleted when both halves are done, and the callback is called once, when both halves
were sent and answered. -/
theorem split_block_released_once {write : Bool} {llsc : Side → Bool}
    (run : Reachable write llsc s) :
    s.useAfterFree = false ∧ s.blockDeletes ≤ 1 ∧ s.mainDeletes = s.blockDeletes
      ∧ ((∀ h, s.queued h = false ∧ s.outstanding h = false) → s.blockDeletes = 1)
      ∧ s.callbacks.length ≤ 1
      ∧ (s.callbacks.length = 1 ↔ ∀ h, s.sent h = true ∧ s.block.received h = true) := by
  obtain ⟨phase, f⟩ : ∃ phase, s.Follows phase :=
    Runs.Reaches.invariant (P := fun s => ∃ phase, s.Follows phase) run
      ⟨_, follows_create write llsc⟩ fun s e ⟨phase, f⟩ _ => f.step e
  refine ⟨f.safe, ?_, f.main, fun idle => ?_, ?_, ?_⟩
  · rw [f.block]
    split <;> simp
  · have done : ∀ h, (phase h).done = true := by
      intro h
      obtain ⟨queued, outstanding⟩ := idle h
      rw [f.queued] at queued
      rw [f.outstanding] at outstanding
      cases at_ : phase h <;> simp_all [Phase.done]
    rw [f.block, done, done]
    rfl
  · rw [f.callbacks]
    split <;> simp
  · rw [f.callbacks]
    constructor
    · intro one h
      have both : phase .low = .answered ∧ phase .high = .answered := by
        by_contra other
        simp [other] at one
      rw [f.sent, f.received]
      cases h <;> simp [both]
    · intro all
      have answered : ∀ h, phase h = .answered := fun h => by
        have := (all h).2
        rwa [f.received, decide_eq_true_eq] at this
      simp [answered]

/-- The low half of a read is answered, then the context expires and the high half is killed. -/
theorem split_block_released_once_killed :
    (Runs.run step (create false fun _ => false)
        [.dispatch true, .respond .low none, .expire, .dispatch true]).blockDeletes = 1
      ∧ (Runs.run step (create false fun _ => false)
        [.dispatch true, .respond .low none, .expire, .dispatch true]).callbacks = []
      ∧ (Runs.run step (create false fun _ => false)
        [.dispatch true, .respond .low none, .expire, .dispatch true]).useAfterFree = false :=
  ⟨by decide, by decide, (split_block_released_once (Runs.reaches_run ..)).1⟩

end SplitAccess

end Gem5.FlexCPU
