import Gem5.FlexCPU.StatusOrder

/-!
# The buffer between events, and stores

Two guarantees that hold in every run. Between events the buffer is numbered without
gaps from the last committed instruction, and squashed or unissued instructions are
only found at its end. A store is sent to memory when everything older is committed,
so that nothing can squash it any more.
-/

namespace Gem5.FlexCPU

open Thread

variable {cfg : Config} {tc : ThreadContext} {t : Thread}

/-- The shape of the buffer. -/
structure Thread.WellNumbered (cfg : Config) (t : Thread) : Prop where
  numbers : ∀ k i, t.inflightInsts[k]? = some i →
    (t.insts i).seqNum = t.lastCommittedInstNum + k + 1
  issued : ∀ i ∈ t.inflightInsts, (t.insts i).status < .issued → t.back = some i
  squashed : ∀ i ∈ t.inflightInsts, (t.insts i).squashed = true →
    t.back = some i ∧ (t.insts i).fault.isSome = true
  size : 0 < cfg.inflightInstsMaxSize → t.inflightInsts.length ≤ cfg.inflightInstsMaxSize

/-- Between events the buffer of every reachable state is well numbered. -/
theorem buffer_well_numbered (run : Reachable cfg tc t) (between : t.calls = []) :
    t.WellNumbered cfg := by
  have inv : Inv cfg t := Guarded.inv run
  refine ⟨fun k i at_ => ?_, fun i mem early => ?_, fun i mem squashed => ?_, fun limit => ?_⟩
  · have number := inv.buffer.numbered k i at_
    rw [between] at number
    simpa using number
  · by_contra notLast
    exact absurd (inv.buffer.issued i mem notLast) (Nat.not_le.mpr early)
  · obtain ⟨last, fault, -⟩ := inv.buffer.squashed i mem squashed
    exact ⟨last, fault⟩
  · exact inv.buffer.size (Nat.ne_of_gt limit)

/-- A store and its successor are in flight. -/
def storeIssued : List Event := Event.firstFetch storeProgram ++ Event.served {} 0 2

theorem buffer_well_numbered_store :
    (Thread.play storeConfig .boot storeIssued).WellNumbered storeConfig
      ∧ (Thread.play storeConfig .boot storeIssued).inflightInsts = [0, 1] :=
  ⟨buffer_well_numbered (Thread.reachable_play storeConfig .boot storeIssued) (by decide +kernel),
    by decide +kernel⟩

namespace Order

variable {s s' : Order} {a : Action} {i : InstId}

theorem Wf.older_committed (wf : s.Wf) (live : s.Live i) (issued : Status.issued ≤ (s.mark i).status)
    (store : (s.mark i).static.isStore = true) (ready : s.due .mem i = 0) (j : InstId) (lt : j < i)
    (unsquashed : (s.mark j).squashed = false) : (s.mark j).fired .commit = 1 := by
  by_cases inside : j ∈ s.buffer
  · by_contra open_
    have le := wf.fired_le j .commit
    have none : (s.mark j).fired .commit = 0 := by
      simp only [Milestone.announcements] at le
      omega
    obtain ⟨q, -, dep, silent⟩ := wf.stores i live.1 live.2 store issued j inside lt none
    have due : 0 < s.due .mem i := Latch.due_pos dep (by simp [silent, Milestone.announcements])
    omega
  · exact (wf.left j (Nat.lt_trans lt (wf.bounded i live.1)) inside unsquashed).1

/-- Everything older than a store that was sent is committed. -/
def StoresInOrder (s : Order) : Prop :=
  ∀ i ∈ s.sends, i < s.next ∧ Status.issued ≤ (s.mark i).status
    ∧ ((s.mark i).static.isStore = true → ∀ j, j < i → (s.mark j).squashed = false →
      (s.mark j).fired .commit = 1)

theorem StoresInOrder.step (wf : s.Wf) (h : StoresInOrder s) (step : Step cfg s a s') :
    StoresInOrder s' := by
  have later : ∀ i, i < s.next → Status.issued ≤ (s.mark i).status →
      ((s.mark i).static.isStore = true → ∀ j, j < i → (s.mark j).squashed = false →
        (s.mark j).fired .commit = 1) →
      i < s'.next ∧ Status.issued ≤ (s'.mark i).status
        ∧ ((s'.mark i).static.isStore = true → ∀ j, j < i → (s'.mark j).squashed = false →
          (s'.mark j).fired .commit = 1) := by
    intro i lt issued older
    refine ⟨Nat.lt_of_lt_of_le lt step.next_le,
      step.keeps_reached wf (by simp [Status.le_iff, Status.rank]) issued, ?_⟩
    intro store j before unsquashed
    rw [(step.static lt issued).1] at store
    exact step.fired_commit wf (older store j before (step.unsquashed wf j unsquashed))
  have new : ∀ i, s.Live i → (s.mark i).status = .effAddred → s.due .mem i = 0 →
      i < s'.next ∧ Status.issued ≤ (s'.mark i).status
        ∧ ((s'.mark i).static.isStore = true → ∀ j, j < i → (s'.mark j).squashed = false →
          (s'.mark j).fired .commit = 1) := by
    intro i live status ready
    have issued : Status.issued ≤ (s.mark i).status := by
      simp [status, Status.le_iff, Status.rank]
    exact later i (wf.bounded i live.1) issued fun store =>
      wf.older_committed live issued store ready
  intro i mem
  rw [step.sends] at mem
  rcases List.mem_append.mp mem with old | added
  · obtain ⟨lt, issued, older⟩ := h i old
    exact later i lt issued older
  · cases step with
    | send live status memRef ready => grind [Action.sent]
    | @sendFault x a vs buffer unsquashed pending status memRef ready =>
      obtain rfl : i = x := by simpa [Action.sent] using added
      exact new i ⟨by simp [buffer], unsquashed⟩ status ready
    | _ => simp [Action.sent] at added

/-- A store that nothing in the buffer can squash. -/
structure Safe (s : Order) (i : InstId) : Prop where
  unsquashed : (s.mark i).squashed = false
  store : (s.mark i).static.isStore = true
  sent : Status.memorying ≤ (s.mark i).status
  allocated : i < s.next
  older : ∀ j ∈ s.buffer, j < i → (s.mark j).fired .commit = 1

theorem Safe.outside {x : InstId} {b vs : List InstId} (wf : s.Wf) (h : s.Safe i)
    (buffer : s.buffer = b ++ x :: vs.reverse) (pending : (s.mark x).fired .commit = 0) :
    i ∉ vs := by
  intro victim
  have lt : x < i := Tails.lt_of_later wf.ordered buffer (by simpa using victim)
  have := h.older x (by simp [buffer]) lt
  omega

theorem Safe.step (wf : s.Wf) (h : s.Safe i) (step : Step cfg s a s') : s'.Safe i := by
  have issued : Status.issued ≤ (s.mark i).status :=
    Nat.le_trans (by simp [Status.rank]) h.sent
  have open_ : (s'.mark i).squashed = false := by
    have early : ∀ st : Status, (s.mark i).status = st → st < .memorying → False := by
      intro st status low
      have := h.sent
      rw [status] at this
      exact absurd this (Nat.not_le.mpr low)
    by_contra squashed
    obtain ⟨x, b, vs, buffer, pending, cause⟩ :=
      step.squashes h.allocated h.unsquashed (by simpa using squashed)
    rcases cause with ⟨-, victim⟩ | ⟨kind, victim | rfl⟩
    · exact h.outside wf buffer pending victim
    · exact h.outside wf buffer pending victim
    · rcases kind with rfl | rfl
      · cases step with
        | fault _ _ _ status => grind [h.store, Status.lt_iff, Status.rank]
      · cases step with
        | sendFault _ _ _ status => exact early _ status (by simp [Status.lt_iff, Status.rank])
  refine ⟨open_, ?_, step.keeps_reached wf (by simp [Status.le_iff, Status.rank]) h.sent,
    Nat.lt_of_lt_of_le h.allocated step.next_le, fun j mem lt => ?_⟩
  · rw [(step.static h.allocated issued).1]
    exact h.store
  · rcases step.mem_buffer mem with inside | ⟨-, rfl⟩
    · exact step.fired_commit wf (h.older j inside lt)
    · exact absurd (Nat.lt_trans lt h.allocated) (Nat.lt_irrefl _)

end Order

theorem Inv.safe (inv : Inv cfg t) {r : Request} {p : Packet} (mem : r ∈ t.requests)
    (packet : r.packet = some p) (write : p.write = true) : t.order.Safe p.inst := by
  obtain ⟨unsquashed, older⟩ := inv.writes r mem p packet write
  have self : r.inst = p.inst := by cases r <;> simp_all [Request.packet, Request.inst]
  have fits := inv.tokens.request_fits r mem (self ▸ unsquashed)
  have known : p.write = (t.insts p.inst).staticInst.isStore
      ∧ ((t.insts p.inst).status = .memorying
        ∨ (t.insts p.inst).staticInst.isStore = true ∧ (t.insts p.inst).status = .committed) := by
    cases r with
    | mem q =>
      obtain rfl : q = p := by simpa [Request.packet] using packet
      exact fits.2.2
    | memResp q =>
      obtain rfl : q = p := by simpa [Request.packet] using packet
      exact fits.2.2
    | _ => cases packet
  refine ⟨unsquashed, known.1.symm.trans write, ?_, self ▸ inv.heap.requests_lt r mem, older⟩
  change Status.memorying ≤ (t.insts p.inst).status
  rcases known.2 with status | ⟨-, status⟩
  · simp [status, Status.le_iff]
  · simp [status, Status.le_iff, Status.rank]

/-- Stores are sent when everything older is committed, and once a write is queued its
store is never squashed. -/
theorem no_speculative_store (run : Reachable cfg tc t) :
    (∀ i ∈ t.sends, (t.insts i).staticInst.isStore = true →
      ∀ j, j < i → (t.insts j).squashed = false → (t.insts j).fired .commit = 1)
    ∧ ∀ r ∈ t.requests, ∀ p, r.packet = some p → p.write = true →
      ∀ t', Runs.Reaches (Thread.step cfg) Runs.Free t t' → (t'.insts p.inst).squashed = false := by
  refine ⟨fun i mem => ?_, fun r mem p packet write t' later => ?_⟩
  · have inOrder : t.order.StoresInOrder := by
      refine Guarded.ordered run (fun i mem => by simp [Thread.order, Thread.init] at mem) ?_
      intro o e t a s _ inv _ holds step
      exact holds.step inv.wf step
    exact (inOrder i mem).2.2
  · have inv : Inv cfg t := Guarded.inv run
    have safe : t'.order.Safe p.inst := by
      refine inv.ordered (P := fun s => s.Safe p.inst) later (inv.safe mem packet write) ?_
      intro o e t a s _ inv _ holds step
      exact holds.step inv.wf step
    exact safe.unsquashed

/-- The write of the sample store is outstanding. -/
theorem no_speculative_store_sample :
    (Thread.play storeConfig .boot storeSent).sends = [0]
      ∧ (Request.memResp ⟨0, .main, true⟩) ∈ (Thread.play storeConfig .boot storeSent).requests
      ∧ ∀ t', Runs.Reaches (Thread.step storeConfig) Runs.Free
          (Thread.play storeConfig .boot storeSent) t' → (t'.insts 0).squashed = false := by
  have pending : Request.memResp ⟨0, .main, true⟩
      ∈ (Thread.play storeConfig .boot storeSent).requests := by decide +kernel
  exact ⟨by decide +kernel, pending,
    (no_speculative_store (Thread.reachable_play storeConfig .boot storeSent)).2 _ pending
      ⟨0, .main, true⟩ rfl rfl⟩

end Gem5.FlexCPU
