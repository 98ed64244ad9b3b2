import Gem5.Minor.Fetch1
import Gem5.Minor.Fetch2

/-!
# What a cycle of the fetch stages can do

Fetch2 takes the line of the latch into a buffer and pops; Fetch1 passes requests from one
queue to the other, starts at most one line in a cycle and finishes at most one.
-/

namespace Gem5.Minor

open Function

open FlexCPU (Fault PCState)

variable {n : Nat} {buffers buffers' : LineBuffers} {a : Fetch1Answers}

variable {ι : Type}

open InputBuffer (Popped Serving Served)

theorem Fetch2Thread.popped_popInput (t : Fetch2Thread) :
    Popped t.inputBuffer t.popInput.inputBuffer := by
  simp only [popInput]
  split
  · exact .refl
  · exact .pop .refl

theorem Fetch2Thread.popped_dumpAllInput (t : Fetch2Thread) :
    Popped t.inputBuffer t.dumpAllInput.inputBuffer := by
  have all : ∀ (lines : List ForwardLineData) (u : Fetch2Thread),
      Popped u.inputBuffer (lines.foldl (fun u _ => u.popInput) u).inputBuffer := by
    intro lines
    induction lines with
    | nil => exact fun u => .refl
    | cons _ rest ih => exact fun u => (popped_popInput u).trans (ih u.popInput)
  exact all _ t

theorem Fetch2Thread.popped_discardStale (more : Bool) (fuel : Nat) (t : Fetch2Thread) :
    Popped t.inputBuffer (t.discardStale more fuel).inputBuffer := by
  induction fuel generalizing t with
  | zero => exact .refl
  | succ fuel ih =>
    simp only [discardStale]
    split
    · exact .refl
    · split
      · split
        · exact (popped_popInput t).trans (ih t.popInput.forgetPC)
        · exact popped_popInput t
      · exact .refl

theorem Fetch2Thread.popped_refresh (more : Bool) (t : Fetch2Thread) (blocked : Bool) :
    Popped t.inputBuffer (t.refresh more blocked).inputBuffer :=
  popped_discardStale more _ { t with blocked := blocked }

namespace Extraction

variable {cfg : Fetch2Config} {isa : StaticInsts ι} {predict : FetchedInst ι → Option PCState}

theorem inputBuffer_predictBranch (x : Extraction ι) (inst : FetchedInst ι) (si : ι) :
    (x.predictBranch isa predict inst si).1.inputBuffer = x.inputBuffer := by
  simp only [predictBranch]
  split
  · split <;> rfl
  · rfl

theorem inputBuffer_takeInst (x : Extraction ι) (l : ForwardLineData) :
    (x.takeInst isa predict l).inputBuffer = x.inputBuffer :=
  inputBuffer_predictBranch ..

theorem inputBuffer_offerWord (x : Extraction ι) (l : ForwardLineData) :
    (x.offerWord l).inputBuffer = x.inputBuffer := by
  simp only [offerWord]
  split <;> rfl

theorem inputBuffer_stepIndex (x : Extraction ι) : x.stepIndex.inputBuffer = x.inputBuffer := by
  simp only [stepIndex]
  split <;> rfl

theorem inputBuffer_extract (x : Extraction ι) (l : ForwardLineData) :
    (x.extract isa predict l).inputBuffer = x.inputBuffer := by
  simp only [extract]
  rw [inputBuffer_stepIndex]
  split
  · rw [inputBuffer_takeInst, inputBuffer_offerWord]
  · exact inputBuffer_offerWord x l

theorem inputBuffer_body (x : Extraction ι) (l : ForwardLineData) :
    (x.body isa predict l).inputBuffer = x.inputBuffer := by
  have set : ∀ b : Bool, (if b then x.onThread (·.setPC l) else x).inputBuffer = x.inputBuffer := by
    intro b
    cases b <;> rfl
  simp only [body]
  split
  · exact set _
  · split
    · exact set _
    · rw [inputBuffer_extract]
      exact set _

theorem popped_wrapUp (cfg : Fetch2Config) (x : Extraction ι) (l : ForwardLineData) (stale : Bool) :
    Popped x.inputBuffer (x.wrapUp cfg l stale).inputBuffer := by
  simp only [wrapUp]
  split
  · exact Fetch2Thread.popped_dumpAllInput _
  · split
    · exact Fetch2Thread.popped_popInput _
    · split
      · exact Fetch2Thread.popped_popInput _
      · exact .refl

theorem popped_turn (cfg : Fetch2Config) (isa : StaticInsts ι)
    (predict : FetchedInst ι → Option PCState) (x : Extraction ι) (l : ForwardLineData) :
    Popped x.inputBuffer ((x.body isa predict l).wrapUp cfg l (x.isStale l)).inputBuffer := by
  have dropped := popped_wrapUp cfg (x.body isa predict l) l (x.isStale l)
  rwa [inputBuffer_body] at dropped

theorem popped_loop (fuel : Nat) (x : Extraction ι) :
    Popped x.inputBuffer (loop cfg isa predict fuel x).inputBuffer := by
  induction fuel generalizing x with
  | zero => exact .refl
  | succ fuel ih =>
    simp only [loop]
    split
    · exact .refl
    next l _ =>
      split
      · exact (popped_turn cfg isa predict x l).trans (ih _)
      · exact .refl

end Extraction

namespace Fetch2

variable {cfg : Fetch2Config} {isa : StaticInsts ι}

/-- The line of the latch, for the thread that it belongs to. -/
def incoming (inp : Option ForwardLineData) (tid : Nat) : Option ForwardLineData :=
  inp.filter (·.id.threadId = tid)

@[simp] theorem incoming_self (l : ForwardLineData) : incoming (some l) l.id.threadId = some l := by
  simp [incoming]

theorem incoming_other {l : ForwardLineData} {tid : Nat} (other : l.id.threadId ≠ tid) :
    incoming (some l) tid = none := by
  simp [incoming, other]

theorem inputBuffer_setTail (s : Fetch2) (inp : Option ForwardLineData) (tid : Nat) :
    ((s.setTail inp).threads tid).inputBuffer
      = (s.threads tid).inputBuffer.receive (incoming inp tid) := by
  cases inp with
  | none => rfl
  | some l =>
    by_cases own : l.id.threadId = tid
    · subst own
      simp [setTail, updateThread, InputBuffer.receive]
    · simp [setTail, updateThread, incoming_other own, InputBuffer.receive, Ne.symm own]

theorem popped_takeBranch (s : Fetch2) (branch : Option BranchData) (tid : Nat) :
    Popped (s.threads tid).inputBuffer ((s.takeBranch branch).threads tid).inputBuffer := by
  cases branch with
  | none => exact .refl
  | some b =>
    simp only [takeBranch]
    split
    · by_cases own : tid = b.threadId
      · subst own
        simp only [updateThread, update_self]
        exact Fetch2Thread.popped_dumpAllInput _
      · simp only [updateThread, update_of_ne own]
        exact .refl
    · exact .refl

theorem popped_clearStale (s : Fetch2) (next : Nat → InputBuffer (ForwardInstData ι)) (tid : Nat) :
    Popped (s.threads tid).inputBuffer ((s.clearStale cfg next).threads tid).inputBuffer := by
  simp only [clearStale]
  split
  · exact Fetch2Thread.popped_refresh ..
  · exact .refl

theorem popped_extract (predict : FetchedInst ι → Option PCState) (t : Fetch2Thread) :
    Popped t.inputBuffer (extract cfg isa predict t).inputBuffer :=
  Extraction.popped_loop (Extraction.fuel cfg t.inputBuffer.contents)
    ({ toFetch2Thread := t, lineIn := t.getInput } : Extraction ι)

theorem popped_work (a : Fetch2Answers ι) (s : Fetch2)
    (next : Nat → InputBuffer (ForwardInstData ι)) (tid : Nat) :
    Popped (s.threads tid).inputBuffer
      (((s.work cfg isa a next).fetch2).threads tid).inputBuffer := by
  simp only [work]
  split
  · exact .refl
  next scheduled _ =>
    by_cases own : tid = scheduled
    · subst own
      simp only [updateThread, update_self]
      exact popped_extract ..
    · simp only [updateThread, update_of_ne own]
      exact .refl

theorem inputBuffer_pushTail (s : Fetch2) (inp : Option ForwardLineData) (tid : Nat)
    (settled : incoming inp tid = none → (s.threads tid).inputBuffer.Settled) :
    ((s.pushTail inp).threads tid).inputBuffer = (s.threads tid).inputBuffer.pushTail := by
  cases inp with
  | none => exact (settled rfl).pushTail_eq.symm
  | some l =>
    by_cases own : l.id.threadId = tid
    · subst own
      simp [pushTail, updateThread]
    · have kept := (settled (incoming_other own)).pushTail_eq
      simp [pushTail, updateThread, Ne.symm own, kept]

theorem popped_worked (cfg : Fetch2Config) (isa : StaticInsts ι) (a : Fetch2Answers ι)
    (inp : Option ForwardLineData) (branch : Option BranchData) (s : Fetch2) (next : Nat → InputBuffer (ForwardInstData ι))
    (tid : Nat) :
    Popped ((s.threads tid).inputBuffer.receive (incoming inp tid))
      (((((s.setTail inp).takeBranch branch).clearStale cfg next).work cfg isa a next).fetch2.threads
        tid).inputBuffer := by
  rw [← inputBuffer_setTail]
  exact ((popped_takeBranch _ branch tid).trans (popped_clearStale _ next tid)).trans
    (popped_work a _ next tid)

theorem evaluate_served (cfg : Fetch2Config) (isa : StaticInsts ι) (a : Fetch2Answers ι)
    (inp : Option ForwardLineData) (branch : Option BranchData) (s : Fetch2) (next : Nat → InputBuffer (ForwardInstData ι))
    (tid : Nat) (settled : (s.threads tid).inputBuffer.Settled) :
    Served (s.threads tid).inputBuffer (incoming inp tid)
      ((s.evaluate cfg isa a inp branch next).fetch2.threads tid).inputBuffer := by
  have popped := popped_worked cfg isa a inp branch s next tid
  simp only [evaluate]
  rw [inputBuffer_pushTail]
  · exact settled.served _ popped
  · intro none
    rw [none] at popped
    exact settled.popped popped

end Fetch2

namespace Fetch1

variable {cfg : Fetch1Config} {s s' r : Fetch1}

/-- The requests on their way, in the order in which they were made. -/
def inFlight (s : Fetch1) : List Nat := s.transfers.queue ++ s.requests.queue

/-- A request that the TLB or the memory works on is in the queue for it. -/
structure Placed (s : Fetch1) : Prop where
  translating : ∀ n, (s.reqs n).state = .inTranslation → n ∈ s.requests.queue
  issuing : ∀ n, (s.reqs n).state = .requestIssuing → n ∈ s.transfers.queue

/-- Between two calls of `fetchLine`, requests only pass from one queue to the other. -/
structure Keeps (s s' : Fetch1) : Prop where
  inFlight : s'.inFlight = s.inFlight
  ids : ∀ n, (s'.reqs n).id = (s.reqs n).id
  lineSeqNum : s'.lineSeqNum = s.lineSeqNum
  discarded : s'.discarded = s.discarded
  placed : s.Placed → s'.Placed

theorem Keeps.refl : Keeps s s := ⟨rfl, fun _ => rfl, rfl, rfl, id⟩

theorem Keeps.trans (first : Keeps s s') (second : Keeps s' r) : Keeps s r :=
  ⟨second.inFlight.trans first.inFlight, fun n => (second.ids n).trans (first.ids n),
    second.lineSeqNum.trans first.lineSeqNum, second.discarded.trans first.discarded,
    second.placed ∘ first.placed⟩

theorem keeps_updateThread (s : Fetch1) (tid : Nat) (f : Fetch1ThreadInfo → Fetch1ThreadInfo) :
    Keeps s (s.updateThread tid f) :=
  ⟨rfl, fun _ => rfl, rfl, rfl, fun placed => ⟨placed.translating, placed.issuing⟩⟩

theorem keeps_updateRequest (s : Fetch1) (n : Nat) {f : FetchRequest → FetchRequest}
    (id : (f (s.reqs n)).id = (s.reqs n).id) (state : (f (s.reqs n)).state = (s.reqs n).state ∨ (f
    (s.reqs n)).state ≠ .inTranslation ∧ (f (s.reqs n)).state ≠ .requestIssuing) :
    Keeps s (s.updateRequest n f) := by
  have kept : ∀ m, ((s.updateRequest n f).reqs m).state = (s.reqs m).state ∨
      ((s.updateRequest n f).reqs m).state ≠ .inTranslation
        ∧ ((s.updateRequest n f).reqs m).state ≠ .requestIssuing := by
    intro m
    by_cases same : m = n
    · subst same
      rwa [updateRequest_self]
    · exact .inl (by rw [updateRequest_other same])
  refine ⟨rfl, ?_, rfl, rfl, fun placed => ⟨?_, ?_⟩⟩
  · intro m
    by_cases same : m = n
    · subst same
      rwa [updateRequest_self]
    · rw [updateRequest_other same]
  · intro m waits
    rcases kept m with same | ⟨not, -⟩
    · exact placed.translating m (same.symm.trans waits)
    · exact absurd waits not
  · intro m waits
    rcases kept m with same | ⟨-, not⟩
    · exact placed.issuing m (same.symm.trans waits)
    · exact absurd waits not

theorem keeps_move (s : Fetch1) {f : FetchRequest → FetchRequest}
    (front : s.requests.queue.head? = some n) (id : (f (s.reqs n)).id = (s.reqs n).id)
    (state : (f (s.reqs n)).state ≠ .inTranslation) :
    Keeps s ((s.updateRequest n f).moveFromRequestsToTransfers n) := by
  obtain ⟨rest, requests⟩ := List.head?_eq_some_iff.mp front
  refine ⟨?_, ?_, rfl, rfl, fun placed => ⟨?_, ?_⟩⟩
  · simp [inFlight, moveFromRequestsToTransfers, Queue.pop, Queue.push, requests]
  · intro m
    rw [moveFromRequestsToTransfers_reqs]
    by_cases same : m = n
    · subst same
      rwa [updateRequest_self]
    · rw [updateRequest_other same]
  · intro m waits
    rw [moveFromRequestsToTransfers_reqs] at waits
    have other : m ≠ n := by grind [updateRequest_self]
    rw [updateRequest_other other] at waits
    have inside := placed.translating m waits
    simpa [moveFromRequestsToTransfers, Queue.pop, requests, other] using inside
  · intro m waits
    rw [moveFromRequestsToTransfers_reqs] at waits
    simp only [moveFromRequestsToTransfers, Queue.push, List.mem_append, List.mem_singleton]
    by_cases same : m = n
    · exact .inr same
    · rw [updateRequest_other same] at waits
      exact .inl (placed.issuing m waits)

theorem keeps_makePacket (s : Fetch1) (n : Nat) : Keeps s (s.makePacket n) :=
  keeps_updateRequest s n rfl (.inl rfl)

theorem keeps_send (s : Fetch1) (front : s.requests.queue.head? = some n) (sent : Bool) :
    Keeps s (if sent then (s.tryToSend n sent).moveFromRequestsToTransfers n
      else s.tryToSend n sent) := by
  cases sent with
  | true =>
    simp only [tryToSend, if_true]
    exact keeps_move s front rfl (by simp)
  | false =>
    exact ⟨rfl, fun _ => rfl, rfl, rfl, fun placed => ⟨placed.translating, placed.issuing⟩⟩

theorem keeps_tryToSendToTransfers (s : Fetch1) (inside : n ∈ s.requests.queue)
    (sent : Bool) : Keeps s (s.tryToSendToTransfers n sent) := by
  simp only [tryToSendToTransfers]
  split
  · exact .refl
  next first =>
    have front : s.requests.queue.head? = some n := by grind
    split
    · exact .refl
    · split
      · exact keeps_move s front rfl (by simp)
      · split
        · exact (keeps_makePacket s n).trans (keeps_send (s.makePacket n) front sent)
        · exact .refl

theorem keeps_finish (s : Fetch1) (fault : Option Fault) (sent : Bool)
    (inside : n ∈ s.requests.queue) : Keeps s (s.finish n fault sent) := by
  have translated : Keeps s (s.updateRequest n fun r =>
      { r with fault := fault, state := .translated }) :=
    keeps_updateRequest s n rfl (.inr (by simp))
  exact translated.trans (keeps_tryToSendToTransfers (s.updateRequest n _) inside sent)

theorem keeps_recvTimingResp (s : Fetch1) (n : Nat) (bytes : Nat → BitVec 8) :
    Keeps s (s.recvTimingResp n bytes) :=
  keeps_updateRequest s n rfl (.inr (by simp))

theorem keeps_recvReqRetry (s : Fetch1) (sent : Bool) : Keeps s (s.recvReqRetry sent) := by
  simp only [recvReqRetry]
  split
  · exact .refl
  next n rest requests =>
    have calm : Keeps s { s with icacheState := .running } :=
      ⟨rfl, fun _ => rfl, rfl, rfl, fun placed => ⟨placed.translating, placed.issuing⟩⟩
    exact calm.trans (keeps_send { s with icacheState := .running } (by simp [requests]) sent)

theorem keeps_changeStream (s : Fetch1) (branch : BranchData) : Keeps s (s.changeStream branch) :=
  (keeps_updateThread s branch.threadId _).trans (keeps_updateThread _ branch.threadId _)

theorem keeps_takeExecuteBranch (s : Fetch1) (branch : BranchData) :
    Keeps s (s.takeExecuteBranch branch) := by
  simp only [takeExecuteBranch]
  split
  · exact keeps_changeStream s branch
  · exact .refl

theorem keeps_takePrediction (s : Fetch1) (branch : BranchData) :
    Keeps s (s.takePrediction branch) := by
  simp only [takePrediction]
  split
  · exact keeps_changeStream s branch
  · exact .refl

theorem keeps_takeBranches (s : Fetch1) (execute prediction : Option BranchData) :
    Keeps s (s.takeBranches execute prediction) := by
  simp only [takeBranches]
  split
  · split
    · grind [keeps_takeExecuteBranch, keeps_takePrediction]
    · exact (keeps_takeExecuteBranch s _).trans (keeps_takePrediction _ _)
  · exact keeps_takeExecuteBranch s _
  · exact keeps_takePrediction s _
  · exact .refl

theorem keeps_stepQueues (s : Fetch1) (sent : Bool) : Keeps s (s.stepQueues sent) := by
  simp only [stepQueues]
  split
  next requests => exact keeps_tryToSendToTransfers s (by simp [requests]) sent
  · exact .refl

/-- A new request joins the others and names its thread. -/
structure Fetches (s : Fetch1) (tid : Nat) (s' : Fetch1) : Prop where
  inFlight : s'.inFlight = s.inFlight ++ [s.lineSeqNum]
  old : ∀ n, n ≠ s.lineSeqNum → (s'.reqs n).id = (s.reqs n).id
  threadId : (s'.reqs s.lineSeqNum).id.threadId = tid
  name : (s'.reqs s.lineSeqNum).id.lineSeqNum = s.lineSeqNum
  lineSeqNum : s'.lineSeqNum = s.lineSeqNum + 1
  discarded : s'.discarded = s.discarded
  placed : s.Placed → s'.Placed

theorem fetches_fetchLine (cfg : Fetch1Config) (s : Fetch1) (tid : Nat) (translation : Option (Option Fault))
    (sent : Bool) : Fetches s tid (s.fetchLine cfg tid translation sent) := by
  let request : FetchRequest :=
    { id := ⟨tid, (s.fetchInfo tid).streamSeqNum, (s.fetchInfo tid).predictionSeqNum,
        s.lineSeqNum⟩
      pc := (s.fetchInfo tid).pc
      vaddr := alignedPC cfg (s.fetchInfo tid).pc
      size := requestSize cfg (s.fetchInfo tid).pc
      state := .inTranslation }
  let made : Fetch1 := { s with
    reqs := Function.update s.reqs s.lineSeqNum request
    transfers := s.transfers.reserve
    requests := s.requests.push s.lineSeqNum }
  have inside : s.lineSeqNum ∈ made.requests.queue := by simp [made, Queue.push]
  have answered : ∃ t, Keeps made t ∧ (s.fetchLine cfg tid translation sent) =
      { t with lineSeqNum := s.lineSeqNum + 1 }.updateThread tid fun u =>
        { u with pc := .ofAddr (request.vaddr + BitVec.ofNat 64 request.size) } := by
    cases translation with
    | none => exact ⟨made, .refl, rfl⟩
    | some fault => exact ⟨_, keeps_finish made fault sent inside, rfl⟩
  obtain ⟨t, kept, same⟩ := answered
  have placed : s.Placed → made.Placed := by
    intro placed
    constructor
    · intro n waits
      by_cases new : n = s.lineSeqNum
      · exact new ▸ inside
      · simp only [made, update_of_ne new] at waits
        simp [made, Queue.push, placed.translating n waits]
    · intro n waits
      by_cases new : n = s.lineSeqNum
      · subst new
        simp [made] at waits
      · simp only [made, update_of_ne new] at waits
        exact placed.issuing n waits
  rw [same]
  refine ⟨?_, ?_, ?_, ?_, rfl, kept.discarded, fun old => ?_⟩
  · change t.inFlight = _
    rw [kept.inFlight]
    simp [made, inFlight, Queue.push, Queue.reserve]
  · intro n other
    refine (kept.ids n).trans ?_
    simp [made, update_of_ne other]
  · refine (congrArg LineId.threadId (kept.ids s.lineSeqNum)).trans ?_
    simp [made, request]
  · refine (congrArg LineId.lineSeqNum (kept.ids s.lineSeqNum)).trans ?_
    simp [made, request]
  · have later := kept.placed (placed old)
    exact ⟨later.translating, later.issuing⟩

/-- The front of the transfers leaves. -/
structure Pops (s : Fetch1) (n : Nat) (s' : Fetch1) : Prop where
  inFlight : s.inFlight = n :: s'.inFlight
  ids : ∀ m, (s'.reqs m).id = (s.reqs m).id
  lineSeqNum : s'.lineSeqNum = s.lineSeqNum
  placed : s.Placed → s'.Placed

/-- What becomes of the front of the transfers in one cycle. -/
inductive Takes (s : Fetch1) (buffers : LineBuffers) :
    Fetch1 → LineBuffers → Option ForwardLineData → Prop where
  | idle : Takes s buffers s buffers none
  | discard {n : Nat} {s' : Fetch1} (pops : Pops s n s') (discarded : s'.discarded = s.discarded ++ [n]) :
      Takes s buffers s' (Function.update buffers (s.reqs n).id.threadId
        (buffers (s.reqs n).id.threadId).freeReservation) none
  | deliver {n : Nat} {s' : Fetch1} {line : ForwardLineData} (pops : Pops s n s') (discarded : s'.discarded = s.discarded)
      (id : line.id = (s.reqs n).id) : Takes s buffers s' buffers (some line)

theorem pops_front {s : Fetch1} {rest : List Nat} (front : s.transfers.queue = n :: rest)
    (complete : (s.reqs n).state = .complete) (log : List Nat) :
    Pops s n { s with transfers := s.transfers.pop, discarded := log } := by
  refine ⟨by simp [inFlight, front, Queue.pop], fun _ => rfl, rfl, fun placed => ?_⟩
  refine ⟨placed.translating, fun m waits => ?_⟩
  have inside := placed.issuing m waits
  have other : m ≠ n := by grind
  simpa [Queue.pop, front, other] using inside

theorem keeps_processResponse {s s' : Fetch1} {line : ForwardLineData}
    (response : s.processResponse n = some (s', line)) :
    Keeps s s' ∧ s'.transfers = s.transfers ∧ (s'.reqs n).state = (s.reqs n).state
      ∧ line.id = (s.reqs n).id := by
  simp only [processResponse] at response
  split at response
  · cases response
    exact ⟨keeps_updateThread s _ _, rfl, rfl, rfl⟩
  · cases response
    exact ⟨keeps_updateRequest s n rfl (.inl rfl), rfl, by simp, rfl⟩
  · cases response

theorem takes_of_takeResponse {s s' : Fetch1} {line : Option ForwardLineData}
    (taken : s.takeResponse buffers = some (s', buffers', line)) :
    Takes s buffers s' buffers' line := by
  simp only [takeResponse] at taken
  split at taken
  · cases taken
    exact .idle
  next n rest front =>
    split at taken
    · cases taken
      exact .idle
    next complete =>
      rw [not_not] at complete
      split at taken
      · cases taken
        exact .discard (pops_front front complete _) rfl
      · split at taken
        next r l response =>
          cases taken
          obtain ⟨kept, transfers, state, id⟩ := keeps_processResponse response
          have pops : Pops r n _ :=
            pops_front (transfers ▸ front) (state.trans complete) r.discarded
          refine .deliver ⟨?_, ?_, ?_, ?_⟩ kept.discarded id
          · exact kept.inFlight ▸ pops.inFlight
          · exact fun m => (pops.ids m).trans (kept.ids m)
          · exact pops.lineSeqNum.trans kept.lineSeqNum
          · exact pops.placed ∘ kept.placed
        · cases taken

/-- A cycle fetches at most one line, for a thread with a free slot. -/
inductive Starts (cfg : Fetch1Config) (s : Fetch1) (buffers : LineBuffers) :
    Fetch1 → LineBuffers → Prop where
  | idle {s' : Fetch1} (kept : Keeps s s') : Starts cfg s buffers s' buffers
  | fetch {tid : Nat} {s' : Fetch1} (thread : tid < cfg.numThreads) (room : (buffers tid).canReserve = true)
      (fetches : Fetches s tid s') :
      Starts cfg s buffers s' (Function.update buffers tid (buffers tid).reserve)

theorem blocked_changeStream (s : Fetch1) (branch : BranchData) (tid : Nat) :
    ((s.changeStream branch).fetchInfo tid).blocked = (s.fetchInfo tid).blocked := by
  by_cases own : tid = branch.threadId
  · subst own
    simp [changeStream, updateExpectedSeqNums, updateThread]
  · simp [changeStream, updateExpectedSeqNums, updateThread, own]

theorem blocked_takeExecuteBranch (s : Fetch1) (branch : BranchData) (tid : Nat) :
    ((s.takeExecuteBranch branch).fetchInfo tid).blocked = (s.fetchInfo tid).blocked := by
  simp only [takeExecuteBranch]
  split
  · exact blocked_changeStream s branch tid
  · rfl

theorem blocked_takePrediction (s : Fetch1) (branch : BranchData) (tid : Nat) :
    ((s.takePrediction branch).fetchInfo tid).blocked = (s.fetchInfo tid).blocked := by
  simp only [takePrediction]
  split
  · exact blocked_changeStream s branch tid
  · rfl

theorem blocked_takeBranches (s : Fetch1) (execute prediction : Option BranchData) (tid : Nat) :
    ((s.takeBranches execute prediction).fetchInfo tid).blocked = (s.fetchInfo tid).blocked := by
  simp only [takeBranches]
  split
  · grind [blocked_takePrediction, blocked_takeExecuteBranch]
  · exact blocked_takeExecuteBranch ..
  · exact blocked_takePrediction ..
  · rfl

theorem room_of_scheduled {execute prediction : Option BranchData} {tid : Nat}
    (thread : tid < cfg.numThreads) (scheduled : ((s.markBlocked cfg buffers).takeBranches execute
    prediction).getScheduledThread a = some tid) : (buffers tid).canReserve = true := by
  have free := List.find?_some scheduled
  simp only [blocked_takeBranches, Bool.and_eq_true] at free
  simpa [markBlocked, thread] using free.1.2

theorem starts_startFetch (threads : ∀ tid ∈ a.priorityList, tid < cfg.numThreads) (room : ∀ tid,
    tid < cfg.numThreads → s.getScheduledThread a = some tid → (buffers tid).canReserve = true) :
    Starts cfg s buffers (s.startFetch cfg a buffers).1 (s.startFetch cfg a buffers).2 := by
  simp only [startFetch]
  split
  · split
    next tid scheduled =>
      have thread := threads tid (List.mem_of_find?_eq_some scheduled)
      obtain ⟨inFlight, old, threadId, name, lineSeqNum, discarded, placed⟩ :=
        fetches_fetchLine cfg { s with threadPriority := tid } tid a.translation a.sendNew
      refine .fetch thread (room tid thread scheduled)
        ⟨inFlight, old, threadId, name, lineSeqNum, discarded, fun h => placed ?_⟩
      exact ⟨h.translating, h.issuing⟩
    · exact .idle .refl
  · exact .idle .refl

theorem Starts.before (kept : Keeps r s)
    (starts : Starts cfg s buffers s' buffers') : Starts cfg r buffers s' buffers' := by
  cases starts with
  | idle later => exact .idle (kept.trans later)
  | fetch thread room fetches =>
    refine .fetch thread room ⟨?_, ?_, ?_, ?_, ?_, ?_, fetches.placed ∘ kept.placed⟩
    · rw [fetches.inFlight, kept.inFlight, kept.lineSeqNum]
    · intro n other
      exact (fetches.old n (kept.lineSeqNum ▸ other)).trans (kept.ids n)
    · exact kept.lineSeqNum ▸ fetches.threadId
    · exact kept.lineSeqNum ▸ fetches.name
    · rw [fetches.lineSeqNum, kept.lineSeqNum]
    · rw [fetches.discarded, kept.discarded]

theorem Starts.after (starts : Starts cfg s buffers s' buffers') (kept : Keeps s' r) :
    Starts cfg s buffers r buffers' := by
  cases starts with
  | idle first => exact .idle (first.trans kept)
  | fetch thread room fetches =>
    refine .fetch thread room ⟨?_, ?_, ?_, ?_, ?_, ?_, kept.placed ∘ fetches.placed⟩
    · rw [kept.inFlight, fetches.inFlight]
    · exact fun n other => (kept.ids n).trans (fetches.old n other)
    · rw [kept.ids, fetches.threadId]
    · rw [kept.ids, fetches.name]
    · rw [kept.lineSeqNum, fetches.lineSeqNum]
    · rw [kept.discarded, fetches.discarded]

theorem keeps_markBlocked (s : Fetch1) (buffers : LineBuffers) :
    Keeps s (s.markBlocked cfg buffers) :=
  ⟨rfl, fun _ => rfl, rfl, rfl, fun placed => ⟨placed.translating, placed.issuing⟩⟩

theorem keeps_clearGuards (s : Fetch1) : Keeps s s.clearGuards :=
  ⟨rfl, fun _ => rfl, rfl, rfl, fun placed => ⟨placed.translating, placed.issuing⟩⟩

theorem evaluate_cases {execute prediction : Option BranchData} {line : Option ForwardLineData}
    (threads : ∀ tid ∈ a.priorityList, tid < cfg.numThreads)
    (result : s.evaluate cfg a execute prediction buffers = some (s', buffers', line)) :
    ∃ t between u, Starts cfg s buffers t between ∧ Takes t between u buffers' line
      ∧ Keeps u s' := by
  simp only [evaluate] at result
  generalize branched : (s.markBlocked cfg buffers).takeBranches execute prediction = b at result
  have kept : Keeps s b := branched ▸ (keeps_markBlocked s buffers).trans
    (keeps_takeBranches _ execute prediction)
  have started : Starts cfg b buffers (b.startFetch cfg a buffers).1 (b.startFetch cfg a buffers).2 :=
    starts_startFetch threads fun tid thread scheduled =>
      room_of_scheduled thread (branched ▸ scheduled)
  have starts := started.before kept
  generalize b.startFetch cfg a buffers = started at starts result
  split at result
  next u between l taken =>
    cases result
    exact ⟨_, _, u, starts.after (keeps_stepQueues started.1 a.sendFront),
      takes_of_takeResponse taken, keeps_clearGuards u⟩
  · cases result

end Fetch1

end Gem5.Minor
