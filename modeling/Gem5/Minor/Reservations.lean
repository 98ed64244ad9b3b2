import Gem5.Minor.FetchMoves
import Gem5.Lib.Runs
import Mathlib.Data.List.ReduceOption

/-!
# Reservations of the lines under way

Fetch1 takes a slot in the input buffer of Fetch2 for each line that it asks for. The slot
is given back when the line is discarded or when it enters the buffer, once in either
case, whatever the threads, the memory and the branches do meanwhile.
-/

namespace Gem5.Minor

open FlexCPU (Fault PCState)

variable {ι : Type}

/-- The lines `1, …, issued` that have been asked for are either released or held. Each
buffer holds one slot for each held line of its thread, and has given back one slot for
each released line. -/
structure Balanced (size : Nat) (thread : Nat → Nat) (issued : Nat) (released held : List Nat)
    (buffers : LineBuffers) : Prop where
  places : (released ++ held).Perm (List.range' 1 issued)
  settled : ∀ tid, (buffers tid).Settled
  reserved : ∀ tid, (buffers tid).queue.numReservedSlots = held.countP (thread · = tid)
  freed : ∀ tid, (buffers tid).queue.freed = released.countP (thread · = tid)
  made : ∀ tid, (buffers tid).queue.made
    = (buffers tid).queue.freed + (buffers tid).queue.numReservedSlots
  fits : ∀ tid, (buffers tid).queue.queue.length + (buffers tid).queue.numReservedSlots
    ≤ (buffers tid).queue.capacity
  capacity : ∀ tid, (buffers tid).queue.capacity = size

namespace Balanced

variable {size issued : Nat} {thread thread' : Nat → Nat} {released held released' held' : List Nat}
  {buffers buffers' : LineBuffers}

theorem rearrange (balanced : Balanced size thread issued released held buffers)
    (sameReleased : released'.Perm released) (sameHeld : held'.Perm held) :
    Balanced size thread issued released' held' buffers := by
  refine ⟨(sameReleased.append sameHeld).trans balanced.places, balanced.settled, ?_, ?_,
    balanced.made, balanced.fits, balanced.capacity⟩
  · exact fun tid => (balanced.reserved tid).trans (sameHeld.countP_eq _).symm
  · exact fun tid => (balanced.freed tid).trans (sameReleased.countP_eq _).symm

theorem known (balanced : Balanced size thread issued released held buffers) {n : Nat}
    (inside : n ∈ released ++ held) : n ≤ issued := by
  have := List.mem_range'_1.mp (balanced.places.mem_iff.mp inside)
  omega

theorem congr (balanced : Balanced size thread issued released held buffers)
    (same : ∀ n, n ≤ issued → thread' n = thread n) :
    Balanced size thread' issued released held buffers := by
  refine ⟨balanced.places, balanced.settled, ?_, ?_, balanced.made, balanced.fits,
    balanced.capacity⟩
  · intro tid
    rw [balanced.reserved tid]
    refine List.countP_congr fun n inside => ?_
    rw [same n (balanced.known (List.mem_append_right _ inside))]
  · intro tid
    rw [balanced.freed tid]
    refine List.countP_congr fun n inside => ?_
    rw [same n (balanced.known (List.mem_append_left _ inside))]

theorem issue (balanced : Balanced size thread issued released held buffers)
    (room : (buffers (thread (issued + 1))).canReserve = true) :
    Balanced size thread (issued + 1) released (held ++ [issued + 1])
      (Function.update buffers (thread (issued + 1))
        (buffers (thread (issued + 1))).reserve) := by
  generalize own : thread (issued + 1) = owner at room
  have space := Queue.room_of_canReserve room (balanced.fits owner)
  have slot : ∀ tid, (Function.update buffers owner (buffers owner).reserve tid).queue =
      if tid = owner then (buffers tid).queue.reserve else (buffers tid).queue := by
    intro tid
    by_cases same : tid = owner
    · subst same
      simp [InputBuffer.reserve]
    · simp [same]
  refine ⟨?_, ?_, ?_, ?_, ?_, ?_, ?_⟩
  · rw [List.range'_1_concat, ← List.append_assoc, Nat.add_comm 1 issued]
    exact balanced.places.append_right _
  · intro tid
    by_cases same : tid = owner
    · subst same
      simpa [InputBuffer.reserve, InputBuffer.Settled] using balanced.settled tid
    · simpa [same] using balanced.settled tid
  · intro tid
    rw [slot, List.countP_append, ← balanced.reserved tid]
    by_cases same : tid = owner
    · simp [same, own, Queue.reserve]
    · simp [same, own, Ne.symm same]
  · intro tid
    rw [slot, ← balanced.freed tid]
    split <;> rfl
  · intro tid
    rw [slot]
    have := balanced.made tid
    split
    · simp only [Queue.reserve]
      omega
    · exact this
  · intro tid
    rw [slot]
    have := balanced.fits tid
    split
    next same => grind [Queue.reserve]
    · exact this
  · intro tid
    rw [slot, ← balanced.capacity tid]
    split <;> rfl

theorem discard {n : Nat} (balanced : Balanced size thread issued released (n :: held) buffers) :
    Balanced size thread issued (released ++ [n]) held
      (Function.update buffers (thread n) (buffers (thread n)).freeReservation) := by
  have slot : ∀ tid, (Function.update buffers (thread n)
      (buffers (thread n)).freeReservation tid).queue =
      if thread n = tid then (buffers tid).queue.freeReservation else (buffers tid).queue := by
    intro tid
    by_cases same : thread n = tid
    · subst same
      simp [InputBuffer.freeReservation]
    · simp [same, Ne.symm same]
  have held_eq : ∀ tid, (buffers tid).queue.numReservedSlots
      = held.countP (thread · = tid) + if thread n = tid then 1 else 0 := by
    intro tid
    rw [balanced.reserved tid, List.countP_cons]
    simp
  refine ⟨?_, ?_, ?_, ?_, ?_, ?_, ?_⟩
  · simpa using balanced.places
  · intro tid
    by_cases same : tid = thread n
    · subst same
      simpa [InputBuffer.freeReservation, InputBuffer.Settled] using balanced.settled (thread n)
    · simpa [same] using balanced.settled tid
  all_goals
    intro tid
    have freed := balanced.freed tid
    have made := balanced.made tid
    have fits := balanced.fits tid
    have capacity := balanced.capacity tid
    rw [slot]
    split
    all_goals simp_all [Queue.freeReservation]
  all_goals omega

theorem serve {taken : List Nat}
    (balanced : Balanced size thread issued released (taken ++ held) buffers)
    {incoming : Nat → Option ForwardLineData}
    (lines : ∀ tid, (incoming tid).toList.length = taken.countP (thread · = tid))
    (served : ∀ tid, InputBuffer.Served (buffers tid) (incoming tid) (buffers' tid)) :
    Balanced size thread issued (released ++ taken) held buffers' := by
  refine ⟨?_, fun tid => (served tid).settled, ?_, ?_, ?_, ?_, ?_⟩
  · simpa using balanced.places
  all_goals
    intro tid
    have reserved := balanced.reserved tid
    have freed := balanced.freed tid
    have made := balanced.made tid
    have fits := balanced.fits tid
    have capacity := balanced.capacity tid
    have own := served tid
    have count := lines tid
    rw [List.countP_append] at reserved
    have := own.reserved
    have := own.freed
    have := own.made
    have := own.capacity
  · omega
  · rw [List.countP_append]
    omega
  · omega
  · have shorter := own.contents.length_le
    rw [List.length_append, InputBuffer.contents_of_settled own.settled,
      InputBuffer.contents_of_settled (balanced.settled tid)] at shorter
    omega
  · omega

end Balanced

/-- `inputBufferSize` and `delay` are checked to be positive. -/
structure FetchingConfig (ι : Type) where
  fetch1 : Fetch1Config
  fetch2 : Fetch2Config
  isa : StaticInsts ι
  inputBufferSize : Nat
  delay : Nat
  inputBufferSize_pos : 0 < inputBufferSize
  delay_pos : 0 < delay

/-- Fetch1, Fetch2 and the latch between them. In each cycle Fetch2 is evaluated first.
`delivered` logs the lines that have come out of the latch. -/
structure Fetching where
  fetch1 : Fetch1
  fetch2 : Fetch2
  f1ToF2 : Latch ForwardLineData
  fetch2Done : Bool := false
  delivered : List Nat := []

variable {s : Fetching} {f : Fetch1}

namespace Fetching

/-- Branches, predictor, caches and the stages behind Fetch2 may do what they like. -/
inductive Event (ι : Type) where
  | fetch2 (a : Fetch2Answers ι) (branch : Option BranchData)
      (nextStageReserve : Nat → InputBuffer (ForwardInstData ι))
  | fetch1 (a : Fetch1Answers) (executeBranch fetch2Branch : Option BranchData)
  | finish (n : Nat) (fault : Option Fault) (sent : Bool)
  | recvTimingResp (n : Nat) (bytes : Nat → BitVec 8)
  | recvReqRetry (sent : Bool)
  | wakeupFetch (tid : Nat) (pc : PCState)

def lineBuffers (s : Fetching) : LineBuffers := fun tid => (s.fetch2.threads tid).inputBuffer

def setLineBuffers (s : Fetch2) (buffers : LineBuffers) : Fetch2 :=
  { s with threads := fun tid => { s.threads tid with inputBuffer := buffers tid } }

/-- The number of the line that comes out of the latch. -/
def taken (l : Latch ForwardLineData) : List Nat :=
  (l.output.map fun line => line.id.lineSeqNum).toList

variable (cfg : FetchingConfig ι)

def evaluateFetch1 (s : Fetching) (a : Fetch1Answers)
    (executeBranch fetch2Branch : Option BranchData) :
    Option (Fetch1 × LineBuffers × Option ForwardLineData) :=
  s.fetch1.evaluate cfg.fetch1 a executeBranch fetch2Branch s.lineBuffers

def step (s : Fetching) : Event ι → Fetching
  | .fetch2 a branch next =>
    { s with
      fetch2 := (s.fetch2.evaluate cfg.fetch2 cfg.isa a s.f1ToF2.output branch next).fetch2
      fetch2Done := true
      delivered := s.delivered ++ taken s.f1ToF2 }
  | .fetch1 a executeBranch fetch2Branch =>
    match s.evaluateFetch1 cfg a executeBranch fetch2Branch with
    | some (fetch1, buffers, line) =>
      { s with
        fetch1 := fetch1
        fetch2 := setLineBuffers s.fetch2 buffers
        f1ToF2 := s.f1ToF2.advance line
        fetch2Done := false }
    | none => s
  | .finish n fault sent => { s with fetch1 := s.fetch1.finish n fault sent }
  | .recvTimingResp n bytes => { s with fetch1 := s.fetch1.recvTimingResp n bytes }
  | .recvReqRetry sent => { s with fetch1 := s.fetch1.recvReqRetry sent }
  | .wakeupFetch tid pc => { s with fetch1 := s.fetch1.wakeupFetch tid pc }

/-- The TLB and the memory answer a request once, the cache asks again only after it has
refused, and a policy lists threads of the CPU. -/
def allowed (s : Fetching) : Event ι → Bool
  | .fetch2 .. => !s.fetch2Done
  | .fetch1 a executeBranch fetch2Branch =>
    s.fetch2Done && a.priorityList.all (· < cfg.fetch1.numThreads)
      && (s.evaluateFetch1 cfg a executeBranch fetch2Branch).isSome
  | .finish n .. => (s.fetch1.reqs n).state == .inTranslation
  | .recvTimingResp n _ => (s.fetch1.reqs n).state == .requestIssuing
  | .recvReqRetry _ => s.fetch1.icacheState == .needsRetry
  | .wakeupFetch .. => true

def init : Fetching where
  fetch1 :=
    { reqs := fun n => { id := ⟨0, 0, 0, n⟩, pc := .ofAddr 0, vaddr := 0, size := 0 }
      requests := { capacity := cfg.fetch1.fetchLimit }
      transfers := { capacity := cfg.fetch1.fetchLimit } }
  fetch2 := { threads := fun _ => { inputBuffer := { queue := { capacity := cfg.inputBufferSize } } } }
  f1ToF2 := List.replicate cfg.delay none

/-- The states between two calls into the fetch stages. -/
def Reachable (s : Fetching) : Prop :=
  Runs.Reaches (step cfg) (fun s e => allowed cfg s e = true) (init cfg) s

variable {cfg}

/-- The lines in the latch that Fetch2 has not seen. -/
def waiting (s : Fetching) : List ForwardLineData :=
  (if s.fetch2Done then s.f1ToF2.tail else s.f1ToF2).reduceOption

/-- The thread of a line that was asked for. -/
def threadOf (s : Fetching) (n : Nat) : Nat := (s.fetch1.reqs n).id.threadId

/-- The lines whose slot is taken. -/
def held (s : Fetching) : List Nat := s.waiting.map (·.id.lineSeqNum) ++ s.fetch1.inFlight

def released (s : Fetching) : List Nat := s.fetch1.discarded ++ s.delivered

structure Inv (cfg : FetchingConfig ι) (s : Fetching) : Prop where
  placed : s.fetch1.Placed
  started : 1 ≤ s.fetch1.lineSeqNum
  names : ∀ n ∈ s.fetch1.inFlight, (s.fetch1.reqs n).id.lineSeqNum = n
  lines : ∀ l ∈ s.waiting, l.id = (s.fetch1.reqs l.id.lineSeqNum).id
  balanced : Balanced cfg.inputBufferSize s.threadOf (s.fetch1.lineSeqNum - 1) s.released s.held
    s.lineBuffers

theorem inv_init : Inv cfg (init cfg) := by
  have waiting_nil : (init cfg).waiting = [] := by
    simp [waiting, init]
  have held_nil : (init cfg).held = [] := by
    rw [held, waiting_nil]
    rfl
  refine ⟨⟨?_, ?_⟩, le_rfl, by simp [init], by simp [waiting_nil], ?_⟩
  · simp [init]
  · simp [init]
  · rw [held_nil]
    refine ⟨?_, ?_, ?_, ?_, ?_, ?_, ?_⟩
    · exact .refl _
    all_goals
      simp [released, init, lineBuffers, InputBuffer.Settled]

theorem Inv.keeps (inv : Inv cfg s) (kept : Fetch1.Keeps s.fetch1 f) :
    Inv cfg { s with fetch1 := f } := by
  have threads : threadOf { s with fetch1 := f } = s.threadOf := by
    funext n
    exact congrArg LineId.threadId (kept.ids n)
  refine ⟨kept.placed inv.placed, kept.lineSeqNum ▸ inv.started, ?_, ?_, ?_⟩
  · intro n inside
    rw [kept.inFlight] at inside
    exact (congrArg LineId.lineSeqNum (kept.ids n)).trans (inv.names n inside)
  · intro l inside
    exact (inv.lines l inside).trans (kept.ids _).symm
  · have balanced := inv.balanced
    rw [released, held, ← kept.inFlight, ← kept.discarded, ← kept.lineSeqNum, ← threads] at balanced
    exact balanced

theorem Balanced.starts {size : Nat} {f' : Fetch1} {buffers buffers' : LineBuffers}
    {released held : List Nat} (started : 1 ≤ f.lineSeqNum) (balanced : Balanced size (fun n =>
    (f.reqs n).id.threadId) (f.lineSeqNum - 1) released (held ++ f.inFlight) buffers)
    (starts : Fetch1.Starts cfg.fetch1 f buffers f' buffers') :
    Balanced size (fun n => (f'.reqs n).id.threadId) (f'.lineSeqNum - 1) released
      (held ++ f'.inFlight) buffers' := by
  cases starts with
  | idle kept =>
    rw [kept.inFlight, kept.lineSeqNum]
    exact balanced.congr fun n _ => congrArg LineId.threadId (kept.ids n)
  | fetch thread room fetches =>
    have next : f'.lineSeqNum - 1 = f.lineSeqNum - 1 + 1 := by
      rw [fetches.lineSeqNum]
      omega
    have new : f.lineSeqNum - 1 + 1 = f.lineSeqNum := by omega
    have old : Balanced size (fun n => (f'.reqs n).id.threadId) (f.lineSeqNum - 1) released
        (held ++ f.inFlight) buffers :=
      balanced.congr fun n known => congrArg LineId.threadId (fetches.old n (by omega))
    have issued := old.issue (by rwa [new, fetches.threadId])
    rw [new, fetches.threadId] at issued
    rwa [next, new, fetches.inFlight, ← List.append_assoc]

theorem Inv.starts (inv : Inv cfg s) {buffers : LineBuffers}
    (starts : Fetch1.Starts cfg.fetch1 s.fetch1 s.lineBuffers f buffers) :
    Inv cfg { s with fetch1 := f, fetch2 := setLineBuffers s.fetch2 buffers } := by
  have balanced := Balanced.starts inv.started inv.balanced starts
  cases starts with
  | idle kept => exact inv.keeps kept
  | fetch thread room fetches =>
    have older : ∀ n ∈ s.held, n ≠ s.fetch1.lineSeqNum := by
      intro n inside
      have := inv.balanced.known (List.mem_append_right _ inside)
      have := inv.started
      omega
    refine ⟨fetches.placed inv.placed, ?_, ?_, ?_, ?_⟩
    · rw [fetches.lineSeqNum]
      omega
    · intro n inside
      rw [fetches.inFlight, List.mem_append, List.mem_singleton] at inside
      rcases inside with old | rfl
      · rw [fetches.old n (older n (List.mem_append_right _ old))]
        exact inv.names n old
      · exact fetches.name
    · intro l inside
      have known : l.id.lineSeqNum ∈ s.held :=
        List.mem_append_left _ (List.mem_map_of_mem inside)
      rw [fetches.old _ (older _ known)]
      exact inv.lines l inside
    · rw [released, fetches.discarded]
      exact balanced

theorem waiting_advance (done : s.fetch2Done = true) (f : Fetch1) (g : Fetch2)
    (line : Option ForwardLineData) :
    waiting { s with
      fetch1 := f
      fetch2 := g
      f1ToF2 := s.f1ToF2.advance line
      fetch2Done := false } = s.waiting ++ line.toList := by
  simp [waiting, done, Latch.advance, List.reduceOption_append, List.reduceOption_singleton]

theorem Inv.takes (inv : Inv cfg s) (done : s.fetch2Done = true)
    {buffers : LineBuffers} {line : Option ForwardLineData}
    (takes : Fetch1.Takes s.fetch1 s.lineBuffers f buffers line) :
    Inv cfg { s with
      fetch1 := f
      fetch2 := setLineBuffers s.fetch2 buffers
      f1ToF2 := s.f1ToF2.advance line
      fetch2Done := false } := by
  have later := waiting_advance done f (setLineBuffers s.fetch2 buffers) line
  have balanced := inv.balanced
  cases takes with
  | idle =>
    rw [Option.toList_none, List.append_nil] at later
    refine ⟨inv.placed, inv.started, inv.names, later ▸ inv.lines, ?_⟩
    rw [held, later]
    exact balanced
  | @discard n _ pops discarded =>
    rw [Option.toList_none, List.append_nil] at later
    have threads : (fun m => (f.reqs m).id.threadId) = s.threadOf :=
      funext fun m => congrArg LineId.threadId (pops.ids m)
    refine ⟨pops.placed inv.placed, pops.lineSeqNum ▸ inv.started, ?_, ?_, ?_⟩
    · intro m inside
      rw [pops.ids]
      exact inv.names m (pops.inFlight ▸ List.mem_cons_of_mem n inside)
    · intro l inside
      rw [later] at inside
      rw [pops.ids]
      exact inv.lines l inside
    · have front : (n :: (s.waiting.map (·.id.lineSeqNum) ++ f.inFlight)).Perm s.held := by
        rw [held, pops.inFlight]
        exact List.perm_middle.symm
      have moved := (balanced.rearrange (.refl _) front).discard
      rw [released, held, later, discarded, pops.lineSeqNum]
      change Balanced _ (fun m => (f.reqs m).id.threadId) _ _ _ _
      rw [threads]
      refine moved.rearrange ?_ (.refl _)
      simp only [released, List.append_assoc]
      exact (List.perm_append_comm).append_left _
  | @deliver n _ l pops discarded id =>
    have threads : (fun m => (f.reqs m).id.threadId) = s.threadOf :=
      funext fun m => congrArg LineId.threadId (pops.ids m)
    have name : l.id.lineSeqNum = n := by
      rw [id]
      exact inv.names n (pops.inFlight ▸ List.mem_cons_self)
    refine ⟨pops.placed inv.placed, pops.lineSeqNum ▸ inv.started, ?_, ?_, ?_⟩
    · intro m inside
      rw [pops.ids]
      exact inv.names m (pops.inFlight ▸ List.mem_cons_of_mem n inside)
    · intro k inside
      rw [later, List.mem_append, Option.toList_some, List.mem_singleton] at inside
      rw [pops.ids]
      rcases inside with old | rfl
      · exact inv.lines k old
      · rw [name, id]
    · have same : (s.waiting ++ [l]).map (·.id.lineSeqNum) ++ f.inFlight = s.held := by
        simp [held, pops.inFlight, name]
      rw [released, held, later, Option.toList_some, same, discarded, pops.lineSeqNum]
      change Balanced _ (fun m => (f.reqs m).id.threadId) _ _ _ _
      rw [threads]
      exact balanced

theorem Inv.fetch1 (inv : Inv cfg s) {a : Fetch1Answers}
    {executeBranch fetch2Branch : Option BranchData} {buffers : LineBuffers}
    {line : Option ForwardLineData} (done : s.fetch2Done = true)
    (threads : ∀ tid ∈ a.priorityList, tid < cfg.fetch1.numThreads)
    (result : s.evaluateFetch1 cfg a executeBranch fetch2Branch = some (f, buffers, line)) :
    Inv cfg { s with
      fetch1 := f
      fetch2 := setLineBuffers s.fetch2 buffers
      f1ToF2 := s.f1ToF2.advance line
      fetch2Done := false } := by
  obtain ⟨t, between, u, starts, takes, kept⟩ := Fetch1.evaluate_cases threads result
  exact ((inv.starts starts).takes (s := { s with
    fetch1 := t
    fetch2 := setLineBuffers s.fetch2 between }) done takes).keeps kept

theorem Inv.fetch2 (inv : Inv cfg s) (a : Fetch2Answers ι)
    (branch : Option BranchData) (next : Nat → InputBuffer (ForwardInstData ι))
    (fresh : s.fetch2Done = false) :
    Inv cfg { s with
      fetch2 := (s.fetch2.evaluate cfg.fetch2 cfg.isa a s.f1ToF2.output branch next).fetch2
      fetch2Done := true
      delivered := s.delivered ++ taken s.f1ToF2 } := by
  generalize after : { s with
      fetch2 := (s.fetch2.evaluate cfg.fetch2 cfg.isa a s.f1ToF2.output branch next).fetch2
      fetch2Done := true
      delivered := s.delivered ++ taken s.f1ToF2 } = t
  have split : s.waiting = s.f1ToF2.output.toList ++ t.waiting := by
    subst after
    cases latch : s.f1ToF2 with
    | nil => simp [waiting, latch, Latch.output]
    | cons front rest => cases front <;> simp [waiting, fresh, latch, Latch.output]
  have same : t.fetch1 = s.fetch1 := by rw [← after]
  have held_eq : s.held = taken s.f1ToF2 ++ t.held := by
    rw [held, held, split, same]
    cases out : s.f1ToF2.output <;> simp [taken, out]
  have released_eq : t.released
      = s.released ++ taken s.f1ToF2 := by
    rw [← after]
    simp [released]
  have lines : ∀ tid, (Fetch2.incoming s.f1ToF2.output tid).toList.length
      = (taken s.f1ToF2).countP (s.threadOf · = tid) := by
    intro tid
    cases out : s.f1ToF2.output with
    | none => simp [taken, out, Fetch2.incoming]
    | some l =>
      have own := inv.lines l (by rw [split, out]; simp)
      by_cases mine : l.id.threadId = tid
      · subst mine
        simp [taken, out, threadOf, ← own]
      · simp [taken, out, Fetch2.incoming_other mine, threadOf, ← own, mine]
  have balanced := held_eq ▸ inv.balanced
  have served : Balanced cfg.inputBufferSize s.threadOf (s.fetch1.lineSeqNum - 1)
      (s.released ++ taken s.f1ToF2) t.held t.lineBuffers := by
    refine balanced.serve lines fun tid => ?_
    rw [← after]
    exact Fetch2.evaluate_served _ _ a s.f1ToF2.output branch s.fetch2 next tid
      (inv.balanced.settled tid)
  refine ⟨same ▸ inv.placed, same ▸ inv.started, same ▸ inv.names, ?_, ?_⟩
  · intro l inside
    rw [same]
    exact inv.lines l (split ▸ List.mem_append_right _ inside)
  · aesop

theorem Inv.step {s : Fetching} (inv : Inv cfg s) {e : Event ι} (ok : allowed cfg s e = true) :
    Inv cfg (step cfg s e) := by
  cases e with
  | fetch2 a branch next => exact inv.fetch2 a branch next (by simpa [allowed] using ok)
  | fetch1 =>
    simp only [allowed, Bool.and_eq_true, List.all_eq_true, decide_eq_true_eq] at ok
    obtain ⟨⟨done, threads⟩, runs⟩ := ok
    obtain ⟨⟨f, buffers, line⟩, result⟩ := Option.isSome_iff_exists.mp runs
    simp only [Fetching.step, result]
    exact inv.fetch1 done threads result
  | finish n fault sent =>
    have translating := inv.placed.translating n (by simpa [allowed] using ok)
    exact inv.keeps (Fetch1.keeps_finish s.fetch1 fault sent translating)
  | recvTimingResp n bytes => exact inv.keeps (Fetch1.keeps_recvTimingResp s.fetch1 n bytes)
  | recvReqRetry sent => exact inv.keeps (Fetch1.keeps_recvReqRetry s.fetch1 sent)
  | wakeupFetch tid pc => exact inv.keeps (Fetch1.keeps_updateThread s.fetch1 tid _)

theorem Reachable.inv (run : Reachable cfg s) : Inv cfg s :=
  Runs.Reaches.invariant run inv_init fun _ _ inv ok => inv.step ok

theorem Inv.waiting_countP (inv : Inv cfg s) (tid : Nat) :
    (s.waiting.map (·.id.lineSeqNum)).countP (s.threadOf · = tid)
      = s.waiting.countP (·.id.threadId = tid) := by
  rw [List.countP_map]
  refine List.countP_congr fun l inside => ?_
  simp [threadOf, ← inv.lines l inside]

theorem Inv.reserved (inv : Inv cfg s) (tid : Nat) :
    (s.fetch2.threads tid).inputBuffer.queue.numReservedSlots
      = s.fetch1.requests.queue.countP (s.threadOf · = tid)
        + s.fetch1.transfers.queue.countP (s.threadOf · = tid)
        + s.waiting.countP (·.id.threadId = tid) := by
  have reserved := inv.balanced.reserved tid
  rw [held, List.countP_append, inv.waiting_countP, Fetch1.inFlight, List.countP_append] at reserved
  change (s.lineBuffers tid).queue.numReservedSlots = _
  omega

theorem Inv.not_leaked (inv : Inv cfg s) {tid : Nat} (small : cfg.inputBufferSize < 2 ^ 31)
    (blocked : (s.fetch2.threads tid).inputBuffer.canReserve = false) :
    (∃ n ∈ s.fetch1.requests.queue ++ s.fetch1.transfers.queue, s.threadOf n = tid)
      ∨ (∃ l ∈ s.waiting, l.id.threadId = tid)
      ∨ (s.fetch2.threads tid).inputBuffer.empty = false := by
  by_contra nothing
  simp only [not_or, not_exists, not_and] at nothing
  obtain ⟨requests, lines, filled⟩ := nothing
  have settled : (s.fetch2.threads tid).inputBuffer.Settled := inv.balanced.settled tid
  have contents := (InputBuffer.empty_iff _).mp (Bool.not_eq_false _ ▸ filled)
  rw [InputBuffer.contents_of_settled settled] at contents
  have none : (s.fetch2.threads tid).inputBuffer.queue.numReservedSlots = 0 := by
    rw [inv.reserved tid, ← List.countP_append, List.countP_eq_zero.mpr, List.countP_eq_zero.mpr]
    · exact fun l inside => by simpa using lines l inside
    · exact fun n inside => by simpa using requests n inside
  have capacity : (s.fetch2.threads tid).inputBuffer.queue.capacity = cfg.inputBufferSize :=
    inv.balanced.capacity tid
  have free : (s.fetch2.threads tid).inputBuffer.queue.canReserve = true := by
    apply Queue.canReserve_of_room
    · omega
    · have := cfg.inputBufferSize_pos
      simp only [contents, List.length_nil]
      omega
  exact absurd (free.symm.trans blocked) (by simp)

/-- In every reachable state the slots taken in an input buffer are those of the requests
and lines under way, each line asked for is in exactly one place, and each slot has been
given back once for each line that is no longer under way. -/
theorem reservations_conserved {s : Fetching} (run : Reachable cfg s) :
    (s.fetch1.discarded ++ s.delivered ++ s.waiting.map (·.id.lineSeqNum)
        ++ s.fetch1.transfers.queue ++ s.fetch1.requests.queue).Perm
      (List.range' 1 (s.fetch1.lineSeqNum - 1))
    ∧ ∀ tid,
      let buffer := (s.fetch2.threads tid).inputBuffer
      buffer.queue.numReservedSlots
          = s.fetch1.requests.queue.countP (s.threadOf · = tid)
            + s.fetch1.transfers.queue.countP (s.threadOf · = tid)
            + s.waiting.countP (·.id.threadId = tid)
        ∧ buffer.queue.made
          = (List.range' 1 (s.fetch1.lineSeqNum - 1)).countP (s.threadOf · = tid)
        ∧ buffer.queue.freed
          = (s.fetch1.discarded ++ s.delivered).countP (s.threadOf · = tid)
        ∧ buffer.queue.occupiedSpace + buffer.queue.numReservedSlots ≤ cfg.inputBufferSize
        ∧ ((∃ l ∈ s.waiting, l.id.threadId = tid) →
          buffer.queue.occupiedSpace < cfg.inputBufferSize)
        ∧ (cfg.inputBufferSize < 2 ^ 31 → buffer.canReserve = false →
          (∃ n ∈ s.fetch1.requests.queue ++ s.fetch1.transfers.queue, s.threadOf n = tid)
            ∨ (∃ l ∈ s.waiting, l.id.threadId = tid) ∨ buffer.empty = false) := by
  have inv := run.inv
  have places := inv.balanced.places
  refine ⟨?_, fun tid => ?_⟩
  · simpa [released, held, Fetch1.inFlight] using places
  · have reserved := inv.reserved tid
    have fits := inv.balanced.fits tid
    rw [inv.balanced.capacity tid] at fits
    refine ⟨reserved, ?_, inv.balanced.freed tid, fits, ?_, fun small => inv.not_leaked small⟩
    · have made := inv.balanced.made tid
      rw [inv.balanced.freed, inv.balanced.reserved, ← List.countP_append] at made
      exact made.trans (places.countP_eq _)
    · rintro ⟨l, inside, own⟩
      have some : 0 < s.waiting.countP (·.id.threadId = tid) :=
        List.countP_pos_iff.mpr ⟨l, inside, by simpa using own⟩
      simp only [Queue.occupiedSpace]
      change (s.lineBuffers tid).queue.numReservedSlots = _ at reserved
      change (s.lineBuffers tid).queue.queue.length < _
      omega

/-- One thread with a buffer for one line, and a memory that answers at once. -/
def smallFetching : FetchingConfig Unit where
  fetch1 := { numThreads := 1, lineSnap := 4, maxLineWidth := 4, fetchLimit := 1 }
  fetch2 :=
    { numThreads := 1
      outputWidth := 1
      processMoreThanOneInput := false
      outputWidth_pos := Nat.one_pos }
  isa :=
    { decodeInst := fun _ => ()
      isControl := fun _ => false
      isSyscall := fun _ => false
      isMacroop := fun _ => false
      isMicroop := fun _ => false
      isLastMicroop := fun _ => false
      fetchMicroop := fun _ _ => ()
      decodeInst_plain := fun _ => rfl }
  inputBufferSize := 1
  delay := 1
  inputBufferSize_pos := Nat.one_pos
  delay_pos := Nat.one_pos

/-- The line is fetched, translated, sent and answered. -/
def firstLine : List (Event Unit) :=
  let fetch2 : Event Unit :=
    .fetch2 { priorityList := [], predict := fun _ => none } none fun _ => ⟨{ capacity := 1 }, none⟩
  let fetch1 : Event Unit :=
    .fetch1
      { active := fun _ => true
        priorityList := [0]
        translation := none
        sendNew := true
        sendFront := true } none none
  [.wakeupFetch 0 (.ofAddr 0), fetch2, fetch1, .finish 1 none true,
    .recvTimingResp 1 fun _ => 0, fetch2, fetch1]

/-- The line in the latch still holds the only slot. -/
theorem reservations_conserved_first_line :
    let s := Runs.run (step smallFetching) (init smallFetching) firstLine
    (s.fetch2.threads 0).inputBuffer.queue.numReservedSlots = 1
      ∧ (s.fetch2.threads 0).inputBuffer.queue.numReservedSlots
        = s.fetch1.requests.queue.countP (s.threadOf · = 0)
          + s.fetch1.transfers.queue.countP (s.threadOf · = 0)
          + s.waiting.countP (·.id.threadId = 0) :=
  ⟨by decide +kernel,
    ((reservations_conserved
      (show Reachable smallFetching _ from Runs.reaches_offered (by decide +kernel))).2 0).1⟩

end Fetching

end Gem5.Minor
