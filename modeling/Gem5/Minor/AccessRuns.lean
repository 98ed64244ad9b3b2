import Gem5.Minor.AccessFates

/-!
# The instructions whose accesses have started

A packet of an access that is not bufferable is sent once for an instruction that is then
committed, unless its thread halts for a drain under it. Without a drain, no store of an
instruction that is discarded leaves the processor.
-/

namespace Gem5.Minor

open List Bool

namespace Core

variable {c c' d : Core} {i : InstId}

/-- The instruction has left its thread, and its number is not given again. -/
structure Gone (c : Core) (i : InstId) : Prop where
  finished : i ∉ (c.threads i.threadId).unfinished
  numbered : i.execSeqNum < (c.threads i.threadId).nextExecSeqNum

/-- The instruction has passed to the load/store queue. -/
structure Entered (c : Core) (i : InstId) : Prop where
  inLSQ : (c.insts i).inLSQ = true
  memRef : (c.insts i).memRef = true

theorem Ordered.gone_retire {tid : Nat} {head : InstId} {rest : List InstId} {committed : Bool}
    (ordered : c.Ordered) (inFlight : (c.threads tid).inFlightInsts = head :: rest)
    (same : (d.threads tid).inFlightInsts = (c.threads tid).inFlightInsts)
    (input : (d.threads tid).input = (c.threads tid).input)
    (next : (d.threads tid).nextExecSeqNum = (c.threads tid).nextExecSeqNum) :
    (d.retire tid head committed).Gone head := by
  have unfinished : (c.threads tid).unfinished = head :: (rest ++ (c.threads tid).input) := by
    rw [Line.unfinished, inFlight, List.cons_append]
  have inside : head ∈ (c.threads tid).unfinished := unfinished ▸ List.mem_cons_self
  obtain rfl := (ordered tid).thread head inside
  have nodup := (ordered head.threadId).nodup
  rw [unfinished, List.nodup_cons] at nodup
  refine ⟨?_, ?_⟩
  · rw [retire_threads, if_pos rfl, Line.unfinished, same, inFlight, input, tail_cons]
    exact nodup.1
  · rw [retire_threads, if_pos rfl, next]
    exact ((ordered head.threadId).numbered head inside).2

end Core

variable {cfg : Config} {o : Execute} {e : Execute.Event} {c c' : Core}

theorem Move.gone {i : InstId} (move : Move cfg o e c c') (gone : c.Gone i) : c'.Gone i := by
  cases move.line i.threadId with
  | keep sub next => exact ⟨fun inside => gone.finished (sub.subset inside), next ▸ gone.numbered⟩
  | append stream last next =>
    refine ⟨fun inside => ?_, ?_⟩
    · rw [last, mem_append, List.mem_singleton] at inside
      rcases inside with old | new
      · exact gone.finished old
      · have number := congrArg InstId.execSeqNum new
        exact absurd gone.numbered (by simp [number])
    · rw [next]
      exact Nat.lt_succ_of_lt gone.numbered

/-- What a move reports: nothing, the commit of a head, or one discarded instruction. -/
inductive Move.Reports (cfg : Config) (o : Execute) (e : Execute.Event) (c c' : Core) : Prop where
  | none (committed : c'.committed = c.committed) (discarded : c'.discarded = c.discarded)
  | commit {loop : CommitLoop} {head : InstId} (round : AtHead o e c loop head)
      (committed : c'.committed = c.committed ++ [head]) (discarded : c'.discarded = c.discarded)
      (gone : c'.Gone head)
  | input {tid : Nat} {i : InstId} {rest : List InstId}
      (input : (c.threads tid).input = i :: rest) (committed : c'.committed = c.committed)
      (discarded : c'.discarded = c.discarded ++ [i]) (gone : c'.Gone i)
  | response {loop : CommitLoop} {head : InstId} (round : AtHead o e c loop head)
      (stream : head.streamSeqNum ≠ (c.threads loop.tid).streamSeqNum ∨ loop.discard = true)
      (committed : c'.committed = c.committed) (discarded : c'.discarded = c.discarded ++ [head])
      (gone : c'.Gone head)
  | candidate {loop : CommitLoop} {head i : InstId} {early : Bool} (round : AtHead o e c loop head)
      (chosen : o.candidate cfg loop.tid head = some (i, early))
      (outside : (c.insts i).inLSQ = false)
      (stream : i.streamSeqNum ≠ (c.threads loop.tid).streamSeqNum ∨ loop.discard = true)
      (committed : c'.committed = c.committed) (discarded : c'.discarded = c.discarded ++ [i])
      (gone : i = head → c'.Gone i)

theorem Move.reports (move : Move cfg o e c c') (ordered : c.Ordered) :
    Move.Reports cfg o e c c' := by
  cases move with
  | arrive | finish | perform | respond | retry | evaluate | drain | drainResume | drained
  | haltFetch | turn | clearInput | issue | push => exact .none rfl rfl
  | @discardInput tid i rest input =>
    have unfinished : (c.threads tid).unfinished =
        (c.threads tid).inFlightInsts ++ i :: rest := by
      rw [Line.unfinished, input]
    have inside : i ∈ (c.threads tid).unfinished := by
      rw [unfinished]
      simp
    obtain rfl := (ordered tid).thread i inside
    have nodup := (ordered i.threadId).nodup
    rw [unfinished] at nodup
    refine .input input rfl rfl ⟨?_, ?_⟩
    · have apart := (List.nodup_cons.mp (List.nodup_middle.mp nodup)).1
      simpa [Core.logDiscard, Core.setLine_threads, Line.unfinished] using apart
    · simpa [Core.logDiscard, Core.setLine_threads]
        using ((ordered i.threadId).numbered i inside).2
  | @respondCommit loop head r stored q change round response stream keep handled =>
    obtain ⟨rest, inFlight⟩ := round.inFlight
    refine .commit round ?_ ?_ (ordered.gone_retire inFlight ?_ ?_ ?_)
    · cases change <;> rfl
    · cases change <;> rfl
    all_goals simp [Core.logCommit, Core.turnIf_threads, Core.setInst]
  | respondDiscard round response stream =>
    obtain ⟨rest, inFlight⟩ := round.inFlight
    exact .response round stream rfl rfl (ordered.gone_retire inFlight rfl rfl rfl)
  | discard round chosen outside stream =>
    obtain ⟨rest, inFlight⟩ := round.inFlight
    refine .candidate round chosen outside stream rfl rfl ?_
    rintro rfl
    exact ordered.gone_retire inFlight rfl rfl rfl
  | execute change round =>
    obtain ⟨rest, inFlight⟩ := round.inFlight
    refine .commit round ?_ ?_ (ordered.gone_retire inFlight ?_ ?_ ?_)
    · cases change <;> rfl
    · cases change <;> rfl
    all_goals simp [Core.logCommit, Core.turnIf_threads]
  | fault change =>
    refine .none ?_ ?_
    · cases change <;> rfl
    · cases change <;> rfl

theorem Move.entered {i : InstId} (move : Move cfg o e c c') (claimed : c.Claimed)
    (entered : c.Entered i) : c'.Entered i := by
  have set : ∀ (j : InstId) (x : Sketch), (j = i → x.inLSQ = true ∧ x.memRef = true) →
      (c.setInst j x).Entered i := by
    intro j x kept
    by_cases same : i = j
    · subst same
      have both := kept rfl
      exact ⟨by simpa [Core.setInst] using both.1, by simpa [Core.setInst] using both.2⟩
    · exact ⟨by simpa [Core.setInst, same] using entered.inLSQ,
        by simpa [Core.setInst, same] using entered.memRef⟩
  cases move with
  | @arrive tid stream x le fresh =>
    have old : c.setInst ⟨tid, stream, (c.threads tid).nextExecSeqNum⟩ x |>.Entered i := by
      refine set _ x ?_
      rintro rfl
      exact absurd (claimed.numbered _ entered.memRef) (Nat.lt_irrefl _)
    exact ⟨old.inLSQ, old.memRef⟩
  | finish | perform | respond | retry | evaluate | drain | drainResume | drained | haltFetch
  | turn | clearInput | discardInput | respondDiscard | discard =>
    exact ⟨entered.inLSQ, entered.memRef⟩
  | @issue tid j rest fu retireTime unpredictable dests =>
    have old := set j { c.insts j with unpredictable := unpredictable, dests := dests }
      fun same => same ▸ ⟨entered.inLSQ, entered.memRef⟩
    exact ⟨old.inLSQ, old.memRef⟩
  | @push loop head j early q =>
    have old := set j { c.insts j with inLSQ := true } fun same => same ▸ ⟨rfl, entered.memRef⟩
    exact ⟨old.inLSQ, old.memRef⟩
  | @respondCommit loop head r stored q change =>
    have old := set head { c.insts head with
      inStoreBuffer := (c.insts head).inStoreBuffer || stored }
      fun same => same ▸ ⟨entered.inLSQ, entered.memRef⟩
    cases change <;> exact ⟨old.inLSQ, old.memRef⟩
  | execute change => cases change <;> exact ⟨entered.inLSQ, entered.memRef⟩
  | @fault loop head change memRef round outside =>
    have old := set head { c.insts head with inLSQ := memRef } fun same => by
      rw [same, entered.inLSQ] at outside
      contradiction
    cases change <;> exact ⟨old.inLSQ, old.memRef⟩

theorem Core.Claimed.started {r : ReqId} (claimed : c.Claimed) (inside : r ∈ c.lsq.queue)
    (issued : (c.lsq.reqs r).issuedToMemory = true) : c.Holds (c.lsq.reqs r).inst := by
  refine claimed.holds _ (List.mem_map.mpr ⟨r, inside, ?_⟩)
  rw [issued]

theorem Core.Claimed.entered {r : ReqId} (claimed : c.Claimed) (inside : r ∈ c.lsq.queue) :
    c.Entered (c.lsq.reqs r).inst := by
  obtain ⟨inLSQ, memRef⟩ := claimed.inLSQ _ (List.mem_map.mpr ⟨r, inside, rfl⟩)
  exact ⟨inLSQ, memRef⟩

theorem Core.Claimed.wanted {loop : CommitLoop} {head : InstId} {r : ReqId} (claimed : c.Claimed)
    (steady : o.Steady) (ordered : c.Ordered) (round : AtHead o e c loop head)
    (inside : r ∈ c.lsq.queue) (issued : (c.lsq.reqs r).issuedToMemory = true)
    (own : (c.lsq.reqs r).inst = head) :
    head.streamSeqNum = (c.threads loop.tid).streamSeqNum ∧ loop.discard = false := by
  have holds := claimed.started inside issued
  have thread := round.thread ordered
  refine ⟨?_, ?_⟩
  · rw [← thread, ← own]
    exact holds.stream
  · by_contra discards
    refine claimed.quiet_of_discard steady round (by simpa using discards) head ?_ thread
    refine List.mem_map.mpr ⟨r, inside, ?_⟩
    rw [own, issued]

theorem Core.retire_fates {done entered : InstId → Prop} {tid : Nat} {i : InstId}
    {committed : Bool} (finished : committed = true → done i) (fates : c.lsq.Fates done entered) :
    (c.retire tid i committed).lsq.Fates done entered := by
  simp only [Core.retire]
  split
  · exact Lsq.completeMemBarrierInst_fates finished fates
  · exact fates

theorem Move.fates {done entered : InstId → Prop} (move : Move cfg o e c c') (steady : o.Steady)
    (ordered : c.Ordered) (placed : c.lsq.Placed) (claimed : c.Claimed)
    (inside : ∀ r ∈ c.lsq.queue, entered (c.lsq.reqs r).inst)
    (finished : ∀ i ∈ c'.committed, done i) (fates : c.lsq.Fates done entered) :
    c'.lsq.Fates done entered := by
  cases move with
  | arrive | drain | drainResume | drained | haltFetch | turn | clearInput | discardInput =>
    exact fates
  | @finish r a port event origin state =>
    have acts : Lsq.Acts cfg.lsq c.view (fun _ => True) c.lsq (c.lsq.finish cfg.lsq c.view port r a) :=
      Lsq.finish_acts port a state fun _ => trivial
    exact Lsq.Acts.fates acts placed inside fates
  | perform => exact Lsq.perform_fates _ _ fates
  | respond event found performed => exact (Lsq.recvTimingResp_received found).fates fates
  | @retry port event origin needs =>
    have acts : Lsq.Acts cfg.lsq c.view (fun _ => True) c.lsq (c.lsq.recvReqRetry cfg.lsq port) :=
      Lsq.recvReqRetry_acts port needs placed.retry
    exact Lsq.Acts.fates acts placed inside fates
  | @evaluate port ports event origin =>
    have acts : Lsq.Acts cfg.lsq c.view (fun _ => True) c.lsq
        (c.lsq.step cfg.lsq c.view port ports) :=
      Lsq.step_acts port ports fun _ _ _ => trivial
    exact Lsq.Acts.fates acts placed inside fates
  | issue =>
    split
    · exact Lsq.barrier_fates _ fates
    · exact fates
  | push round chosen memRef outside stream keep barrier pushed =>
    exact Lsq.pushed_fates pushed fates
  | @respondCommit loop head r stored q change round response stream keep handled =>
    have own : done head := by
      refine finished head ?_
      cases change <;> exact mem_append_right _ List.mem_cons_self
    refine Core.retire_fates (fun _ => own) ?_
    simpa [Core.logCommit, Core.setInst] using
      Lsq.handled_fates placed response handled own fates
  | @respondDiscard loop head r round response stream =>
    obtain ⟨front, own, -⟩ := Lsq.findResponse_cases response
    have queued : r ∈ c.lsq.queue := mem_append_left _ (List.mem_of_head? front)
    refine Core.retire_fates (by simp) (Lsq.popResponse_fates front (fun issued => ?_) fates)
    have wanted := claimed.wanted steady ordered round queued issued own
    rcases stream with wrong | discards
    · exact absurd wanted.1 wrong
    · rw [wanted.2] at discards
      contradiction
  | discard => exact Core.retire_fates (by simp) fates
  | execute change =>
    refine Core.retire_fates (fun _ => ?_) ?_
    · refine finished _ ?_
      cases change <;> exact mem_append_right _ List.mem_cons_self
    · simpa [Core.logCommit] using fates
  | fault =>
    refine Core.retire_fates (by simp) ?_
    simpa [Core.setInst] using fates

/-- `Running`, as a test. -/
def Core.runs (c : Core) (i : InstId) : Bool :=
  (c.threads i.threadId).drainState == .notDraining
    || (c.threads i.threadId).drainState == .drainCurrentInst

theorem Core.running_of_runs {i : InstId} (runs : c.runs i = true) : c.Running i := by
  simpa [Core.runs, Core.Running] using runs

/-- Whether a packet was sent, as a test. -/
def Lsq.wasSent (q : Lsq) (r : ReqId) (k : Nat) : Bool :=
  q.trace.any fun
    | .sent t j => t == r && j == k
    | _ => false

theorem Lsq.sent_of_test {q : Lsq} {r : ReqId} {k : Nat} (sent : q.wasSent r k = true) :
    .sent r k ∈ q.trace := by
  obtain ⟨event, inside, same⟩ := List.any_eq_true.mp sent
  cases event with
  | sent t j => grind
  | performed => contradiction
  | received => contradiction
  | buffered => contradiction

/-- What the runs keep of the instructions whose accesses have started. -/
structure Core.Followed (c : Core) : Prop where
  ordered : c.Ordered
  placed : c.lsq.Placed
  claimed : c.Claimed
  fates : c.lsq.Fates (· ∈ c.committed) c.Entered
  gone : ∀ i ∈ c.committed, c.Gone i
  once : c.committed.Nodup

theorem AtHead.unfinished {loop : CommitLoop} {head : InstId} (round : AtHead o e c loop head)
    (ordered : c.Ordered) : ¬c.Gone head := by
  intro gone
  obtain ⟨rest, inFlight⟩ := round.inFlight
  refine gone.finished ?_
  rw [round.thread ordered, Line.unfinished, inFlight]
  exact List.mem_cons_self

theorem Move.keeps_committed (move : Move cfg o e c c') (ordered : c.Ordered)
    (gone : ∀ i ∈ c.committed, c.Gone i) (once : c.committed.Nodup) :
    (∀ i ∈ c'.committed, c'.Gone i) ∧ c'.committed.Nodup := by
  have reports := move.reports ordered
  have old : c'.committed = c.committed → (∀ i ∈ c'.committed, c'.Gone i) ∧ c'.committed.Nodup := by
    intro same
    rw [same]
    exact ⟨fun i inside => move.gone (gone i inside), once⟩
  cases reports with
  | none committed => exact old committed
  | @commit loop head round committed discarded left =>
    rw [committed]
    refine ⟨fun i inside => ?_, ?_⟩
    · rcases List.mem_append.mp inside with inside | new
      · exact move.gone (gone i inside)
      · grind
    · rw [nodup_append']
      refine ⟨once, List.nodup_singleton _, fun i inside new => ?_⟩
      rw [List.mem_singleton.mp new] at inside
      exact round.unfinished ordered (gone head inside)
  | input input committed => exact old committed
  | response round stream committed => exact old committed
  | candidate round chosen outside stream committed => exact old committed

theorem Move.followed (move : Move cfg o e c c') (steady : o.Steady) (spares : o.Spares cfg e)
    (followed : c.Followed) : c'.Followed := by
  obtain ⟨ordered, placed, claimed, fates, gone, once⟩ := followed
  have reports := move.reports ordered
  have more : ∀ i ∈ c.committed, i ∈ c'.committed := by
    intro i inside
    cases reports with
    | none committed => exact committed ▸ inside
    | commit round committed => exact committed ▸ mem_append_left _ inside
    | input input committed => exact committed ▸ inside
    | response round stream committed => exact committed ▸ inside
    | candidate round chosen outside stream committed => exact committed ▸ inside
  have kept := move.keeps_committed ordered gone once
  refine ⟨move.ordered ordered, move.placed placed,
    move.claimed steady spares ordered placed claimed, ?_, kept.1, kept.2⟩
  refine move.fates steady ordered placed claimed (fun r inside => ?_) (fun _ inside => inside) ?_
  · exact move.entered claimed (claimed.entered inside)
  · exact fates.mono more fun r _ _ entered => move.entered claimed entered

theorem Move.not_discarded {r : ReqId} {k : Nat} (move : Move cfg o e c c') (steady : o.Steady)
    (followed : c.Followed) (sent : MemEvent.sent r k ∈ c.lsq.trace)
    (unbufferable : (c.lsq.reqs r).bufferable = false) :
    c'.discarded.count (c.lsq.reqs r).inst = c.discarded.count (c.lsq.reqs r).inst := by
  have before := followed.fates.sent r k sent
  have fate : (c.lsq.reqs r).inst ∈ c.committed
      ∨ r ∈ c.lsq.queue ∧ (c.lsq.reqs r).issuedToMemory = true := by
    rcases before.fate with finished | queued | ⟨bufferable, -⟩
    · exact .inl finished
    · exact .inr queued
    · rw [unbufferable] at bufferable
      contradiction
  have append : ∀ j, c'.discarded = c.discarded ++ [j] → j ≠ (c.lsq.reqs r).inst →
      c'.discarded.count (c.lsq.reqs r).inst = c.discarded.count (c.lsq.reqs r).inst := by
    intro j report other
    rw [report, count_append, List.count_singleton, if_neg (by simpa using other), Nat.add_zero]
  cases move.reports followed.ordered with
  | none committed discarded => rw [discarded]
  | commit round committed discarded => rw [discarded]
  | @input tid i rest input committed discarded =>
    refine append i discarded ?_
    rintro rfl
    have unfinished : (c.threads tid).unfinished =
        (c.threads tid).inFlightInsts ++ (c.lsq.reqs r).inst :: rest := by
      rw [Line.unfinished, input]
    have inside : (c.lsq.reqs r).inst ∈ (c.threads tid).unfinished := by
      rw [unfinished]
      simp
    have thread := (followed.ordered tid).thread _ inside
    rcases fate with finished | ⟨queued, issued⟩
    · have gone := (followed.gone _ finished).finished
      rw [thread] at gone
      exact gone inside
    · -- The instruction of an access under way is in flight, not in the input.
      have head := (followed.claimed.started queued issued).head
      rw [thread] at head
      have nodup := (followed.ordered tid).nodup
      rw [unfinished] at nodup
      have apart := (List.nodup_cons.mp (List.nodup_middle.mp nodup)).1
      exact apart (mem_append_left _ (List.mem_of_head? head))
  | @response loop head round stream committed discarded =>
    refine append head discarded ?_
    intro own
    rcases fate with finished | ⟨queued, issued⟩
    · exact round.unfinished followed.ordered (own ▸ followed.gone _ finished)
    · have wanted := followed.claimed.wanted steady followed.ordered round queued issued own.symm
      rcases stream with wrong | discards
      · exact wrong wanted.1
      · rw [wanted.2] at discards
        contradiction
  | @candidate loop head i early round chosen outside stream committed discarded =>
    refine append i discarded ?_
    rintro rfl
    rw [(before.entered unbufferable).inLSQ] at outside
    contradiction

namespace Execute

variable {s t : Execute} {r : ReqId} {k : Nat}

theorem followed_init (cfg : Config) : (init cfg).core.Followed where
  ordered := ordered_init cfg
  placed := Lsq.placed_init
  claimed := by
    constructor <;> simp [core, init, Lsq.accesses, Lsq.queue, DynInst.sketch, DynInst.isMemRef]
  fates := by
    constructor <;> simp [core, init]
  gone := by simp [core, init]
  once := by simp [core, init]

theorem followed_of_spares (run : Guarded cfg (Spares cfg) s) : s.core.Followed :=
  Guarded.invariant run (followed_init cfg) fun _ _ _ _ steady _ spares followed move =>
    move.followed steady spares followed

/-- No instruction is committed twice, and one that is committed is gone from the pipelines. -/
theorem committed_once {guard : Execute → Event → Prop} (run : Guarded cfg guard s) :
    s.core.committed.Nodup ∧ ∀ i ∈ s.core.committed, s.core.Gone i := by
  have kept : s.core.Ordered ∧ s.core.committed.Nodup ∧ ∀ i ∈ s.core.committed, s.core.Gone i := by
    refine Guarded.invariant
      (P := fun c => c.Ordered ∧ c.committed.Nodup ∧ ∀ i ∈ c.committed, c.Gone i) run ?_ ?_
    · have start := followed_init cfg
      exact ⟨start.ordered, start.once, start.gone⟩
    · rintro o e c c' - - - ⟨ordered, once, gone⟩ move
      have next := move.keeps_committed ordered gone once
      exact ⟨move.ordered ordered, next.2, next.1⟩
  exact kept.2

/-- Every request of the queue is at one place, and in the state that belongs to it. -/
theorem requests_placed {guard : Execute → Event → Prop} (run : Guarded cfg guard s) :
    s.core.lsq.Placed := by
  refine Guarded.invariant (P := fun c => c.lsq.Placed) run (followed_init cfg).placed ?_
  intro o e c c' _ _ _ placed move
  exact move.placed placed

/-- The instruction of the request is committed once its response has left the queue, only
once, and no run discards it from now on. -/
structure HappensOnce (cfg : Config) (ok : Execute → Event → Prop) (s : Execute) (r : ReqId) :
    Prop where
  committed : (s.lsq.reqs r).inst ∈ s.committed ∨ r ∈ s.lsq.queue
  once : s.committed.count (s.lsq.reqs r).inst ≤ 1
  wanted : ∀ t, Runs.Reaches (step cfg) ok s t →
    t.discarded.count (s.lsq.reqs r).inst = s.discarded.count (s.lsq.reqs r).inst

/-- An accepted access that is not bufferable happens once, if no such access starts while
its thread is about to halt. -/
theorem unbufferable_access_once (cfg : Config) (s : Execute) (run : Guarded cfg (Spares cfg) s)
    (r : ReqId) (k : Nat) (accepted : .sent r k ∈ s.lsq.trace)
    (unbufferable : (s.lsq.reqs r).bufferable = false) :
    HappensOnce cfg (Spares cfg) s r := by
  have followed := followed_of_spares run
  have steady : s.Steady :=
    (steady_init.invariant (P := fun _ => True) run trivial fun _ _ _ _ _ _ _ _ _ => trivial).1
  refine ⟨?_, ?_, ?_⟩
  · rcases (followed.fates.sent r k accepted).fate with finished | ⟨queued, -⟩ | ⟨bufferable, -⟩
    · exact .inl finished
    · exact .inr queued
    · exact absurd (unbufferable.symm.trans bufferable) (by simp)
  · exact List.nodup_iff_count_le_one.mp followed.once _
  · intro t later
    refine ((steady.invariant (P := fun c => c.Followed ∧ MemEvent.sent r k ∈ c.lsq.trace
        ∧ (c.lsq.reqs r).bufferable = false ∧ (c.lsq.reqs r).inst = (s.lsq.reqs r).inst
        ∧ c.discarded.count (s.lsq.reqs r).inst = s.discarded.count (s.lsq.reqs r).inst)
      later ⟨followed, accepted, unbufferable, rfl, rfl⟩ ?_).2).2.2.2.2
    rintro o e c c' steady - spares ⟨followed, sent, unbufferable, own, same⟩ move
    have before := followed.fates.sent r k sent
    have grows := move.grows followed.placed
    have keeps := grows.keeps r before.known
    refine ⟨move.followed steady spares followed, grows.trace sent, ?_, keeps.inst.trans own, ?_⟩
    · rw [LsqRequest.bufferable_congr (keeps.translated before.translated).2]
      exact unbufferable
    · rw [← same, ← own]
      exact move.not_discarded steady followed sent unbufferable

/-- `Spares`, as a test of the event. -/
def spares (cfg : Config) (s : Execute) : Event → Bool
  | .finish r a _ =>
    let q := s.lsq.update r (·.translate a)
    !q.starts cfg.lsq s.core.view r || s.core.runs (q.reqs r).inst
  | .evaluate _ _ =>
    s.lsq.requests.head?.all fun r =>
      !s.lsq.starts cfg.lsq s.core.view r || s.core.runs (s.lsq.reqs r).inst
  | _ => true

theorem spares_of_test {e : Event} (ok : s.spares cfg e = true) : Spares cfg s e := by
  refine ⟨?_, ?_⟩
  · rintro r a port rfl begins
    simp only [spares, or_eq_true, not_eq_eq_eq_not] at ok
    refine Core.running_of_runs (ok.resolve_left fun still => ?_)
    exact absurd (begins.symm.trans still) (by simp)
  · rintro port ports r rfl front begins
    have front : s.lsq.requests.head? = some r := front
    simp only [spares, front, Option.all_some, or_eq_true, not_eq_eq_eq_not] at ok
    refine Core.running_of_runs (ok.resolve_left fun still => ?_)
    exact absurd (begins.symm.trans still) (by simp)

/-- One memory unit of a single cycle. -/
def oneMemoryUnit : Config where
  allowEarlyMemIssue := false
  commitLimit := 2
  memoryCommitLimit := 1
  funcUnits := [{ opLat := 1 }]
  lsq := ⟨1, 64, 1, 2, 5, 1⟩
  flatten := id

def plainLoad : Arrival where
  streamSeqNum := 1
  staticInst := { isMemRef := true, isLoad := true, opClass := 1 }

def deviceAccess : Access where
  isLoad := true
  addr := 64
  size := 4
  flags := { strictlyOrdered := true }

/-- A strictly ordered load is handed to the load/store queue. -/
def deviceLoad : List Event :=
  [.arrive 0 plainLoad,
    .evaluate {} [], .startCommit (some 0) false, .issue 0, .advance,
    .evaluate {} [], .startCommit (some 0) false,
    .commit { initAcc := .access deviceAccess }, .commit {}, .advance]

/-- Its packet is sent when its translation finishes. -/
def deviceLoadSent : List Event := deviceLoad ++ [.finish 0 { paddr := 64 } {}]

/-- The same, but a drain begins first. -/
def deviceLoadSentInDrain : List Event := deviceLoad ++ [.drain, .finish 0 { paddr := 64 } {}]

/-- The next cycle halts the thread, and the response is thrown away in the cycle after it. -/
def deviceResponse : List Event :=
  [.evaluate {} [], .startCommit (some 0) false, .advance,
    .perform 0 fun _ => 0, .respond 0,
    .evaluate {} [], .startCommit (some 0) false, .commit {}]

theorem committed_once_device :
    (play oneMemoryUnit (deviceLoadSent ++ deviceResponse)).core.committed.Nodup :=
  (committed_once (reachable_play ..)).1

theorem requests_placed_device : (play oneMemoryUnit deviceLoadSent).core.lsq.Placed :=
  requests_placed (reachable_play ..)

theorem unbufferable_access_once_device :
    HappensOnce oneMemoryUnit (Spares oneMemoryUnit) (play oneMemoryUnit deviceLoadSent) 0 := by
  have tested : Guarded oneMemoryUnit (fun s e => s.spares oneMemoryUnit e = true)
      (play oneMemoryUnit deviceLoadSent) := Guarded.play (by decide +kernel)
  have run : Guarded oneMemoryUnit (Spares oneMemoryUnit) (play oneMemoryUnit deviceLoadSent) :=
    tested.mono fun _ _ ok => spares_of_test ok
  exact unbufferable_access_once _ _ run 0 0 (Lsq.sent_of_test (by decide +kernel))
    (by decide +kernel)

/-- The access starts after the drain has begun, and the drain discards its instruction. -/
theorem drained_access_discarded :
    ¬ ∀ (cfg : Config) (s : Execute), Reachable cfg s → ∀ (r : ReqId) (k : Nat),
      .sent r k ∈ s.lsq.trace → (s.lsq.reqs r).bufferable = false →
        HappensOnce cfg Runs.Free s r := by
  intro all
  have once := all oneMemoryUnit (play oneMemoryUnit deviceLoadSentInDrain) (reachable_play ..) 0 0
    (Lsq.sent_of_test (by decide +kernel)) (by decide +kernel)
  have wanted := once.wanted _ (Runs.reaches_run (step oneMemoryUnit) _ deviceResponse)
  revert wanted
  decide +kernel

/-- What a run without a drain keeps of the discarded instructions. -/
structure Undrained (c : Core) : Prop where
  followed : c.Followed
  calm : ∀ tid, (c.threads tid).drainState = .notDraining
  gone : ∀ i ∈ c.discarded, c.Gone i ∧ i ∉ c.committed

theorem Move.calm {o : Execute} {e : Event} {c c' : Core} (move : Move cfg o e c c')
    (noDrain : e ≠ .drain) (calm : ∀ tid, (c.threads tid).drainState = .notDraining) (tid : Nat) :
    (c'.threads tid).drainState = .notDraining := by
  cases move with
  | arrive =>
    rw [Core.setLine_threads]
    split
    · exact calm _
    · exact calm tid
  | finish | perform | respond | retry | evaluate | push => exact calm tid
  | drain event => exact absurd event noDrain
  | drainResume => rfl
  | drained state => exact absurd ((calm _).symm.trans state) (by simp)
  | haltFetch state => exact absurd ((calm _).symm.trans state) (by simp)
  | turn => grind [Core.turn, Core.setLine_threads]
  | clearInput state => exact absurd ((calm _).symm.trans state) (by simp)
  | discardInput =>
    simp only [Core.logDiscard, Core.setLine_threads]
    split
    · exact calm _
    · exact calm tid
  | issue =>
    simp only [Core.setLine_threads]
    split
    · exact calm _
    · exact calm tid
  | respondCommit =>
    rw [Core.retire_threads]
    split <;> simp [Core.logCommit, Core.turnIf_threads, Core.setInst, calm]
  | respondDiscard | discard =>
    rw [Core.retire_threads]
    split <;> exact calm tid
  | execute =>
    rw [Core.retire_threads]
    split <;> simp [Core.logCommit, Core.turnIf_threads, calm]
  | fault =>
    rw [Core.retire_threads]
    split <;> simp [Core.turnIf_threads, Core.setInst, calm]

theorem spares_of_calm {e : Event} (calm : ∀ tid, (s.core.threads tid).drainState = .notDraining) :
    Spares cfg s e :=
  ⟨fun _ _ _ _ _ => .inl (calm _), fun _ _ _ _ _ _ => .inl (calm _)⟩

theorem Undrained.move {o : Execute} {e : Event} {c c' : Core} (undrained : Undrained c)
    (steady : o.Steady) (spares : Spares cfg o e) (noDrain : e ≠ .drain)
    (move : Move cfg o e c c') : Undrained c' := by
  obtain ⟨followed, calm, gone⟩ := undrained
  have ordered := followed.ordered
  have old : ∀ i ∈ c.discarded, c'.Gone i := fun i inside => move.gone (gone i inside).1
  have same : c'.discarded = c.discarded → c'.committed = c.committed →
      ∀ i ∈ c'.discarded, c'.Gone i ∧ i ∉ c'.committed := by
    intro discarded committed i inside
    rw [discarded] at inside
    rw [committed]
    exact ⟨old i inside, (gone i inside).2⟩
  have more : ∀ j, c'.discarded = c.discarded ++ [j] → c'.committed = c.committed →
      c'.Gone j → j ∉ c.committed → ∀ i ∈ c'.discarded, c'.Gone i ∧ i ∉ c'.committed := by
    intro j discarded committed left fresh i inside
    rw [discarded] at inside
    rw [committed]
    rcases List.mem_append.mp inside with inside | new
    · exact ⟨old i inside, (gone i inside).2⟩
    · grind
  refine ⟨move.followed steady spares followed, Move.calm move noDrain calm, ?_⟩
  cases move.reports ordered with
  | none committed discarded => exact same discarded committed
  | @commit loop head round committed discarded =>
    intro i inside
    rw [discarded] at inside
    refine ⟨old i inside, ?_⟩
    rw [committed, mem_append, List.mem_singleton]
    rintro (before | rfl)
    · exact (gone i inside).2 before
    · exact round.unfinished ordered (gone i inside).1
  | @input tid i rest input committed discarded left =>
    refine more i discarded committed left fun before => ?_
    have inside : i ∈ (c.threads tid).unfinished := by
      rw [Line.unfinished, input]
      simp
    have finished := (followed.gone i before).finished
    rw [(ordered tid).thread i inside] at finished
    exact finished inside
  | @response loop head round stream committed discarded left =>
    exact more head discarded committed left fun before =>
      round.unfinished ordered (followed.gone head before)
  | @candidate loop head i early round chosen outside stream committed discarded left =>
    -- No loop discards, so the candidate is the head of a stale stream.
    have own : i = head := by
      rcases stream with wrong | discards
      · obtain ⟨-, ⟨-, -, right⟩ | ⟨-, own⟩⟩ := candidate_cases steady.sound chosen
        · rw [round.origin] at wrong
          exact absurd right wrong
        · exact own
      · have state := steady.draining loop round.phase discards
        have calm := calm loop.tid
        rw [round.origin] at calm
        exact absurd (calm.symm.trans state) (by simp)
    subst own
    exact more i discarded committed (left rfl) fun before =>
      round.unfinished ordered (followed.gone i before)

theorem undrained_init (cfg : Config) : Undrained (init cfg).core where
  followed := followed_init cfg
  calm _ := rfl
  gone := by simp [core, init]

/-- In a run without a drain, no instruction that is discarded has sent a write packet or has
entered the store buffer. -/
theorem no_discarded_store_leaves (cfg : Config) (s : Execute)
    (run : Guarded cfg (fun _ e => e ≠ .drain) s) (r : ReqId) :
    (∀ k, .sent r k ∈ s.lsq.trace → (s.lsq.reqs r).isLoad = false →
        (s.lsq.reqs r).inst ∉ s.discarded)
      ∧ (.buffered r ∈ s.lsq.trace → (s.lsq.reqs r).inst ∉ s.discarded) := by
  have undrained : Undrained s.core :=
    Guarded.invariant run (undrained_init cfg) fun _ _ _ _ steady origin noDrain here move =>
      here.move steady (spares_of_calm origin.calm) noDrain move
  have committed : (s.lsq.reqs r).inst ∈ s.committed → (s.lsq.reqs r).inst ∉ s.discarded :=
    fun done inside => (undrained.gone _ inside).2 done
  refine ⟨fun k sent store => ?_, fun buffered => ?_⟩
  · rcases (undrained.followed.fates.sent r k sent).fate with done | ⟨queued, issued⟩ | ⟨-, load⟩
    · exact committed done
    · -- The instruction of an access under way is still in flight.
      have head := (undrained.followed.claimed.started queued issued).head
      intro inside
      exact (undrained.gone _ inside).1.finished (List.mem_append_left _ (List.mem_of_head? head))
    · exact absurd (store.symm.trans load) (by simp)
  · exact committed (undrained.followed.fates.buffered r buffered).1

def Event.isDrain : Event → Bool
  | .drain => true
  | _ => false

/-- A store commits and leaves the store buffer. -/
def plainStore : List Event :=
  [.arrive 0 { streamSeqNum := 1, staticInst := { isMemRef := true, opClass := 1 } },
    .evaluate {} [], .startCommit (some 0) false, .issue 0, .advance,
    .evaluate {} [], .startCommit (some 0) false,
    .commit { initAcc := .access { isLoad := false, addr := 64, size := 4 } }, .commit {}, .advance,
    .finish 0 { paddr := 64 } {},
    .evaluate {} [], .startCommit (some 0) false, .commit {}, .advance,
    .evaluate {} []]

theorem no_discarded_store_leaves_plain :
    let s := play oneMemoryUnit plainStore
    .sent 0 0 ∈ s.lsq.trace ∧ (s.lsq.reqs 0).inst ∉ s.discarded := by
  intro s
  have tested : Guarded oneMemoryUnit (fun _ e => (!e.isDrain) = true) s :=
    Guarded.play (by decide +kernel)
  have run : Guarded oneMemoryUnit (fun _ e => e ≠ .drain) s := by
    refine tested.mono fun _ e ok => ?_
    rintro rfl
    contradiction
  have sent : .sent 0 0 ∈ s.lsq.trace := Lsq.sent_of_test (by decide +kernel)
  exact ⟨sent, (no_discarded_store_leaves _ s run 0).1 0 sent (by decide +kernel)⟩

end Execute

end Gem5.Minor
