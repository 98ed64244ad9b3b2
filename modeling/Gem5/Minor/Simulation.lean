import Gem5.Minor.Core

/-!
# Execute simulates its core

Every step of Execute is a sequence of moves of its core.
-/

namespace Gem5.Minor

open FlexCPU (PCState)

namespace Core

@[simp] theorem setInst_self (c : Core) (i : InstId) : c.setInst i (c.insts i) = c := by
  simp [setInst]

@[simp] theorem setLine_self (c : Core) (tid : Nat) : c.setLine tid (c.threads tid) = c := by
  simp [setLine]

@[simp] theorem turnIf_insts (c : Core) (tid : Nat) (change : Bool) :
    (c.turnIf tid change).insts = c.insts := by
  cases change <;> rfl

theorem turnIf_setInst (c : Core) (i : InstId) (x : Sketch) (tid : Nat) (change : Bool) :
    (c.turnIf tid change).setInst i x = (c.setInst i x).turnIf tid change := by
  cases change <;> rfl

end Core

/-- What the moves need to know of an instruction. -/
structure DynInst.Sound (x : DynInst) (i : InstId) : Prop where
  id : x.id = i
  early : x.canEarlyIssue = true → x.isMemRef = true
  inLSQ : x.inLSQ = true → x.isMemRef = true

namespace Execute

variable {cfg : Config} {s o : Execute} {e : Event}

theorem core_updateInst (s : Execute) (i : InstId) (f : DynInst → DynInst) :
    (s.updateInst i f).core = s.core.setInst i (f (s.insts i)).sketch := by
  simp only [core, updateInst, Core.setInst, Core.mk.injEq, and_true]
  funext j
  by_cases h : j = i
  · subst h
    simp
  · simp [h]

theorem core_updateThread (s : Execute) (tid : Nat) (f : ThreadInfo → ThreadInfo) :
    (s.updateThread tid f).core = s.core.setLine tid (f (s.threads tid)).line := by
  simp only [core, updateThread, Core.setLine, Core.mk.injEq, and_true, true_and]
  funext u
  by_cases h : u = tid
  · subst h
    simp
  · simp [h]

theorem core_updateInst_of_sketch {s : Execute} {i : InstId} {f : DynInst → DynInst}
    (same : (f (s.insts i)).sketch = (s.insts i).sketch) : (s.updateInst i f).core = s.core := by
  rw [core_updateInst, same]
  exact Core.setInst_self s.core i

theorem core_updateThread_of_line {s : Execute} {tid : Nat} {f : ThreadInfo → ThreadInfo}
    (same : (f (s.threads tid)).line = (s.threads tid).line) :
    (s.updateThread tid f).core = s.core := by
  rw [core_updateThread, same]
  exact Core.setLine_self s.core tid

theorem core_updateBranchData (s : Execute) (tid : Nat) (reason : Reason) :
    (s.updateBranchData tid reason).core = s.core.turnIf tid reason.isStreamChange := by
  have same : ∀ t : Execute, { t with branch := reason }.core = t.core := fun _ => rfl
  by_cases none : reason = .noBranch
  · subst none
    rfl
  · rw [updateBranchData, if_neg none, same, core_updateThread]
    cases h : reason.isStreamChange
    · exact Core.setLine_self s.core tid
    · rfl

theorem core_tryToBranch (s : Execute) (i : InstId) (fault : Bool) (after : PCState) :
    ∃ change, (s.tryToBranch i fault after).core = s.core.turnIf i.threadId change :=
  ⟨_, core_updateBranchData s i.threadId _⟩

theorem core_retire (s : Execute) (tid : Nat) (r : Round) :
    (s.retire tid r).core = s.core.retire tid r.inst r.committed := by
  have moved : ∀ (t : Execute) (q : Lsq) (b : Nat → Scoreboard),
      { t with lsq := q, scoreboards := b }.core = { t.core with lsq := q, scoreboards := b } :=
    fun _ _ _ => rfl
  rw [retire, moved, core_updateThread]
  rfl

theorem core_settle (s : Execute) (tid : Nat) (r : Round) :
    (s.settle tid r).core =
      let c := if r.committed then s.core.logCommit r.inst else s.core
      let c := if r.discarded then c.logDiscard r.inst else c
      let c := if r.issuedMemRef then c.enterLSQ r.inst else c
      if r.completed && !(r.issuedMemRef && !r.fault) then c.retire tid r.inst r.committed
      else c := by
  have popped : ∀ (t : Execute) (b : Bool), (if b = true then
      t.updateThread tid fun u => { u with inFUMemInsts := u.inFUMemInsts.tail } else t).core
        = t.core := by
    intro t b
    split
    · exact core_updateThread_of_line rfl
    · rfl
  have entered : ∀ t : Execute, (if r.issuedMemRef = true then
      t.updateInst r.inst fun x => { x with fuIndex := 0, inLSQ := true } else t).core
        = if r.issuedMemRef = true then t.core.enterLSQ r.inst else t.core := by
    intro t
    split
    · exact core_updateInst ..
    · rfl
  have logged : ({ s with
      committed := if r.committed then s.committed ++ [r.inst] else s.committed
      discarded := if r.discarded then s.discarded ++ [r.inst] else s.discarded } : Execute).core =
      if r.discarded then (if r.committed then s.core.logCommit r.inst else s.core).logDiscard r.inst
      else if r.committed then s.core.logCommit r.inst else s.core := by
    cases r.committed <;> cases r.discarded <;> rfl
  simp only [settle]
  split
  · rw [core_retire, popped, entered, logged]
  · rw [popped, entered, logged]

def Sound (s : Execute) : Prop := ∀ i, (s.insts i).Sound i

theorem suspendThread_eq_self {s : Execute} {i : InstId} {interrupted : Bool}
    (awake : ((s.threads i.threadId).suspended && !interrupted) = false) :
    s.suspendThread i interrupted = s := by
  simp only [Bool.and_eq_false_iff] at awake
  simp only [suspendThread]
  rcases awake with h | h <;> simp [h]

theorem core_branch_suspendThread (s : Execute) (i : InstId) (fault : Bool) (after : PCState)
    (interrupted : Bool) :
    ∃ change, ((s.tryToBranch i fault after).suspendThread i interrupted).core =
      s.core.turnIf i.threadId change := by
  simp only [suspendThread]
  split
  next h =>
    have same : (s.tryToBranch i fault after) = s := by grind [tryToBranch, updateBranchData]
    rw [same, core_updateBranchData]
    exact ⟨_, rfl⟩
  next => exact core_tryToBranch s i fault after

/-- How `commitInst` can end. -/
inductive CommitEnd (cfg : Config) (c : Core) (i : InstId) (early : Bool) :
    Core → Round → Prop where
  | held {fault} : CommitEnd cfg c i early c { inst := i, fault := fault }
  | fault (change : Bool) (late : early = false) :
      CommitEnd cfg c i early (c.turnIf i.threadId change)
        { inst := i, completed := true, issuedMemRef := (c.insts i).memRef, fault := true }
  | push {q} (memRef : (c.insts i).memRef = true)
      (pushed : Pushed cfg c.lsq i (c.insts i).barrier q) :
      CommitEnd cfg c i early { c with lsq := q }
        { inst := i, completed := true, issuedMemRef := true }
  | plain {fault} (change : Bool) (late : early = false) (plain : (c.insts i).memRef = false) :
      CommitEnd cfg c i early (c.turnIf i.threadId change)
        { inst := i, completed := true, committed := true, fault := fault }

theorem commitInst_ends (cfg : Config) (s : Execute) (i : InstId) (early : Bool) (a : CommitAnswer)
    (memRef : early = true → (s.insts i).isMemRef = true) :
    CommitEnd cfg s.core i early (s.commitInst cfg i early a).1.core (s.commitInst cfg i early a).2 := by
  have late : (s.insts i).isMemRef = false → early = false := by grind
  rw [commitInst]
  split
  · exact .held
  next awake =>
  have awake : ((s.threads i.threadId).suspended && !a.interrupted) = false := by simpa using awake
  split
  next fault =>
    have plain : (s.insts i).isMemRef = false := by simp [DynInst.isMemRef, DynInst.isInst, fault]
    obtain ⟨change, core⟩ := core_branch_suspendThread s i true a.after a.interrupted
    rw [core]
    have ends : CommitEnd cfg s.core i early _ _ := .fault change (late plain)
    rwa [show (s.core.insts i).memRef = false from plain] at ends
  split
  next reference =>
    split
    · exact .held
    split
    · cases early
      · obtain ⟨change, core⟩ := core_branch_suspendThread s i true a.after a.interrupted
        rw [if_neg (by simp), core]
        have ends : CommitEnd cfg s.core i false _ _ := .fault change rfl
        rwa [show (s.core.insts i).memRef = true from reference] at ends
      · have same : (s.updateInst i fun x => { x with canEarlyIssue := false }).core = s.core :=
          core_updateInst_of_sketch rfl
        simp only [↓reduceIte, same]
        exact .held
    · dsimp only
      rw [suspendThread_eq_self (by exact awake)]
      cases a.initAcc with
      | failedPredicate => exact .push reference .failed
      | access acc => exact .push reference (.access acc)
  next plain =>
  have plain : (s.insts i).isMemRef = false := by simpa using plain
  split
  · exact .held
  split
  · exact .held
  · obtain ⟨change, core⟩ := core_branch_suspendThread
      (if a.suspends then s.updateThread i.threadId fun t => { t with suspended := true } else s)
      i a.fault a.after a.interrupted
    have same : (if a.suspends = true then
        s.updateThread i.threadId fun t => { t with suspended := true } else s).core = s.core := by
      split
      · exact core_updateThread_of_line rfl
      · rfl
    rw [core, same]
    exact .plain change (late plain) plain

theorem core_delayCommit (s : Execute) (i : InstId) (extraDelay : Nat) :
    (s.delayCommit i extraDelay).core = s.core :=
  core_updateInst_of_sketch rfl

/-- An early candidate is a memory reference of the stream of the committing thread; any
other candidate is the head. -/
theorem candidate_cases {tid : Nat} {head i : InstId} {early : Bool} (sound : s.Sound)
    (chosen : s.candidate cfg tid head = some (i, early)) :
    (s.insts i).inLSQ = false ∧
      (early = true ∧ (s.insts i).isMemRef = true ∧
          i.streamSeqNum = (s.threads tid).streamSeqNum ∨
        early = false ∧ i = head) := by
  simp only [candidate] at chosen
  split at chosen
  next f found =>
    obtain ⟨rfl, rfl⟩ : f = i ∧ true = early := by simpa using chosen
    simp only [earlyIssue] at found
    split at found
    · contradiction
    split at found
    · simp only [Option.filter_eq_some_iff, Bool.and_eq_true, Bool.not_eq_eq_eq_not, beq_iff_eq] at found
      obtain ⟨-, ⟨⟨outside, can⟩, stream⟩, -⟩ := found
      exact ⟨outside, .inl ⟨rfl, (sound f).early can, stream.symm⟩⟩
    · contradiction
  next =>
    split at chosen
    next ready =>
      obtain ⟨rfl, rfl⟩ : head = i ∧ false = early := by simpa using chosen
      refine ⟨?_, .inr ⟨rfl, rfl⟩⟩
      cases inside : (s.insts head).inLSQ with
      | false => rfl
      | true =>
        have memRef := (sound head).inLSQ inside
        simp only [DynInst.isMemRef, Bool.and_eq_true] at memRef
        have cost := (s.insts head).staticInst.memRef_opClass memRef.2
        simp [DynInst.isNoCostInst, cost, inside] at ready
    · contradiction

theorem tryToCommit_moves {loop : CommitLoop} {head i : InstId} {early : Bool} {a : CommitAnswer}
    (sound : o.Sound) (round : AtHead o (.commit a) o.core loop head)
    (chosen : o.candidate cfg loop.tid head = some (i, early)) :
    Moves cfg o (.commit a) o.core
      ((o.tryToCommit cfg loop i early a).1.settle loop.tid
        (o.tryToCommit cfg loop i early a).2).core := by
  obtain ⟨outside, who⟩ := candidate_cases sound chosen
  rw [tryToCommit]
  split
  next other =>
    have other : i.streamSeqNum ≠ (o.threads loop.tid).streamSeqNum ∨ loop.discard = true := by
      simpa using other
    rw [core_settle]
    exact .single (.discard round chosen outside other)
  next same =>
  obtain ⟨stream, keep⟩ : i.streamSeqNum = (o.threads loop.tid).streamSeqNum
      ∧ loop.discard = false := by simpa using same
  have core := core_delayCommit o i a.extraDelay
  generalize o.delayCommit i a.extraDelay = s at core
  have idle : ∀ fault, (s.settle loop.tid { inst := i, fault := fault }).core = o.core := by aesop
  dsimp only
  split
  · rw [idle]
  split
  · rw [idle]
  next notHeld _ =>
  have memRef : (s.insts i).isMemRef = (o.insts i).isMemRef :=
    congrArg (fun c : Core => (c.insts i).memRef) core
  have lsq : s.lsq = o.lsq := congrArg Core.lsq core
  have ends := commitInst_ends cfg s i early a fun isEarly => by
    rw [memRef]
    rcases who with ⟨-, reference, -⟩ | ⟨late, -⟩
    · exact reference
    · simp [late] at isEarly
  have unstalled : ∀ d : Execute × Round,
      ((if d.2.completed then (d.1.unstall i, d.2) else d).1.settle loop.tid
        (if d.2.completed then (d.1.unstall i, d.2) else d).2).core =
      (d.1.settle loop.tid d.2).core := by
    intro d
    split
    · rw [core_settle, core_settle]
      rfl
    · rfl
  rw [unstalled]
  generalize s.commitInst cfg i early a = d at ends
  obtain ⟨d, r⟩ := d
  rw [core_settle]
  generalize d.core = c at ends
  have headed : early = false → i = head := by grind
  rw [core] at ends
  cases ends with
  | held => exact .refl
  | fault change late =>
    obtain rfl := headed late
    refine .single ?_
    have move : Move cfg o (.commit a) o.core _ :=
      .fault change (o.core.insts i).memRef round outside stream keep
    convert move using 1
    cases reference : (o.core.insts i).memRef
    · have same : { o.core.insts i with inLSQ := false } = o.core.insts i := by
        rw [← show (o.core.insts i).inLSQ = false from outside]
      simp [same]
    · simp [Core.enterLSQ, Core.turnIf_setInst]
  | push reference pushed =>
    refine .single (.push round chosen ?_ outside stream keep ?_ ?_)
    · exact reference
    · have reference : (o.insts i).isMemRef = true := reference
      simp only [heldByBarrier, memRef, reference, lsq, Bool.true_and, Bool.and_eq_true,
        decide_eq_true_eq] at notHeld
      change o.lsq.lastMemBarrier loop.tid = 0 ∨ i.execSeqNum ≤ o.lsq.lastMemBarrier loop.tid
      omega
    · exact pushed
  | plain change late plain =>
    obtain rfl := headed late
    exact .single (.execute change round outside plain stream keep)

theorem core_handleMemResponse (o : Execute) (head : InstId) (r : ReqId) (a : CommitAnswer) :
    ∃ stored q change, Handled o.lsq r stored q ∧
      (o.handleMemResponse head r a).1.core =
        (({ o.core with lsq := q } : Core).setInst head { o.core.insts head with
          inStoreBuffer := (o.core.insts head).inStoreBuffer || stored }).turnIf
            head.threadId change := by
  have branched : ∀ (t : Execute) (c : Core) (fault : Bool), t.core = c →
      ∃ change, (t.tryToBranch head fault a.after).core = c.turnIf head.threadId change := by
    intro t c fault same
    obtain ⟨change, core⟩ := core_tryToBranch t head fault a.after
    exact ⟨change, core.trans (by rw [same])⟩
  by_cases stores : ((o.lsq.reqs r).packet && !(o.lsq.reqs r).fault && !a.fault
      && (o.lsq.reqs r).needsToBeSentToStoreBuffer) = true
  · simp only [handleMemResponse, stores]
    simp only [Bool.and_eq_true, LsqRequest.needsToBeSentToStoreBuffer, beq_iff_eq] at stores
    obtain ⟨change, core⟩ := branched
      { o.updateInst head fun x => { x with inStoreBuffer := true } with
        lsq := (o.lsq.sendStoreToStoreBuffer r).popResponse r }
      (({ o.core with lsq := (o.lsq.sendStoreToStoreBuffer r).popResponse r } : Core).setInst head
        { o.core.insts head with
          inStoreBuffer := (o.core.insts head).inStoreBuffer || true }) _ (by
      simp only [Bool.or_true]
      exact congrArg (fun c : Core => { c with lsq := (o.lsq.sendStoreToStoreBuffer r).popResponse r })
        (core_updateInst o head fun x => { x with inStoreBuffer := true }))
    exact ⟨true, _, change, .stored stores.1.1.1 stores.2, core⟩
  · simp only [handleMemResponse, stores]
    obtain ⟨change, core⟩ := branched { o with lsq := o.lsq.popResponse r }
      (({ o.core with lsq := o.lsq.popResponse r } : Core).setInst head
        { o.core.insts head with
          inStoreBuffer := (o.core.insts head).inStoreBuffer || false }) _ (by
      simp only [Bool.or_false]
      exact (Core.setInst_self _ head).symm)
    exact ⟨false, _, change, .plain, core⟩

theorem handleMemResponse_moves {loop : CommitLoop} {head : InstId} {r : ReqId} {a : CommitAnswer}
    (round : AtHead o e o.core loop head) (response : o.lsq.findResponse cfg.lsq head = some r)
    (stream : head.streamSeqNum = (o.threads loop.tid).streamSeqNum) (keep : loop.discard = false) :
    Move cfg o e o.core ((o.handleMemResponse head r a).1.settle loop.tid
      (o.handleMemResponse head r a).2).core := by
  obtain ⟨stored, q, change, handled, core⟩ := core_handleMemResponse o head r a
  rw [core_settle, core]
  exact .respondCommit change round response stream keep handled

theorem commitHead_moves {loop : CommitLoop} {head : InstId} {a : CommitAnswer} (sound : o.Sound)
    (round : AtHead o (.commit a) o.core loop head) :
    Moves cfg o (.commit a) o.core
      ((o.commitHead cfg loop head a).1.settle loop.tid (o.commitHead cfg loop head a).2).core := by
  have idle : (o.settle loop.tid { inst := head }).core = o.core := by
    rfl
  rw [commitHead]
  split
  next event =>
    rw [core_settle, core_updateBranchData]
    simp only [Bool.and_eq_true] at event
    exact .single (.turn event.1)
  split
  next r found =>
    have response : o.lsq.findResponse cfg.lsq head = some r := by grind [Option.filter_eq_some_iff]
    split
    next other =>
      have other : head.streamSeqNum ≠ (o.threads loop.tid).streamSeqNum ∨ loop.discard = true := by
        simpa using other
      rw [core_settle]
      exact .single (.respondDiscard round response other)
    next same => grind [handleMemResponse_moves]
  · grind [tryToCommit_moves]

theorem haltFetch_moves (tid : Nat) : Moves cfg o e s.core (s.haltFetch tid).core := by
  rw [haltFetch]
  split
  next state =>
    have turned : (s.updateBranchData tid .haltFetch).core = s.core.turn tid :=
      core_updateBranchData s tid .haltFetch
    have line : ∀ t : Execute, { t.threads tid with drainState := .drainAllInsts }.line =
        { t.core.threads tid with drainState := .drainAllInsts } := fun _ => rfl
    rw [core_updateThread, line, turned]
    exact .single (.haltFetch state)
  next => exact .refl

theorem afterCommit_moves (tid : Nat) : Moves cfg o e s.core (s.afterCommit tid).core := by
  have quiet : ∀ t : Execute, { t with branch := .noBranch }.core = t.core := fun _ => rfl
  refine .trans ?_ (haltFetch_moves tid)
  split
  next state =>
    rw [quiet]
    split
    next between =>
      rw [core_updateThread]
      exact .single (.drained state between)
    next => exact .refl
  next => exact .refl

theorem commitRound_moves {loop : CommitLoop} {a : CommitAnswer} (sound : o.Sound)
    (phase : o.phase = .commit loop) :
    Moves cfg o (.commit a) o.core (o.commitRound cfg loop a).core := by
  rw [commitRound]
  split
  next => exact afterCommit_moves loop.tid
  next head rest inFlight =>
    have moves : Moves cfg o (.commit a) o.core _ := commitHead_moves sound ⟨phase, ⟨a, rfl⟩, rfl, rest, inFlight⟩
    dsimp only
    split
    · exact moves
    · exact moves.trans (afterCommit_moves _)

theorem startCommit_moves (tid : Nat) (only : Bool) :
    Moves cfg o e s.core (s.startCommit cfg tid only).core := by
  have start : ∀ (t : Execute) (loop : CommitLoop), Moves cfg o e t.core
      (if t.goesOn cfg loop then { t with phase := .commit loop } else t.afterCommit tid).core := by
    intro t loop
    split
    · exact .refl
    · exact afterCommit_moves tid
  rw [startCommit]
  split
  next => exact start s _
  next => exact start s _
  next => exact afterCommit_moves tid
  next state =>
    refine .trans (.single ?_) (start (s.updateThread tid fun t => { t with input := [] }) _)
    rw [core_updateThread]
    exact .clearInput state

theorem enter_move {tid : Nat} {i : InstId} {rest : List InstId} {x : DynInst} {retireTime : Nat}
    (issues : o.issues cfg tid = some i) (input : (o.threads tid).input = i :: rest)
    (stream : i.streamSeqNum = (o.threads tid).streamSeqNum) (id : x.id = i)
    (marks : x.trackedDests = o.issuedDests cfg i)
    (predictable : (o.insts i).isMemRef = false → x.unpredictable = false)
    (same : x.sketch = { (o.insts i).sketch with
      unpredictable := x.unpredictable, dests := x.trackedDests }) :
    Move cfg o (.issue tid) o.core (o.enter tid x retireTime).core := by
  have core : (o.enter tid x retireTime).core =
      { (o.core.setInst i x.sketch).setLine tid
          { o.core.threads tid with
            input := rest
            inFlightInsts := (o.core.threads tid).inFlightInsts ++ [i] } with
        scoreboards := Function.update o.scoreboards tid
          (x.trackedDests.foldl
            (Scoreboard.markupDest i.execSeqNum x.fuIndex retireTime x.unpredictable)
            (o.scoreboards tid))
        lsq := if x.sketch.barrier then o.lsq.issuedMemBarrierInst i else o.lsq } := by
    subst id
    have placed : (o.enter tid x retireTime) =
        { (o.updateInst x.id fun _ => x).updateThread tid fun t =>
            { t with
              input := t.input.tail
              inFlightInsts := t.inFlightInsts ++ [x.id]
              inFUMemInsts := if x.isMemRef then t.inFUMemInsts ++ [x.id] else t.inFUMemInsts } with
          scoreboards := Function.update o.scoreboards tid
            ((o.scoreboards tid).markupInstDests x retireTime x.unpredictable)
          lsq := if x.isMemBarrier then o.lsq.issuedMemBarrierInst x.id else o.lsq } := rfl
    have moved : ∀ (t : Execute) (b : Nat → Scoreboard) (q : Lsq),
        { t with scoreboards := b, lsq := q }.core = { t.core with scoreboards := b, lsq := q } :=
      fun _ _ _ => rfl
    have tail : rest = (o.threads tid).input.tail := by rw [input]; rfl
    rw [placed, moved, core_updateThread, core_updateInst, tail]
    rfl
  rw [core, same]
  exact .issue rfl marks rfl issues input stream predictable

theorem issueInst_moves {tid : Nat} (sound : o.Sound) :
    Moves cfg o (.issue tid) o.core (o.issueInst cfg tid).core := by
  rw [issueInst]
  split
  next => exact .refl
  next i rest input =>
    dsimp only
    split
    next wrong =>
      have logged : ∀ t : Execute, { t with discarded := o.discarded ++ [i] }.core =
        { t.core with discarded := o.discarded ++ [i] } := fun _ => rfl
      rw [logged, core_updateThread]
      exact .single (.discardInput input)
    next right =>
      have stream : i.streamSeqNum = (o.threads tid).streamSeqNum := by grind
      split
      next free =>
        have issues : o.issues cfg tid = some i := by grind [issues]
        exact .single (enter_move issues input stream (sound i).id rfl (fun _ => rfl) rfl)
      next costly =>
        split
        next => exact .refl
        next fu d found =>
          have issues : o.issues cfg tid = some i := by grind [issues]
          refine .single (enter_move issues input stream (sound i).id rfl ?_ rfl)
          intro plain
          simp [marked, plain]

theorem arrive_moves (tid : Nat) (a : Arrival) : Moves cfg o e s.core (s.arrive tid a).core := by
  rw [arrive]
  split
  next => exact .refl
  next known =>
    have placed : ∀ x : DynInst,
        { s.updateThread tid fun t =>
            { t with
              input := t.input ++ [⟨tid, a.streamSeqNum, (s.threads tid).nextExecSeqNum⟩]
              nextExecSeqNum := t.nextExecSeqNum + 1 } with
          insts := Function.update s.insts ⟨tid, a.streamSeqNum, (s.threads tid).nextExecSeqNum⟩ x } =
        (s.updateInst ⟨tid, a.streamSeqNum, (s.threads tid).nextExecSeqNum⟩ fun _ => x).updateThread tid
          fun t => { t with
            input := t.input ++ [⟨tid, a.streamSeqNum, (s.threads tid).nextExecSeqNum⟩]
            nextExecSeqNum := t.nextExecSeqNum + 1 } := fun _ => rfl
    rw [placed, core_updateThread, core_updateInst]
    exact .single (.arrive (Nat.le_of_not_lt known) ⟨rfl, rfl⟩)

theorem outside_moves : Moves cfg o e o.core (o.outside cfg e).core := by
  cases e with
  | arrive tid a => exact arrive_moves tid a
  | finish =>
    simp only [outside, finish]
    split
    next state => exact .single (.finish rfl rfl state)
    next => exact .refl
  | perform => exact .single (.perform rfl)
  | respond k =>
    simp only [outside]
    split
    next found =>
      cases packet : o.lsq.inMemory[k]? with
      | none => simp [packet] at found
      | some =>
        rw [packet] at found
        exact .single (.respond rfl packet found)
    next => exact .refl
  | retry =>
    simp only [outside]
    split
    next needs => exact .single (.retry rfl rfl needs)
    next => exact .refl
  | drain =>
    refine .single ?_
    convert Move.drain rfl using 1
    simp only [outside, drain, core, Core.mk.injEq, and_true, true_and]
    funext tid
    by_cases state : (o.threads tid).drainState = .notDraining
    · simp only [state, ThreadInfo.line]
      rfl
    · simp [state, ThreadInfo.line]
  | drainResume => exact .single .drainResume
  | activate => rw [outside, core_updateThread_of_line rfl]
  | evaluate => exact .single (.evaluate rfl rfl)
  | interrupt | startCommit | commit | issue | advance => exact .refl

theorem running_moves (sound : o.Sound) : Moves cfg o e o.core (o.running cfg e).core := by
  rw [running.eq_def]
  split
  next => exact outside_moves
  next =>
    split
    next tid =>
      rw [takeInterrupt]
      split
      next free =>
        have phased : ∀ t : Execute, { t with phase := .advance }.core = t.core := fun _ => rfl
        rw [phased, core_updateBranchData]
        exact .single (.turn free.2)
      next => exact .refl
    next tid only =>
      split
      next => exact .refl
      next =>
        cases tid with
        | none => exact .refl
        | some tid => exact startCommit_moves tid only
    next => exact .refl
  next loop phase =>
    split
    next a => exact commitRound_moves sound phase
    next r a port =>
      rw [finish]
      split
      next state => exact .single (.finish rfl rfl state)
      next => exact .refl
    next => exact .refl
  next chosen phase =>
    split
    next tid =>
      split
      next => exact issueInst_moves sound
      next => exact .refl
    next => exact .refl
    next => exact .refl
  next => aesop

theorem step_moves (cfg : Config) (e : Event) (sound : s.Sound) : Moves cfg s e s.core (s.step cfg e).core := by
  rw [step]
  split
  · exact .refl
  · exact running_moves sound

theorem Sound.congr {t : Execute} (sound : s.Sound) (same : t.insts = s.insts) : t.Sound := by
  intro i
  rw [same]
  exact sound i

theorem Sound.updateInst {i : InstId} {f : DynInst → DynInst} (sound : s.Sound)
    (kept : (f (s.insts i)).Sound i) : (s.updateInst i f).Sound := by
  intro j
  by_cases h : j = i
  · subst h
    simpa [Execute.updateInst] using kept
  · simpa [Execute.updateInst, h] using sound j

@[simp] theorem updateBranchData_insts (s : Execute) (tid : Nat) (reason : Reason) :
    (s.updateBranchData tid reason).insts = s.insts := by
  rw [updateBranchData]
  split <;> rfl

@[simp] theorem tryToBranch_insts (s : Execute) (i : InstId) (fault : Bool) (after : PCState) :
    (s.tryToBranch i fault after).insts = s.insts :=
  updateBranchData_insts ..

@[simp] theorem suspendThread_insts (s : Execute) (i : InstId) (interrupted : Bool) :
    (s.suspendThread i interrupted).insts = s.insts := by
  rw [suspendThread]
  split
  · exact updateBranchData_insts ..
  · rfl

@[simp] theorem haltFetch_insts (s : Execute) (tid : Nat) : (s.haltFetch tid).insts = s.insts := by
  rw [haltFetch]
  split
  · exact updateBranchData_insts ..
  · rfl

@[simp] theorem afterCommit_insts (s : Execute) (tid : Nat) :
    (s.afterCommit tid).insts = s.insts := by
  simp only [afterCommit, haltFetch_insts]
  split
  · split <;> rfl
  · rfl

/-- What a round of `commit` leaves: only memory references are marked as issued. -/
structure RoundSound (d : Execute × Round) : Prop where
  sound : d.1.Sound
  issued : d.2.issuedMemRef = true → (d.1.insts d.2.inst).isMemRef = true

theorem RoundSound.idle {r : Round} (sound : s.Sound) (none : r.issuedMemRef = false) :
    RoundSound (s, r) :=
  ⟨sound, fun issued => by simp [none] at issued⟩

theorem roundSound_commitInst (cfg : Config) (i : InstId) (early : Bool) (a : CommitAnswer)
    (sound : s.Sound) : RoundSound (s.commitInst cfg i early a) := by
  rw [commitInst]
  split
  · exact .idle sound rfl
  split
  · exact .idle (sound.congr (by simp)) rfl
  split
  next memRef =>
    split
    · exact .idle sound rfl
    split
    · split
      · exact .idle (sound.updateInst ⟨(sound i).id, nofun, (sound i).inLSQ⟩) rfl
      · exact ⟨sound.congr (by simp), fun _ => by simpa using memRef⟩
    · exact ⟨sound.congr (by simp), fun _ => by simpa using memRef⟩
  split
  · exact .idle sound rfl
  split
  · exact .idle sound rfl
  · refine .idle (sound.congr ?_) rfl
    simp only [suspendThread_insts, tryToBranch_insts]
    split <;> rfl

theorem roundSound_tryToCommit {loop : CommitLoop} {i : InstId} {early : Bool} {a : CommitAnswer}
    (sound : s.Sound) : RoundSound (s.tryToCommit cfg loop i early a) := by
  have delayed : (s.delayCommit i a.extraDelay).Sound :=
    sound.updateInst ⟨(sound i).id, (sound i).early, (sound i).inLSQ⟩
  rw [tryToCommit]
  split
  · exact .idle (sound.congr rfl) rfl
  dsimp only
  split
  · exact .idle delayed rfl
  split
  · exact .idle delayed rfl
  · have round := roundSound_commitInst cfg i early a delayed
    split
    · exact ⟨round.sound.congr rfl, round.issued⟩
    · exact round

theorem roundSound_handleMemResponse {head : InstId} {r : ReqId} {a : CommitAnswer}
    (sound : s.Sound) : RoundSound (s.handleMemResponse head r a) := by
  refine .idle ?_ rfl
  refine Sound.congr ?_ (tryToBranch_insts ..)
  split
  · have marked : (s.updateInst head fun x => { x with inStoreBuffer := true }).Sound :=
      sound.updateInst ⟨(sound head).id, (sound head).early, (sound head).inLSQ⟩
    exact marked.congr rfl
  · exact sound.congr rfl

theorem roundSound_commitHead (cfg : Config) (loop : CommitLoop) (head : InstId)
    (a : CommitAnswer) (sound : s.Sound) : RoundSound (s.commitHead cfg loop head a) := by
  rw [commitHead]
  split
  · exact .idle (sound.congr (by simp)) rfl
  split
  · split
    · exact .idle (sound.congr rfl) rfl
    · exact roundSound_handleMemResponse sound
  · split
    · split
      · exact roundSound_tryToCommit sound
      · exact .idle sound rfl
    · exact .idle sound rfl

theorem sound_settle (tid : Nat) {d : Execute × Round} (round : RoundSound d) :
    (d.1.settle tid d.2).Sound := by
  have entered : ∀ t : Execute, t.insts = d.1.insts → (if d.2.issuedMemRef = true then
      t.updateInst d.2.inst fun x => { x with fuIndex := 0, inLSQ := true } else t).Sound := by
    intro t same
    have sound : t.Sound := round.sound.congr same
    split
    next issued =>
      have memRef := round.issued issued
      rw [← same] at memRef
      exact sound.updateInst ⟨(sound _).id, (sound _).early, fun _ => memRef⟩
    next => exact sound
  have popped : ∀ (t : Execute) (b : Bool), t.Sound → (if b = true then
      t.updateThread tid fun u => { u with inFUMemInsts := u.inFUMemInsts.tail } else t).Sound := by
    intro t b sound
    split
    · exact sound.congr rfl
    · exact sound
  have retired : ∀ t : Execute, t.Sound → (t.retire tid d.2).Sound := fun _ sound => sound.congr rfl
  simp only [settle]
  split
  · exact retired _ (popped _ _ (entered _ rfl))
  · exact popped _ _ (entered _ rfl)

theorem sound_commitRound {loop : CommitLoop} {a : CommitAnswer} (sound : s.Sound) :
    (s.commitRound cfg loop a).Sound := by
  rw [commitRound]
  split
  · exact sound.congr (by simp)
  next head rest inFlight =>
    have settled := sound_settle loop.tid (roundSound_commitHead cfg loop head a sound)
    dsimp only
    split
    · exact settled.congr rfl
    · exact settled.congr (by simp)

theorem sound_startCommit {tid : Nat} {only : Bool} (sound : s.Sound) :
    (s.startCommit cfg tid only).Sound := by
  have start : ∀ (t : Execute) (loop : CommitLoop), t.Sound →
      (if t.goesOn cfg loop then { t with phase := .commit loop } else t.afterCommit tid).Sound := by
    intro t loop sound
    split
    · exact sound.congr rfl
    · exact sound.congr (by simp)
  rw [startCommit]
  split
  · exact start s _ sound
  · exact start s _ sound
  · exact sound.congr (by simp)
  · exact start _ _ (sound.congr rfl)

theorem sound_enter (tid : Nat) {x : DynInst} (retireTime : Nat) (sound : s.Sound)
    (kept : x.Sound x.id) : (s.enter tid x retireTime).Sound :=
  Sound.congr (sound.updateInst (f := fun _ => x) kept) rfl

theorem sound_issueInst {tid : Nat} (sound : s.Sound) : (s.issueInst cfg tid).Sound := by
  rw [issueInst]
  split
  · exact sound
  next i rest input =>
    dsimp only
    split
    · exact sound.congr rfl
    split
    · exact sound_enter tid _ sound ⟨rfl, (sound i).early, (sound i).inLSQ⟩
    · split
      · exact sound
      next fu d found =>
        have kept : (s.marked cfg tid (s.insts i) fu (timing d (s.insts i))).Sound
            (s.marked cfg tid (s.insts i) fu (timing d (s.insts i))).id := by
          refine ⟨rfl, ?_, (sound i).inLSQ⟩
          intro early
          simp only [marked] at early
          split at early
          next memRef => exact (Bool.and_eq_true_iff.mp memRef).1
          next => exact (sound i).early early
        exact (sound_enter tid s.now sound kept).congr rfl

theorem sound_outside (sound : s.Sound) : (s.outside cfg e).Sound := by
  cases e with
  | arrive tid a =>
    simp only [outside, arrive]
    split
    · exact sound
    · intro i
      by_cases h : i = ⟨tid, a.streamSeqNum, (s.threads tid).nextExecSeqNum⟩
      · subst h
        simp only [Function.update_self]
        exact ⟨rfl, nofun, nofun⟩
      · aesop
  | finish =>
    simp only [outside, finish]
    split
    · exact sound.congr rfl
    · exact sound
  | respond | retry =>
    simp only [outside]
    split
    · exact sound.congr rfl
    · exact sound
  | _ => exact sound.congr rfl

theorem sound_step (sound : s.Sound) : (s.step cfg e).Sound := by
  rw [step]
  split
  · exact sound
  rw [running.eq_def]
  split
  next => exact sound_outside sound
  next =>
    split
    next tid =>
      rw [takeInterrupt]
      split
      · exact sound.congr (by simp)
      · exact sound
    next tid only =>
      split
      · exact sound.congr rfl
      cases tid with
      | none => exact sound.congr rfl
      | some => exact sound_startCommit sound
    next => exact sound
  next loop phase =>
    split
    next a => exact sound_commitRound sound
    next r a port =>
      rw [finish]
      split
      · exact sound.congr rfl
      · exact sound
    next => exact sound
  next chosen phase =>
    split
    next tid =>
      split
      · exact (sound_issueInst sound).congr rfl
      · exact sound
    next => exact sound.congr rfl
    next => exact sound
  next => aesop

theorem sound_init : (init cfg).Sound := fun _ => ⟨rfl, nofun, nofun⟩

/-- `commit` discards only while its thread drains. -/
def Draining (s : Execute) : Prop :=
  ∀ loop, s.phase = .commit loop → loop.discard = true →
    (s.threads loop.tid).drainState = .drainAllInsts

theorem drainState_of_update {s t : Execute} {tid : Nat} {x : ThreadInfo}
    (threads : t.threads = Function.update s.threads tid x)
    (same : x.drainState = (s.threads tid).drainState) (u : Nat) :
    (t.threads u).drainState = (s.threads u).drainState := by
  rw [threads]
  by_cases h : u = tid
  · subst h
    rw [Function.update_self, same]
  · rw [Function.update_of_ne h]

@[simp] theorem updateBranchData_drainState (s : Execute) (tid : Nat) (reason : Reason) (u : Nat) :
    ((s.updateBranchData tid reason).threads u).drainState = (s.threads u).drainState := by
  rw [updateBranchData]
  split
  · rfl
  · refine drainState_of_update rfl ?_ u
    rfl

@[simp] theorem tryToBranch_drainState (s : Execute) (i : InstId) (fault : Bool) (after : PCState)
    (u : Nat) : ((s.tryToBranch i fault after).threads u).drainState = (s.threads u).drainState :=
  updateBranchData_drainState ..

@[simp] theorem suspendThread_drainState (s : Execute) (i : InstId) (interrupted : Bool) (u : Nat) :
    ((s.suspendThread i interrupted).threads u).drainState = (s.threads u).drainState := by
  rw [suspendThread]
  split
  · exact updateBranchData_drainState ..
  · rfl

theorem commitInst_drainState (i : InstId) (early : Bool) (a : CommitAnswer) (u : Nat) :
    ((s.commitInst cfg i early a).1.threads u).drainState = (s.threads u).drainState := by
  rw [commitInst]
  split
  · rfl
  split
  · simp
  split
  · aesop
  split
  · rfl
  split
  · rfl
  · simp only [suspendThread_drainState, tryToBranch_drainState]
    split
    · refine drainState_of_update rfl ?_ u
      rfl
    · rfl

theorem commitHead_drainState (loop : CommitLoop) (head : InstId) (a : CommitAnswer) (u : Nat) :
    ((s.commitHead cfg loop head a).1.threads u).drainState = (s.threads u).drainState := by
  rw [commitHead]
  split
  · simp
  split
  · split
    · rfl
    · simp only [handleMemResponse, tryToBranch_drainState]
      split <;> rfl
  · split
    · split
      · rw [tryToCommit]
        split
        · rfl
        dsimp only
        split
        · rfl
        split
        · rfl
        · split
          · exact commitInst_drainState ..
          · exact commitInst_drainState ..
      · rfl
    · rfl

theorem settle_drainState (tid : Nat) (r : Round) (u : Nat) :
    ((s.settle tid r).threads u).drainState = (s.threads u).drainState := by
  have popped : ∀ (t : Execute) (b : Bool), ((if b = true then
      t.updateThread tid fun v => { v with inFUMemInsts := v.inFUMemInsts.tail }
      else t).threads u).drainState = (t.threads u).drainState := by
    intro t b
    split
    · refine drainState_of_update rfl ?_ u
      rfl
    · rfl
  have entered : ∀ t : Execute, ((if r.issuedMemRef = true then
      t.updateInst r.inst fun x => { x with fuIndex := 0, inLSQ := true } else t).threads
        u).drainState = (t.threads u).drainState := by
    intro t
    split <;> rfl
  have retired : ∀ t : Execute, ((t.retire tid r).threads u).drainState =
      (t.threads u).drainState := by
    intro t
    refine drainState_of_update rfl ?_ u
    rfl
  simp only [settle]
  split
  · rw [retired, popped, entered]
  · rw [popped, entered]

theorem draining_afterCommit (tid : Nat) : (s.afterCommit tid).Draining := by
  intro loop phase
  simp [afterCommit] at phase

theorem draining_commitRound {loop : CommitLoop} {a : CommitAnswer} (draining : s.Draining)
    (phase : s.phase = .commit loop) : (s.commitRound cfg loop a).Draining := by
  rw [commitRound]
  split
  · exact draining_afterCommit _
  next head rest inFlight =>
    dsimp only
    split
    · intro next phase' discard
      have same : ∀ (t : Execute) (r : Round), (t.count loop r).tid = loop.tid
          ∧ (t.count loop r).discard = loop.discard := by
        intro t r
        rw [count]
        split <;> exact ⟨rfl, rfl⟩
      obtain rfl := Phase.commit.inj phase'
      rw [(same _ _).2] at discard
      have drain := draining loop phase discard
      rw [(same _ _).1]
      exact (settle_drainState ..).trans ((commitHead_drainState ..).trans drain)
    · exact draining_afterCommit _

theorem draining_startCommit (tid : Nat) (only : Bool) : (s.startCommit cfg tid only).Draining := by
  have start : ∀ (t : Execute) (loop : CommitLoop),
      (loop.discard = true → (t.threads loop.tid).drainState = .drainAllInsts) →
      (if t.goesOn cfg loop then { t with phase := .commit loop }
        else t.afterCommit tid).Draining := by
    intro t loop drain
    split
    · intro next phase discard
      obtain rfl := Phase.commit.inj phase
      exact drain discard
    · exact draining_afterCommit _
  rw [startCommit]
  split
  · exact start s _ nofun
  · exact start s _ nofun
  · exact draining_afterCommit _
  next state =>
    refine start _ _ fun _ => ?_
    refine (drainState_of_update rfl ?_ tid).trans state
    rfl

theorem outside_phase (cfg : Config) (s : Execute) (e : Event) :
    (s.outside cfg e).phase = s.phase ∨ (s.outside cfg e).phase = .interrupts := by
  cases e with
  | arrive =>
    simp only [outside, arrive]
    split <;> exact .inl rfl
  | finish r a port => grind [outside, finish]
  | respond k => grind [outside]
  | retry port => grind [outside]
  | evaluate => exact .inr rfl
  | _ => exact .inl rfl

theorem draining_step (draining : s.Draining) : (s.step cfg e).Draining := by
  have calm : ∀ t : Execute, (∀ loop, t.phase ≠ .commit loop) → t.Draining :=
    fun t none loop phase => absurd phase (none loop)
  rw [step]
  split
  · exact draining
  rw [running.eq_def]
  split
  next idle => grind [outside_phase]
  next interrupts =>
    split
    next tid => grind [takeInterrupt]
    next tid only => grind [draining_startCommit]
    next => exact draining
  next loop phase =>
    split
    next a => exact draining_commitRound draining phase
    next r a port =>
      rw [finish]
      split
      · intro next phase' discard
        exact draining next phase' discard
      · exact draining
    next => exact draining
  next chosen phase => grind [advance]
  next => grind [advance]

/-- What the moves need to know of the stage. -/
structure Steady (s : Execute) : Prop where
  sound : s.Sound
  draining : s.Draining

theorem steady_init : (init cfg).Steady := ⟨sound_init, fun _ phase => by simp [init] at phase⟩

theorem steady_step (steady : s.Steady) : (s.step cfg e).Steady :=
  ⟨sound_step steady.sound, draining_step steady.draining⟩

/-- What the moves of the core preserve holds in every state of a guarded run. The moves of
a step may use its guard and the invariant of its origin. -/
theorem Steady.invariant {t : Execute} {guard : Execute → Event → Prop} {P : Core → Prop}
    (steady : s.Steady) (run : Runs.Reaches (step cfg) guard s t) (start : P s.core)
    (keep : ∀ o e c c', o.Steady → P o.core → guard o e → P c → Move cfg o e c c' → P c') :
    t.Steady ∧ P t.core := by
  refine Runs.Reaches.invariant (P := fun s => s.Steady ∧ P s.core) run ⟨steady, start⟩ ?_
  rintro o e ⟨steady, here⟩ ok
  refine ⟨steady_step steady, ?_⟩
  have moves := step_moves cfg e steady.sound
  generalize (step cfg o e).core = c at moves
  induction moves with
  | refl => exact here
  | tail _ move ih => exact keep o e _ _ steady here ok ih move

theorem Guarded.invariant {guard : Execute → Event → Prop} {P : Core → Prop}
    (reached : Guarded cfg guard s) (start : P (init cfg).core)
    (keep : ∀ o e c c', o.Steady → P o.core → guard o e → P c → Move cfg o e c c' → P c') :
    P s.core :=
  (steady_init.invariant reached start keep).2

end Execute

end Gem5.Minor
