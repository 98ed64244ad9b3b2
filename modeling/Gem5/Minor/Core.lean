import Gem5.Minor.Execute

/-!
# What a step of Execute can do

`Core` keeps what the invariants are about: the order of the instructions of each
thread, their streams, the scoreboards and the load/store queue. Functional units,
program counters and cycles are left out. Every step of Execute is a sequence of moves
of the core; a move states its change and what the code has tested before it.
-/

namespace Gem5.Minor

/-- The part of an instruction that the core keeps. -/
structure Sketch where
  memRef : Bool
  barrier : Bool
  ends : Bool
  inLSQ : Bool
  inStoreBuffer : Bool
  unpredictable : Bool
  dests : List Nat

def DynInst.sketch (x : DynInst) : Sketch where
  memRef := x.isMemRef
  barrier := x.isMemBarrier
  ends := x.fault || x.isLastOpInInst
  inLSQ := x.inLSQ
  inStoreBuffer := x.inStoreBuffer
  unpredictable := x.unpredictable
  dests := x.trackedDests

/-- The part of `ExecuteThreadInfo` that the core keeps. -/
structure Line where
  input : List InstId
  inFlightInsts : List InstId
  streamSeqNum : Nat
  ended : Bool
  drainState : DrainState
  nextExecSeqNum : Nat

def ThreadInfo.line (t : ThreadInfo) : Line where
  input := t.input
  inFlightInsts := t.inFlightInsts
  streamSeqNum := t.streamSeqNum
  ended := t.lastCommitWasEndOfMacroop
  drainState := t.drainState
  nextExecSeqNum := t.nextExecSeqNum

structure Core where
  insts : InstId → Sketch
  threads : Nat → Line
  scoreboards : Nat → Scoreboard
  lsq : Lsq
  committed : List InstId
  discarded : List InstId

def Execute.core (s : Execute) : Core where
  insts := fun i => (s.insts i).sketch
  threads := fun tid => (s.threads tid).line
  scoreboards := s.scoreboards
  lsq := s.lsq
  committed := s.committed
  discarded := s.discarded

namespace Core

def view (c : Core) : View where
  instIsRightStream i := i.streamSeqNum == (c.threads i.threadId).streamSeqNum
  instIsHeadInst i := (c.threads i.threadId).inFlightInsts.head? == some i

def inbetween (c : Core) (tid : Nat) : Bool := (c.threads tid).ended && !c.lsq.accessesInFlight

def setInst (c : Core) (i : InstId) (x : Sketch) : Core :=
  { c with insts := Function.update c.insts i x }

def setLine (c : Core) (tid : Nat) (t : Line) : Core :=
  { c with threads := Function.update c.threads tid t }

/-- A change of stream. -/
def turn (c : Core) (tid : Nat) : Core :=
  c.setLine tid { c.threads tid with streamSeqNum := (c.threads tid).streamSeqNum + 1 }

def turnIf (c : Core) (tid : Nat) (change : Bool) : Core := if change then c.turn tid else c

/-- `retire` of Execute. -/
def retire (c : Core) (tid : Nat) (i : InstId) (committed : Bool) : Core :=
  { c.setLine tid
      { c.threads tid with
        ended := (c.insts i).ends
        inFlightInsts := (c.threads tid).inFlightInsts.tail } with
    lsq :=
      if (c.insts i).barrier then
        c.lsq.completeMemBarrierInst i (c.insts i).inStoreBuffer committed
      else c.lsq
    scoreboards := Function.update c.scoreboards tid
      ((c.insts i).dests.foldl (Scoreboard.clearDest (c.insts i).memRef) (c.scoreboards tid)) }

def logCommit (c : Core) (i : InstId) : Core := { c with committed := c.committed ++ [i] }

def logDiscard (c : Core) (i : InstId) : Core := { c with discarded := c.discarded ++ [i] }

def enterLSQ (c : Core) (i : InstId) : Core := c.setInst i { c.insts i with inLSQ := true }

end Core

/-- The instruction that `issueInst` puts in flight. -/
def Execute.issues (cfg : Config) (s : Execute) (tid : Nat) : Option InstId :=
  match (s.threads tid).input with
  | [] => none
  | i :: _ =>
    if (s.threads tid).suspended || i.streamSeqNum ≠ (s.threads tid).streamSeqNum then none
    else if (s.insts i).isNoCostInst || (s.findFU cfg tid (s.insts i)).isSome then some i
    else none

/-- The indices of the destinations that an instruction marks at its issue. -/
def Execute.issuedDests (cfg : Config) (s : Execute) (i : InstId) : List Nat :=
  if (s.insts i).fault then []
  else (Scoreboard.flattenDests cfg.flatten (s.insts i).staticInst).filterMap Scoreboard.findIndex

/-- The requests that a memory reference can push. -/
inductive Pushed (cfg : Config) (q : Lsq) (i : InstId) (barrier : Bool) : Lsq → Prop where
  | failed : Pushed cfg q i barrier (q.pushFailedRequest i barrier)
  | access (a : Access) : Pushed cfg q i barrier (q.pushRequest cfg.lsq i barrier a)

/-- The queue after the response of a request is handled. -/
inductive Handled (q : Lsq) (r : ReqId) : Bool → Lsq → Prop where
  | stored (packet : (q.reqs r).packet = true) (state : (q.reqs r).state = .storeToStoreBuffer) :
      Handled q r true ((q.sendStoreToStoreBuffer r).popResponse r)
  | plain : Handled q r false (q.popResponse r)

/-- The event starts a round of `commit` that looks at the head of a thread. -/
structure AtHead (o : Execute) (e : Execute.Event) (c : Core) (loop : CommitLoop)
    (head : InstId) : Prop where
  phase : o.phase = .commit loop
  event : ∃ a, e = .commit a
  origin : c = o.core
  inFlight : ∃ rest, (c.threads loop.tid).inFlightInsts = head :: rest

/-- `Move cfg o e c c'`: in the step that event `e` causes in state `o`, the core moves
from `c` to `c'`. -/
inductive Move (cfg : Config) (o : Execute) (e : Execute.Event) : Core → Core → Prop where
  | arrive {c : Core} {tid stream : Nat} {x : Sketch}
      (le : stream ≤ (c.threads tid).streamSeqNum)
      (fresh : x.inLSQ = false ∧ x.inStoreBuffer = false) :
      Move cfg o e c ((c.setInst ⟨tid, stream, (c.threads tid).nextExecSeqNum⟩ x).setLine tid
        { c.threads tid with
          input := (c.threads tid).input ++ [⟨tid, stream, (c.threads tid).nextExecSeqNum⟩]
          nextExecSeqNum := (c.threads tid).nextExecSeqNum + 1 })
  | finish {c : Core} {r a port} (event : e = .finish r a port) (origin : c = o.core)
      (state : (c.lsq.reqs r).state = .inTranslation) :
      Move cfg o e c { c with lsq := c.lsq.finish cfg.lsq c.view port r a }
  | perform {c : Core} {k bytes} (event : e = .perform k bytes) :
      Move cfg o e c { c with lsq := c.lsq.perform k bytes }
  | respond {c : Core} {k p} (event : e = .respond k) (found : c.lsq.inMemory[k]? = some p)
      (performed : p.performed = true) :
      Move cfg o e c { c with lsq := c.lsq.recvTimingResp k }
  | retry {c : Core} {port} (event : e = .retry port) (origin : c = o.core)
      (needs : c.lsq.needsRetry = true) :
      Move cfg o e c { c with lsq := c.lsq.recvReqRetry cfg.lsq port }
  | evaluate {c : Core} {port ports} (event : e = .evaluate port ports) (origin : c = o.core) :
      Move cfg o e c { c with lsq := c.lsq.step cfg.lsq c.view port ports }
  | drain {c : Core} (event : e = .drain) :
      Move cfg o e c { c with
        threads := fun tid =>
          if (c.threads tid).drainState = .notDraining then
            { c.threads tid with
              drainState := if c.inbetween tid then .drainHaltFetch else .drainCurrentInst }
          else c.threads tid }
  | drainResume {c : Core} :
      Move cfg o e c { c with
        threads := fun tid => { c.threads tid with drainState := .notDraining } }
  | drained {c : Core} {tid : Nat} (state : (c.threads tid).drainState = .drainCurrentInst)
      (inbetween : c.inbetween tid = true) :
      Move cfg o e c (c.setLine tid { c.threads tid with drainState := .drainHaltFetch })
  | haltFetch {c : Core} {tid : Nat} (state : (c.threads tid).drainState = .drainHaltFetch) :
      Move cfg o e c ((c.turn tid).setLine tid
        { (c.turn tid).threads tid with drainState := .drainAllInsts })
  | turn {c : Core} {tid : Nat} (inbetween : c.inbetween tid = true) :
      Move cfg o e c (c.turn tid)
  | clearInput {c : Core} {tid : Nat} (state : (c.threads tid).drainState = .drainAllInsts) :
      Move cfg o e c (c.setLine tid { c.threads tid with input := [] })
  | discardInput {c : Core} {tid i rest} (input : (c.threads tid).input = i :: rest) :
      Move cfg o e c ((c.setLine tid { c.threads tid with input := rest }).logDiscard i)
  | issue {c : Core} {tid i rest fu retireTime unpredictable dests} (event : e = .issue tid)
      (marks : dests = o.issuedDests cfg i)
      (origin : c = o.core) (issues : o.issues cfg tid = some i)
      (input : (c.threads tid).input = i :: rest)
      (stream : i.streamSeqNum = (c.threads tid).streamSeqNum)
      (predictable : (c.insts i).memRef = false → unpredictable = false) :
      Move cfg o e c
        { (c.setInst i { c.insts i with unpredictable := unpredictable, dests := dests }).setLine tid
            { c.threads tid with
              input := rest
              inFlightInsts := (c.threads tid).inFlightInsts ++ [i] } with
          scoreboards := Function.update c.scoreboards tid
            (dests.foldl (Scoreboard.markupDest i.execSeqNum fu retireTime unpredictable)
              (c.scoreboards tid))
          lsq := if (c.insts i).barrier then c.lsq.issuedMemBarrierInst i else c.lsq }
  | push {c : Core} {loop head i early q} (round : AtHead o e c loop head)
      (chosen : o.candidate cfg loop.tid head = some (i, early))
      (memRef : (c.insts i).memRef = true) (outside : (c.insts i).inLSQ = false)
      (stream : i.streamSeqNum = (c.threads loop.tid).streamSeqNum) (keep : loop.discard = false)
      (barrier : c.lsq.lastMemBarrier loop.tid = 0
        ∨ i.execSeqNum ≤ c.lsq.lastMemBarrier loop.tid)
      (pushed : Pushed cfg c.lsq i (c.insts i).barrier q) :
      Move cfg o e c (({ c with lsq := q } : Core).enterLSQ i)
  | respondCommit {c : Core} {loop head r stored q} (change : Bool)
      (round : AtHead o e c loop head)
      (response : c.lsq.findResponse cfg.lsq head = some r)
      (stream : head.streamSeqNum = (c.threads loop.tid).streamSeqNum)
      (keep : loop.discard = false) (handled : Handled c.lsq r stored q) :
      Move cfg o e c
        (((({ c with lsq := q } : Core).setInst head { c.insts head with
          inStoreBuffer := (c.insts head).inStoreBuffer || stored }).turnIf head.threadId
            change).logCommit head |>.retire loop.tid head true)
  | respondDiscard {c : Core} {loop head r} (round : AtHead o e c loop head)
      (response : c.lsq.findResponse cfg.lsq head = some r)
      (stream : head.streamSeqNum ≠ (c.threads loop.tid).streamSeqNum ∨ loop.discard = true) :
      Move cfg o e c
        ((({ c with lsq := c.lsq.popResponse r } : Core).logDiscard head).retire loop.tid head false)
  | discard {c : Core} {loop head i early} (round : AtHead o e c loop head)
      (chosen : o.candidate cfg loop.tid head = some (i, early))
      (outside : (c.insts i).inLSQ = false)
      (stream : i.streamSeqNum ≠ (c.threads loop.tid).streamSeqNum ∨ loop.discard = true) :
      Move cfg o e c ((c.logDiscard i).retire loop.tid i false)
  | execute {c : Core} {loop head} (change : Bool) (round : AtHead o e c loop head)
      (outside : (c.insts head).inLSQ = false) (plain : (c.insts head).memRef = false)
      (stream : head.streamSeqNum = (c.threads loop.tid).streamSeqNum)
      (keep : loop.discard = false) :
      Move cfg o e c (((c.turnIf head.threadId change).logCommit head).retire loop.tid head true)
  | fault {c : Core} {loop head} (change memRef : Bool) (round : AtHead o e c loop head)
      (outside : (c.insts head).inLSQ = false)
      (stream : head.streamSeqNum = (c.threads loop.tid).streamSeqNum)
      (keep : loop.discard = false) :
      Move cfg o e c (((c.setInst head { c.insts head with inLSQ := memRef }).turnIf head.threadId
        change).retire loop.tid head false)

abbrev Moves (cfg : Config) (o : Execute) (e : Execute.Event) : Core → Core → Prop :=
  Relation.ReflTransGen (Move cfg o e)

end Gem5.Minor
