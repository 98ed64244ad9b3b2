import Gem5.FlexCPU.Isa

/-!
# In-flight instructions

`InflightInst` with its status, callback vectors and dependency counters. The
closures FlexCPU stores in callback vectors are the constructors of `Callback`.
The vectors and tick stamps of the four milestones that other instructions can
wait for are functions of `Milestone`, and the two counters with their ready
callbacks are functions of `Gate`.
-/

namespace Gem5.FlexCPU

/-- Instruction objects are named by their order of creation. -/
abbrev InstId := Nat

inductive Status where
  | invalid
  | empty
  | decoded
  | issued
  | issuedTid
  | executing
  | effAddred
  | memorying
  | complete
  | committed
  deriving DecidableEq

namespace Status

/-- The enumeration value used by the `>=` tests. -/
def rank : Status → Nat
  | invalid => 0
  | empty => 1
  | decoded => 2
  | issued => 3
  | issuedTid => 4
  | executing => 5
  | effAddred => 6
  | memorying => 7
  | complete => 8
  | committed => 9

instance : LE Status := ⟨fun a b => a.rank ≤ b.rank⟩
instance : LT Status := ⟨fun a b => a.rank < b.rank⟩
instance (a b : Status) : Decidable (a ≤ b) := inferInstanceAs (Decidable (a.rank ≤ b.rank))
instance (a b : Status) : Decidable (a < b) := inferInstanceAs (Decidable (a.rank < b.rank))

theorem le_iff {a b : Status} : a ≤ b ↔ a.rank ≤ b.rank := Iff.rfl
theorem lt_iff {a b : Status} : a < b ↔ a.rank < b.rank := Iff.rfl

theorem rank_inj {a b : Status} (h : a.rank = b.rank) : a = b := by
  cases a <;> cases b <;> first | rfl | (simp [rank] at h)

end Status

/-- The events an instruction announces to its dependants. -/
inductive Milestone where
  | beginExec
  | effAddr
  | completion
  | commit
  deriving DecidableEq

namespace Milestone

/-- The status whose `>=` test says that the milestone has been passed. -/
def status : Milestone → Status
  | beginExec => .executing
  | effAddr => .effAddred
  | completion => .complete
  | commit => .committed

/-- How often an instruction announces the milestone: `executeInstruction` calls
`notifyExecuting` twice. -/
def announcements : Milestone → Nat
  | beginExec => 2
  | _ => 1

end Milestone

/-- The two counters: `exec` is `remainingDependencies` with `readyCallbacks`,
`mem` is `remainingMemDependencies` with `memReadyCallbacks`. -/
inductive Gate where
  | exec
  | mem
  deriving DecidableEq

/-- The closures stored in callback vectors. -/
inductive Callback where
  /-- registered in a parent by the `add*Dependency` family -/
  | decrement (gate : Gate) (child : InstId)
  /-- Case 1: `other` had its address when `inst` was issued -/
  | overlapKnown (inst other : InstId)
  /-- Case 2b, registered in `inst` -/
  | overlapOurs (inst other : InstId)
  /-- Case 2a, registered in `other` -/
  | overlapTheirs (inst other : InstId)
  | executeInstruction (inst : InstId)
  | sendToMemory (inst : InstId)
  | squashPredictor (issueSeqNum : Nat)
  | releaseIfIncomplete (inst : InstId)
  deriving DecidableEq

structure DataSource where
  producer : Option InstId := none
  resultIdx : Nat := 0
  deriving DecidableEq

/-- `fired` counts the calls of each `notify*` function (the tick stamps of
`TimingRecord`), and `deps` remembers which dependencies were registered; both
are only read by specifications. -/
structure InflightInst where
  status : Status := .invalid
  squashed : Bool := false
  seqNum : Nat := 0
  issueSeqNum : Nat := 0
  instRef : Option StaticInst := none
  pcState : PCState := default
  fired : Milestone → Nat := fun _ => 0
  callbacks : Milestone → List Callback := fun _ => []
  remaining : Gate → Nat := fun _ => 0
  onReady : Gate → List Callback := fun _ => []
  deps : Gate → List (Milestone × InstId) := fun _ => []
  squashCallbacks : List Callback := []
  sources : List DataSource := []
  results : List (Option RegVal) := []
  fault : Option Fault := none
  access : Option Access := none
  isSplitMemReq : Bool := false
  accessedPAddrs : Option AddrRange := none
  accessedSplitPAddrs : Option AddrRange := none

namespace InflightInst

def staticInst (inst : InflightInst) : StaticInst := inst.instRef.getD .nop

def reached (inst : InflightInst) (m : Milestone) : Bool := m.status ≤ inst.status

def isCommitted (inst : InflightInst) : Bool := inst.reached .commit

def isComplete (inst : InflightInst) : Bool := inst.reached .completion

def isEffAddred (inst : InflightInst) : Bool := inst.reached .effAddr

def isMemorying (inst : InflightInst) : Bool := Status.memorying ≤ inst.status

def isReady (inst : InflightInst) : Bool := inst.remaining .exec == 0

def isMemReady (inst : InflightInst) : Bool := inst.remaining .mem == 0

/-- `staticInst(inst_ref)`: fill the result and source tables. -/
def setStaticInst (inst : InflightInst) (si : StaticInst) : InflightInst :=
  { inst with
    instRef := some si
    results := inst.results ++ List.replicate si.destRegs.length none
    sources := inst.sources ++ List.replicate si.srcRegs.length {} }

/-- The `set*RegOperand` calls of one `execute` or `completeAcc`. -/
def setResults (inst : InflightInst) (vals : List RegVal) : InflightInst :=
  let written := List.zipWith (fun r v => some (if RegId.isZeroReg r then 0 else v))
    inst.staticInst.destRegs vals
  { inst with results := written ++ inst.results.drop written.length }

/-- Decrement of a `size_t`. -/
def predSize (n : Nat) : Nat := if n = 0 then 2 ^ 64 - 1 else n - 1

def decrement (inst : InflightInst) (g : Gate) : InflightInst :=
  { inst with remaining := fun q => if q = g then predSize (inst.remaining g)
                                    else inst.remaining q }

def addCallback (inst : InflightInst) (m : Milestone) (cb : Callback) : InflightInst :=
  { inst with callbacks := fun q => if q = m then inst.callbacks m ++ [cb]
                                    else inst.callbacks q }

def addReadyCallback (inst : InflightInst) (g : Gate) (cb : Callback) : InflightInst :=
  { inst with onReady := fun q => if q = g then inst.onReady g ++ [cb] else inst.onReady q }

/-- The child's half of the `add*Dependency` functions. -/
def awaits (inst : InflightInst) (g : Gate) (m : Milestone) (parent : InstId) : InflightInst :=
  { inst with
    remaining := fun q => if q = g then inst.remaining g + 1 else inst.remaining q
    deps := fun q => if q = g then inst.deps g ++ [(m, parent)] else inst.deps q }

/-- The status and stamp written by the `notify*` functions. -/
def passes (inst : InflightInst) (m : Milestone) : InflightInst :=
  { inst with
    status := m.status
    fired := fun q => if q = m then inst.fired m + 1 else inst.fired q }

/-- `effAddrOverlap`. -/
def effAddrOverlap (inst other : InflightInst) : Bool :=
  let hit (r q : Option AddrRange) : Bool :=
    match r, q with
    | some r, some q => r.intersects q
    | _, _ => false
  hit inst.accessedPAddrs other.accessedPAddrs
    || (inst.isSplitMemReq && hit inst.accessedSplitPAddrs other.accessedPAddrs)
    || (other.isSplitMemReq && hit inst.accessedPAddrs other.accessedSplitPAddrs)
    || (inst.isSplitMemReq && other.isSplitMemReq
        && hit inst.accessedSplitPAddrs other.accessedSplitPAddrs)

/-- The ranges `effAddrOverlap` asserts to be valid. -/
def addrsValid (inst : InflightInst) : Bool :=
  inst.accessedPAddrs.isSome && (!inst.isSplitMemReq || inst.accessedSplitPAddrs.isSome)

end InflightInst

end Gem5.FlexCPU
