import Gem5.FlexCPU.Reachable

/-!
# A squash undoes issue

`squashUpTo` does not restore `lastUses`: it replays the destinations of the
instructions that are left, oldest first, over the old map. What the replay does not
reach points to squashed instructions, or to older ones that have left the buffer.
-/

namespace Gem5.FlexCPU

open Thread List Option

namespace Thread

/-- The instruction that a weak pointer finds in the buffer. -/
def inFlight (t : Thread) (w : Option InstId) : Option InstId :=
  w.filter fun j => t.inflightInsts.contains j

/-- The youngest instruction in the buffer of a kind. -/
def youngest (t : Thread) (kind : StaticInst → Bool) : Option InstId :=
  t.inflightInsts.reverse.find? fun j => kind (t.insts j).staticInst

end Thread

/-- An instruction writes the registers it is recorded for. -/
def Recorded (uses : RegId → DataSource) (insts : Insts) : Prop :=
  ∀ r p, (uses r).producer = some p → r ∈ (insts p).staticInst.destRegs

section Replay

variable {t : Thread}

theorem populateUses_producer (t : Thread) (i : InstId) (r : RegId) :
    ((t.populateUses i).lastUses r).producer
      = if r ∈ (t.insts i).staticInst.destRegs then some i else (t.lastUses r).producer := by
  have general : ∀ (l : List (RegId × Nat)) (uses : RegId → DataSource),
      (l.foldl (fun uses d => fun r => if r = d.1 then ⟨some i, d.2⟩ else uses r) uses r).producer
        = if r ∈ l.map Prod.fst then some i else (uses r).producer := by
    intro l
    induction l with
    | nil => intro uses; rfl
    | cons d l ih =>
      intro uses
      rw [List.foldl_cons, ih, List.map_cons]
      by_cases hit : r = d.1
      · simp [hit]
      · simp only [List.mem_cons, hit, false_or, if_false]
  have all := general (t.insts i).staticInst.destRegs.zipIdx t.lastUses
  rwa [zipIdx_map_fst] at all

theorem foldl_populateUses_producer (l : List InstId) (t : Thread) (r : RegId) :
    ((l.foldl populateUses t).lastUses r).producer
      = (l.reverse.find? fun j => decide (r ∈ (t.insts j).staticInst.destRegs)).or
          (t.lastUses r).producer := by
  induction l generalizing t with
  | nil => rfl
  | cons j l ih =>
    rw [List.foldl_cons, ih, populateUses_producer, reverse_cons, List.find?_append,
      Option.or_assoc]
    congr 1
    by_cases writes : r ∈ (t.insts j).staticInst.destRegs
    · simp [writes]
    · simp [writes]

theorem youngest_mem {kind : StaticInst → Bool} {j : InstId} (found : t.youngest kind = some j) :
    j ∈ t.inflightInsts := by
  simpa using List.mem_of_find?_eq_some found

theorem inFlight_youngest {kind : StaticInst → Bool} {w : Option InstId}
    (stale : ∀ p, w = some p → p ∈ t.inflightInsts → kind (t.insts p).staticInst = true) :
    t.inFlight ((t.youngest kind).or w) = t.youngest kind := by
  cases found : t.youngest kind with
  | some =>
    have mem := youngest_mem found
    simp [inFlight, mem]
  | none =>
    rw [none_or, inFlight, filter_eq_none_iff]
    intro p eq inside
    have mem : p ∈ t.inflightInsts := by simpa using inside
    have none := List.find?_eq_none.mp found p (List.mem_reverse.mpr mem)
    exact none (stale p eq mem)

end Replay

/-- `u` is `t` with the buffer cut to `kept` and the instructions `vs` squashed. -/
structure Cut (t : Thread) (vs kept : List InstId) (u : Thread) : Prop where
  inflightInsts : u.inflightInsts = kept
  lastUses : u.lastUses = t.lastUses
  serializing : u.lastSerializingInstruction = t.lastSerializingInstruction
  barrier : u.lastMemBarrier = t.lastMemBarrier
  instRef : ∀ j, (u.insts j).instRef = (t.insts j).instRef
  squashed : ∀ j, (u.insts j).squashed = true ↔ j ∈ vs ∨ (t.insts j).squashed = true

section Loop

variable {cfg : Config} {t u w : Thread} {vs ws kept kept' : List InstId}

theorem Cut.refl (t : Thread) : Cut t [] t.inflightInsts t :=
  ⟨rfl, rfl, rfl, rfl, fun _ => rfl, fun _ => by simp⟩

theorem Cut.trans (first : Cut t vs kept u) (second : Cut u ws kept' w) : Cut t (vs ++ ws) kept' w  where
  inflightInsts := second.inflightInsts
  lastUses := second.lastUses.trans first.lastUses
  serializing := second.serializing.trans first.serializing
  barrier := second.barrier.trans first.barrier
  instRef := fun j => (second.instRef j).trans (first.instRef j)
  squashed := fun j => by
    rw [second.squashed, first.squashed, mem_append]
    tauto

theorem Cut.staticInst (cut : Cut t vs kept u) (j : InstId) :
    (u.insts j).staticInst = (t.insts j).staticInst := by
  rw [InflightInst.staticInst, cut.instRef]
  rfl

theorem Cut.freeBranchPredDepth (t : Thread) : Cut t [] t.inflightInsts t.freeBranchPredDepth := by
  rcases t.freeBranchPredDepth_cases with ⟨i, -, -, -, -, eq⟩ | ⟨waiting, -, eq⟩
  · rw [eq]
    refine ⟨rfl, rfl, rfl, rfl, ?_, ?_⟩
    · exact keep (·.instRef) rfl
    · intro j
      have same := keep (s := t.insts) (i := i) (x := { t.insts i with
        squashCallbacks := (t.insts i).squashCallbacks
          ++ [.squashPredictor (t.insts i).issueSeqNum] }) (·.squashed) rfl j
      change (Function.update t.insts i _ j).squashed = true ↔ _
      rw [same]
      simp
  · rw [eq]
    exact ⟨rfl, rfl, rfl, rfl, fun _ => rfl, fun _ => by simp⟩

theorem Cut.runSquashCallback (t : Thread) (cb : Callback) :
    Cut t [] t.inflightInsts (t.runSquashCallback cb) := by
  cases cb with
  | releaseIfIncomplete =>
    rw [Thread.runSquashCallback]
    split
    · exact .refl t
    · exact .freeBranchPredDepth t
  | _ => exact .refl t

theorem Cut.runSquashCallbacks (cbs : List Callback) (t : Thread) :
    Cut t [] t.inflightInsts (cbs.foldl Thread.runSquashCallback t) := by
  induction cbs generalizing t with
  | nil => exact .refl t
  | cons cb rest ih =>
    have first := Cut.runSquashCallback t cb
    have second := ih (t.runSquashCallback cb)
    rw [first.inflightInsts] at second
    exact first.trans second

theorem Cut.notifySquashed (t : Thread) (v : InstId) :
    Cut t [v] t.inflightInsts (t.notifySquashed v) := by
  unfold Thread.notifySquashed
  split
  · rename_i already
    refine ⟨rfl, rfl, rfl, rfl, fun _ => rfl, fun j => ?_⟩
    constructor
    · exact Or.inr
    · grind
  · have flagged : Cut t [v] t.inflightInsts (t.flag v) := by
      refine ⟨rfl, rfl, rfl, rfl, ?_, fun j => ?_⟩
      · exact keep (·.instRef) rfl
      · by_cases self : j = v
        · subst self
          simp [flag, update]
        · simp [flag, update, self]
    exact flagged.trans (.runSquashCallbacks _ (t.flag v))

theorem Cut.squashBacks (vs : List InstId) {t : Thread} (buffer : t.inflightInsts = kept ++ vs.reverse) :
    Cut t vs kept (vs.foldl squashBack t) := by
  induction vs generalizing t with
  | nil =>
    obtain rfl : t.inflightInsts = kept := by simpa using buffer
    exact .refl t
  | cons v vs ih =>
    have notified := Cut.notifySquashed t v
    have shorter : (t.squashBack v).inflightInsts = kept ++ vs.reverse := by
      change (t.notifySquashed v).inflightInsts.dropLast = _
      rw [notified.inflightInsts, buffer, reverse_cons, ← List.append_assoc,
        dropLast_concat]
    have back : Cut t [v] (kept ++ vs.reverse) (t.squashBack v) :=
      { inflightInsts := shorter
        lastUses := notified.lastUses
        serializing := notified.serializing
        barrier := notified.barrier
        instRef := notified.instRef
        squashed := notified.squashed }
    exact back.trans (ih shorter)

end Loop

section Invariant

variable {cfg : Config} {o : Thread} {e : Event} {t t' : Thread} {i : InstId}
  {uses : RegId → DataSource} {insts insts' : Insts}

theorem Recorded.congr (h : Recorded uses insts)
    (static : ∀ r p, (uses r).producer = some p → (insts' p).staticInst = (insts p).staticInst) :
    Recorded uses insts' := by
  intro r p eq
  rw [static r p eq]
  exact h r p eq

theorem Recorded.keep {x : InflightInst} (h : Recorded uses insts)
    (instRef : x.instRef = (insts i).instRef) : Recorded uses (Function.update insts i x) := by
  refine h.congr fun r p _ => ?_
  rw [InflightInst.staticInst, FlexCPU.keep (·.instRef) instRef]
  rfl

theorem Recorded.update {x : InflightInst} (h : Recorded uses insts)
    (unnamed : ∀ r p, (uses r).producer = some p → p ≠ i) :
    Recorded uses (Function.update insts i x) := by
  refine h.congr fun r p eq => ?_
  rw [Function.update_of_ne (unnamed r p eq)]

theorem Recorded.flaggedAll (h : Recorded uses insts) (vs : List InstId) :
    Recorded uses (FlexCPU.flaggedAll insts vs) := by
  refine h.congr fun r p _ => ?_
  unfold FlexCPU.flaggedAll
  split <;> rfl

theorem Recorded.populateUses (h : Recorded t.lastUses t.insts) (i : InstId) :
    Recorded (t.populateUses i).lastUses t.insts := by
  intro r p eq
  rw [populateUses_producer] at eq
  split at eq
  · obtain rfl : i = p := by simpa using eq
    assumption
  · exact h r p eq

theorem Recorded.populateUses_foldl (l : List InstId) (h : Recorded t.lastUses t.insts) :
    Recorded (l.foldl Thread.populateUses t).lastUses t.insts := by
  induction l generalizing t with
  | nil => exact h
  | cons j l ih => exact ih (t := t.populateUses j) (h.populateUses j)

theorem Recorded.freeBranchPredDepth (h : Recorded t.lastUses t.insts) :
    Recorded t.freeBranchPredDepth.lastUses t.freeBranchPredDepth.insts := by
  have cut := Cut.freeBranchPredDepth t
  rw [cut.lastUses]
  exact h.congr fun _ p _ => cut.staticInst p

theorem Recorded.requestMem (h : Recorded t.lastUses t.insts) :
    Recorded (t.requestMem i).lastUses (t.requestMem i).insts := by
  unfold Thread.requestMem
  split
  · exact h
  · split
    · exact h
    · exact h

theorem Recorded.extend {pc : PCState} (h : Recorded t.lastUses t.insts) (core : Core cfg t) :
    Recorded (t.extend pc).lastUses (t.extend pc).insts := by
  refine h.update fun r p eq => ?_
  exact (core.lasts.uses r p eq).1.ne

theorem Recorded.markFault (h : Recorded t.lastUses t.insts) (core : Core cfg t)
    (mem : i ∈ t.inflightInsts) (live : (t.insts i).squashed = false) (quiet : t.Quiet)
    (f : Fault) : Recorded (t.markFault cfg i f).lastUses (t.markFault cfg i f).insts := by
  obtain ⟨a, vs, w, -, -, eq⟩ := markFault_spec core mem live quiet f
  rw [eq]
  refine Recorded.flaggedAll ?_ _
  exact h.keep rfl

theorem Recorded.issue (h : Recorded t.lastUses t.insts) :
    Recorded (t.enterIssue cfg i).lastUses (t.enterIssue cfg i).insts := by
  rw [Thread.enterIssue_eq]
  refine Recorded.keep ?_ rfl
  refine (h.populateUses i).congr fun r p _ => ?_
  rw [InflightInst.staticInst, show (issuedInsts cfg t i p).instRef = (t.insts p).instRef from
    restatus_instRef ..]
  rfl

theorem Recorded.decrement {g : Gate} (h : Recorded t.lastUses t.insts) :
    Recorded (t.decrement g i).lastUses (t.decrement g i).insts := by
  unfold Thread.decrement
  split
  · have lower : Recorded t.lastUses (t.update i (·.decrement g)).insts := h.keep rfl
    dsimp only
    split
    · exact lower
    · exact lower
  · exact h

theorem Recorded.overlap {cb : Callback} {other : InstId} (h : Recorded t.lastUses t.insts)
    (kind : cb = .overlapKnown i other ∨ cb = .overlapOurs i other ∨ cb = .overlapTheirs i other)
    (fine : (t.runCallback cfg cb).panicked = none) :
    Recorded (t.runCallback cfg cb).lastUses (t.runCallback cfg cb).insts := by
  rcases runOverlap_cases t kind fine with same | new
  · rwa [same]
  · rw [new]
    have form := register_eq t i (.depend .mem .completion other)
    change t.addDependency i .mem .completion other = _ at form
    rw [form]
    exact h.congr fun _ _ _ => rfl

theorem Inv.recordedMove (inv : Inv cfg t) (h : Recorded t.lastUses t.insts)
    (move : Move cfg o e t t') : Recorded t'.lastUses t'.insts := by
  have core := inv.toCore
  cases move with
  | @decode i decoder si pc idle word hit origin =>
    refine h.update fun r p eq self => ?_
    have issued := (core.lasts.uses r p eq).2
    rw [self, idle.status] at issued
    simp [Status.le_iff, Status.rank] at issued
  | issue => exact h.issue
  | extend => exact h.extend core
  | reserve | predictStall | enterTid | execute | requestExecution | setAccess | execResult
  | loadResult | complete | effAddr | awaitMem | commit => exact h.keep rfl
  | release => exact Recorded.freeBranchPredDepth (t := { t with requests := _ }) h
  | predictExtend =>
    refine Recorded.update ?_ fun r p eq => (core.lasts.uses r p eq).1.ne
    exact h.keep rfl
  | waitTid =>
    refine Recorded.keep ?_ rfl
    exact h.keep rfl
  | setPAddrs =>
    refine h.keep ?_
    split <;> rfl
  | sendLoad =>
    refine Recorded.requestMem ?_
    exact h.keep rfl
  | @sendStore i vals can store =>
    refine Recorded.requestMem (t := (t.enterMemory i).update i (·.setResults vals)) ?_
    refine Recorded.keep ?_ rfl
    exact h.keep rfl
  | @sendFault i f can store =>
    have sent : Recorded (t.enterMemory i).lastUses (t.enterMemory i).insts := h.keep rfl
    have idle := can.toIdle.enterMemory
    exact sent.markFault (core.enterMemory can.toIdle can.ready) idle.mem idle.unsquashed
      (can.quiet store) f
  | @fault i f idle kind packets calls cause =>
    exact h.markFault core idle.mem idle.unsquashed (by simp [Quiet, calls]) f
  | decrement calls => exact Recorded.decrement (t := { t with calls := _ }) h
  | overlap calls kind fine => exact Recorded.overlap (t := { t with calls := _ }) h kind fine
  | resolveCorrect calls predictor followed correct =>
    exact Recorded.freeBranchPredDepth (t := { t with calls := _ }) h
  | @resolveWrong i rest calls predictor followed =>
    have freed := Recorded.freeBranchPredDepth (t := { t with calls := rest }) h
    obtain ⟨u, a, vs, w, rfl, -, -, -, -, -, eq⟩ := resolveWrong_spec core calls
    rw [eq]
    exact Recorded.populateUses_foldl _ (t := squashed _ vs (a ++ [i]) w) (freed.flaggedAll vs)
  | _ => exact h

end Invariant

section Undo

variable {cfg : Config} {tc : ThreadContext} {guard : Thread → Event → Prop} {t : Thread}
  {a younger : List InstId} {b : InstId}

theorem Guarded.recorded (run : Guarded cfg tc guard t) : Recorded t.lastUses t.insts := by
  refine Guarded.invariant (P := fun t => Recorded t.lastUses t.insts) run ?_ (fun _ _ h => h) ?_
  · intro r p eq
    cases eq
  · intro o e t t' _ _ _ inv h move
    exact inv.recordedMove h move

/-- `t'` is `t` as if the instructions after `b` had not been issued. -/
structure Undone (cfg : Config) (t : Thread) (older : List InstId) (b : InstId)
    (younger : List InstId) (t' : Thread) : Prop where
  buffer : t'.inflightInsts = older ++ [b]
  squashed : ∀ v ∈ younger, (t'.insts v).squashed = true
  spared : ∀ j ∈ t'.inflightInsts, (t'.insts j).squashed = true →
    j = b ∧ (t.insts b).squashed = true
  uses : ∀ r, t'.inFlight (t'.lastUses r).producer
    = t'.youngest fun si => decide (r ∈ si.destRegs)
  barrier : (∃ v ∈ younger, t.lastMemBarrier = some v) →
    t'.inFlight t'.lastMemBarrier = t'.youngest (·.isMemBarrier)
  serializing : (∃ v ∈ younger, t.lastSerializingInstruction = some v) →
    t'.inFlight t'.lastSerializingInstruction = t'.youngest (serializes cfg)

theorem rebuildLast_youngest {vs : List InstId} {last : Option InstId} {v : InstId}
    {kind : StaticInst → Bool} (victim : v ∈ vs) (names : last = some v)
    (removed : v ∉ t.inflightInsts) :
    t.inFlight (t.rebuildLast vs last kind) = t.youngest kind := by
  have any : vs.any (fun v => last == some v) = true :=
    List.any_eq_true.mpr ⟨v, victim, by simp [names]⟩
  rw [rebuildLast, if_pos any]
  refine inFlight_youngest fun p eq inside => ?_
  obtain rfl : v = p := by simpa [names] using eq
  exact absurd inside removed

theorem squashUpTo_undone (inv : Core cfg t) (recorded : Recorded t.lastUses t.insts)
    (split : t.inflightInsts = a ++ b :: younger) :
    Undone cfg t a b younger (t.squashUpTo cfg b true) := by
  have ordered := inv.heap.ordered
  have later : ∀ v ∈ younger, v ∉ a ++ [b] := by
    intro v mem kept
    have lt : v < v := Tails.lt_of_split ordered (a := a ++ [b]) (by simpa using split) kept mem
    exact Nat.lt_irrefl v lt
  have cut : Cut t younger.reverse (a ++ [b]) (younger.reverse.foldl squashBack t) :=
    .squashBacks _ (by simpa using split)
  rw [Thread.squashUpTo, Thread.youngerThan_eq split ordered]
  generalize younger.reverse.foldl squashBack t = u at cut
  obtain ⟨uses, folded⟩ := populateUses_foldl u u.inflightInsts
  have producers : ∀ r, (uses r).producer
      = (u.youngest fun si => decide (r ∈ si.destRegs)).or (t.lastUses r).producer := by
    intro r
    have all := foldl_populateUses_producer u.inflightInsts u r
    rw [folded, cut.lastUses] at all
    exact all
  simp only [if_true, rebuildLasts, folded]
  refine ⟨cut.inflightInsts, ?_, ?_, ?_, ?_, ?_⟩
  · intro v mem
    exact (cut.squashed v).mpr (Or.inl (by simpa using mem))
  · intro j mem dead
    rw [cut.inflightInsts] at mem
    rcases (cut.squashed j).mp dead with victim | before
    · exact absurd mem (later j (by simpa using victim))
    · have inside : j ∈ t.inflightInsts := by
        rw [split]
        rcases List.mem_append.mp mem with old | self
        · exact mem_append_left _ old
        · simp [List.mem_singleton.mp self]
      have last := (inv.buffer.squashed j inside before).1
      rw [split, List.getLast?_append_of_ne_nil _ (by simp)] at last
      rcases List.mem_cons.mp (List.mem_of_getLast? last) with rfl | behind
      · exact ⟨rfl, before⟩
      · exact absurd mem (later j behind)
  · intro r
    rw [producers r]
    refine inFlight_youngest fun p eq _ => ?_
    have written := recorded r p eq
    rw [← cut.staticInst p] at written
    simpa using written
  · rintro ⟨v, mem, names⟩
    refine rebuildLast_youngest (v := v) (by simpa using mem) ?_ ?_
    · exact cut.barrier.trans names
    · grind [cut.inflightInsts]
  · rintro ⟨v, mem, names⟩
    refine rebuildLast_youngest (v := v) (by simpa using mem) ?_ ?_
    · exact cut.serializing.trans names
    · grind [cut.inflightInsts]

/-- After a squash the buffer and the maps are those of the prefix that ends at `b`. -/
theorem squash_undoes_issue (run : Guarded cfg tc guard t)
    (split : t.inflightInsts = a ++ b :: younger) :
    Undone cfg t a b younger (t.squashUpTo cfg b true) :=
  squashUpTo_undone run.inv.toCore run.recorded split

/-- The squash of `onExecutionCompleted` follows the release of the prediction slot. -/
theorem wrong_prediction_undone (run : Guarded cfg tc guard t) {rest : List Call}
    (calls : t.calls = .resolveControl b :: rest) (split : t.inflightInsts = a ++ b :: younger) :
    Undone cfg ({ t with calls := rest }).freeBranchPredDepth a b younger
      ((({ t with calls := rest }).freeBranchPredDepth).squashUpTo cfg b true) := by
  obtain ⟨u, -, -, -, rfl, core, -, buffer, -⟩ := resolveWrong_spec run.inv.toCore calls
  have recorded := Recorded.freeBranchPredDepth (t := { t with calls := rest }) run.recorded
  exact squashUpTo_undone core recorded (buffer.trans split)

end Undo

/-- Every instruction is a barrier and writes the same register. -/
def barriersConfig : Config :=
  .sample fun _ => { StaticInst.sampleBarrier with destRegs := [⟨.int, 5⟩] }

/-- Three instructions are issued and a fourth is fetched. -/
def barriersRun : List Event :=
  Event.firstFetch { fetched := fun _ => 7 } ++ Event.served {} 0 2 ++ Event.served {} 1 2
    ++ Event.served {} 2 2

theorem squash_undoes_issue_barriers :
    (Thread.play barriersConfig .boot barriersRun).lastMemBarrier = some 2
      ∧ Undone barriersConfig (Thread.play barriersConfig .boot barriersRun) [0] 1 [2, 3]
        ((Thread.play barriersConfig .boot barriersRun).squashUpTo barriersConfig 1 true) :=
  ⟨by decide +kernel, squash_undoes_issue (Thread.reachable_play ..) (by decide +kernel)⟩

/-- Instruction word 3 is a branch, which is predicted. -/
def predictedConfig : Config :=
  { Config.sample fun word => if word = 3 then .sampleBranch else .nop with
    hasBranchPredictor := true }

/-- The branch has been executed and is about to be checked against its prediction. -/
def resolvingThread : Thread :=
  Thread.play predictedConfig .boot (Event.firstFetch { fetched := fun _ => 3 }
    ++ Event.served {} 0 2 ++ Event.served { taken := true, target := 0x2000, targetNpc := 0x2004 } 1 2
    ++ Event.served {} 0 3 ++ Event.served {} 1 0 ++ Event.served {} 1 0)

theorem wrong_prediction_undone_resolving :
    Undone predictedConfig ({ resolvingThread with calls := [.commitAll false] }).freeBranchPredDepth
      [] 0 [1]
      ((({ resolvingThread with calls := [.commitAll false] }).freeBranchPredDepth).squashUpTo
        predictedConfig 0 true) :=
  wrong_prediction_undone (Thread.reachable_play ..) (by decide +kernel) (by decide +kernel)

end Gem5.FlexCPU
