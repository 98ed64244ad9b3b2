import Gem5.Lib.Runs
import Gem5.Pred.TageHistories

/-!
# Runs of TAGE

A run keeps the current path, and how many updates were made up to each of its branches. As long
as a branch may be squashed the buffer still has its window.
-/

namespace Gem5.Pred.Tage

open ThreadHistory List Function

/-- A branch on the path; `born` counts the updates up to its own. -/
structure Branch where
  pc : Addr
  taken : Bool
  bi : BranchInfo
  born : Nat

/-- The histories of one thread with the current path, the youngest branch first, and the number
of updates made so far. -/
structure Traced where
  hist : ThreadHistory
  path : List Branch
  updates : Nat

/-- A squash is for the branch with `n` younger ones on the path, `btbUpdate` for the youngest. -/
inductive Call where
  | updateHistories (branchPc : Addr) (taken speculative : Bool)
  | squash (n : Nat) (taken : Bool)
  | btbUpdate

/-- The directions of a path; there were no branches taken before the first one. -/
def directions (path : List Branch) (i : Nat) : Bool := (path[i]?.map Branch.taken).getD false

/-- The path history of the branches at these places. -/
def pathBits (prm : TageParams) : List Addr → BitVec 32
  | [] => 0
  | pc :: rest => nextPath prm (pathBits prm rest) pc

namespace Traced

variable (prm : TageParams)

def init : Traced := ⟨ThreadHistory.init prm, [], 0⟩

variable (s : Traced)

def step : Call → Option Traced
  | .updateHistories branchPc taken speculative => do
    let (hist, bi) ← updateHistories prm s.hist branchPc taken .new speculative
    if speculative then
      some ⟨hist, ⟨branchPc, taken, bi, s.updates + 1⟩ :: s.path, s.updates + 1⟩
    else some { s with hist := hist }
  | .squash n taken =>
    match s.path.drop n with
    | [] => none
    | b :: rest => do
      let hist ← squash prm s.hist taken b.bi
      some { s with hist := hist, path := { b with taken := taken } :: rest }
  | .btbUpdate =>
    match s.path with
    | [] => none
    | b :: rest => do
      let hist ← btbUpdate prm s.hist b.bi
      some { s with hist := hist, path := { b with taken := false } :: rest }

/-- The updates made after a branch are fewer than the buffer has room for. -/
def Recent (b : Branch) : Prop := s.updates - b.born + 2 * prm.maxHist < prm.histBufferSize

def Allowed : Call → Prop
  | .updateHistories _ _ _ => True
  | .squash n _ => ∃ b, s.path[n]? = some b ∧ Recent prm s b
  | .btbUpdate => s.path ≠ []

end Traced

/-- What a branch on the path has saved, and that its window is there while it may be squashed. -/
structure Saved (prm : TageParams) (s : Traced) (b : Branch) (rest : List Branch) : Prop where
  pt : b.bi.ptGhist = place prm (rest.length + 1)
  path : b.bi.pathHist = pathBits prm ((b :: rest).map Branch.pc)
  comps : b.bi.comps = (tablesOf prm (directions rest)).map TableHistory.comps
  born : b.born + (s.path.length - (rest.length + 1)) ≤ s.updates
  shows_ : s.Recent prm b →
    Shows prm s.hist.globalHistory (rest.length + 1) (directions (b :: rest))

structure Inv (prm : TageParams) (s : Traced) : Prop where
  at_ : At prm s.hist s.path.length (directions s.path)
  tables : s.hist.tables = tablesOf prm (directions s.path)
  path : s.hist.pathHist = pathBits prm (s.path.map Branch.pc)
  saved : ∀ b rest, b :: rest <:+ s.path → Saved prm s b rest

section Step

variable {prm : TageParams} {s : Traced}

theorem directions_cons (b : Branch) (rest : List Branch) :
    directions (b :: rest) = Folds.push b.taken (directions rest) := by
  funext i
  cases i with
  | zero | succ => rfl

theorem init_inv : Inv prm (Traced.init prm) := by
  refine ⟨⟨rfl, rfl, fun _ _ => rfl⟩, tablesOf_init, rfl, fun b rest suffix => ?_⟩
  exact absurd (List.suffix_nil.mp suffix) (cons_ne_nil b rest)

theorem Inv.update (accepted : prm.Accepted) (fits : prm.Fits) (inv : Inv prm s) (branchPc : Addr)
    (taken : Bool) :
    ∃ s', s.step prm (.updateHistories branchPc taken true) = some s' ∧ Inv prm s' := by
  have updated := updateHistories_at accepted fits inv.at_ inv.tables branchPc taken .new
  have shown := inv.at_.shows_.next accepted taken
  refine ⟨_, by rw [Traced.step, updated]; rfl, ⟨?_, ?_, ?_, fun b rest suffix => ?_⟩⟩
  · exact ⟨rfl, rfl, directions_cons _ s.path ▸ shown⟩
  · exact directions_cons _ s.path ▸ rfl
  · exact congrArg (nextPath prm · branchPc) inv.path
  · rcases List.suffix_cons_iff.mp suffix with new | old
    · cases new
      refine ⟨rfl, congrArg (nextPath prm · branchPc) inv.path, rfl, ?_, fun _ => ?_⟩
      · grind
      · exact directions_cons _ s.path ▸ shown
    · have saved := inv.saved b rest old
      have length := old.length_le
      have born := saved.born
      rw [length_cons] at length
      refine ⟨saved.pt, saved.path, saved.comps, ?_, fun recent => ?_⟩
      · grind
      · rw [Traced.Recent] at recent
        dsimp only at recent
        have later : s.path.length = rest.length + 1 + (s.path.length - (rest.length + 1)) := by
          omega
        have shows_ := saved.shows_ (by rw [Traced.Recent]; omega)
        have kept := shows_.rolled accepted (d := s.path.length - (rest.length + 1)) (by omega)
        have written := kept.write accepted (d := s.path.length - (rest.length + 1) + 1)
          (Nat.succ_pos _) (by omega) (byte taken)
        rw [← later, ← Nat.add_assoc, ← later] at written
        exact written

theorem Inv.rewrite (accepted : prm.Accepted) (inv : Inv prm s) {b : Branch} {rest : List Branch}
    (suffix : b :: rest <:+ s.path)
    (shows_ : Shows prm s.hist.globalHistory (rest.length + 1) (directions (b :: rest)))
    (taken : Bool) : Inv prm { s with
      hist := ⟨b.bi.pathHist,
        Function.update s.hist.globalHistory (place prm (rest.length + 1)) (byte taken),
        place prm (rest.length + 1), place prm (rest.length + 1),
        tablesOf prm (Folds.push taken (directions rest))⟩
      path := { b with taken := taken } :: rest } := by
  have own := inv.saved b rest suffix
  have length := suffix.length_le
  rw [length_cons] at length
  rw [directions_cons] at shows_
  have shown := shows_.rewrite taken
  refine ⟨⟨rfl, rfl, directions_cons _ rest ▸ shown⟩, directions_cons _ rest ▸ rfl, own.path,
    fun c older inside => ?_⟩
  rcases List.suffix_cons_iff.mp inside with same | old
  · cases same
    refine ⟨own.pt, own.path, own.comps, ?_, fun _ => directions_cons _ rest ▸ shown⟩
    have born := own.born
    dsimp only
    rw [length_cons]
    omega
  · have saved := inv.saved c older (old.trans ((suffix_cons b rest).trans suffix))
    have shorter := old.length_le
    have born := saved.born
    rw [length_cons] at shorter
    refine ⟨saved.pt, saved.path, saved.comps, ?_, fun recent => ?_⟩
    · dsimp only
      rw [length_cons]
      omega
    · have window := saved.shows_ recent
      rw [Traced.Recent] at recent
      dsimp only at recent
      have later : rest.length + 1 = older.length + 1 + (rest.length - older.length) := by omega
      have written := window.write accepted (d := rest.length - older.length) (by omega) (by omega)
        (byte taken)
      rw [← later] at written
      exact written

theorem Inv.squash (accepted : prm.Accepted) (fits : prm.Fits) (inv : Inv prm s) {n : Nat}
    {taken : Bool} (allowed : s.Allowed prm (.squash n taken)) :
    ∃ s', s.step prm (.squash n taken) = some s' ∧ Inv prm s' := by
  obtain ⟨b, found, recent⟩ := allowed
  obtain ⟨lt, rfl⟩ := List.getElem?_eq_some_iff.mp found
  have split := drop_eq_getElem_cons lt
  generalize s.path[n] = b at recent split
  have suffix : b :: s.path.drop (n + 1) <:+ s.path := split ▸ drop_suffix n s.path
  have own := inv.saved b _ suffix
  have shows_ := own.shows_ recent
  have squashed := squash_at accepted fits (directions_cons b _ ▸ shows_) inv.tables taken own.pt
    own.comps
  refine ⟨_, ?_, inv.rewrite accepted suffix shows_ taken⟩
  rw [Traced.step, split]
  simp only [squashed]
  rfl

theorem Inv.btbUpdate (accepted : prm.Accepted) (fits : prm.Fits) (inv : Inv prm s)
    (allowed : s.Allowed prm .btbUpdate) : ∃ s', s.step prm .btbUpdate = some s' ∧ Inv prm s' := by
  obtain ⟨b, rest, split⟩ := exists_cons_of_ne_nil allowed
  have suffix : b :: rest <:+ s.path := split ▸ suffix_rfl
  have own := inv.saved b rest suffix
  have length : s.path.length = rest.length + 1 := by
    rw [split]
    rfl
  have at_ := inv.at_
  have path := inv.path
  rw [length, split] at at_
  rw [split, ← own.path] at path
  have squashed := squash_at accepted fits (directions_cons b rest ▸ at_.shows_) inv.tables false
    own.pt own.comps
  have unmoved : { s.hist with
      pathHist := b.bi.pathHist
      ptGhist := b.bi.ptGhist
      gHist := b.bi.ptGhist } = s.hist :=
    ThreadHistory.ext path.symm rfl (own.pt.trans at_.pointer.symm) (own.pt.trans at_.pt.symm) rfl
  have same : ThreadHistory.btbUpdate prm s.hist b.bi
      = ThreadHistory.squash prm s.hist false b.bi := by
    rw [ThreadHistory.squash, unmoved, ThreadHistory.btbUpdate,
      if_pos (at_.pointer.trans at_.pt.symm)]
  refine ⟨_, ?_, inv.rewrite accepted suffix at_.shows_ false⟩
  rw [Traced.step, split]
  simp only [same, squashed]
  rfl

theorem Inv.step (accepted : prm.Accepted) (fits : prm.Fits) (inv : Inv prm s) {c : Call}
    (allowed : s.Allowed prm c) : ∃ s', s.step prm c = some s' ∧ Inv prm s' := by
  cases c with
  | updateHistories branchPc taken speculative =>
    cases speculative with
    | true => exact inv.update accepted fits branchPc taken
    | false =>
      refine ⟨s, ?_, inv⟩
      rw [Traced.step, updateHistories, if_neg (by rw [accepted.speculative]; decide)]
      rfl
  | squash => exact inv.squash accepted fits allowed
  | btbUpdate => exact inv.btbUpdate accepted fits allowed

theorem Inv.calculateIndicesAndTags (inv : Inv prm s) {s' : Traced} (inv' : Inv prm s')
    (pcs : s'.path.map Branch.pc = s.path.map Branch.pc)
    (dirs : s'.path.map Branch.taken = s.path.map Branch.taken)
    (overshift : BitVec 32 → Int → BitVec 32) (branchPc : Addr) :
    calculateIndicesAndTags prm s'.hist overshift branchPc
      = calculateIndicesAndTags prm s.hist overshift branchPc := by
  have same : directions s'.path = directions s.path := by
    funext i
    rw [directions, directions, ← List.getElem?_map, dirs, List.getElem?_map]
  have tables : s'.hist.tables = s.hist.tables := by
    rw [inv'.tables, inv.tables, same]
  have path : s'.hist.pathHist = s.hist.pathHist := by
    rw [inv'.path, inv.path, pcs]
  simp [ThreadHistory.calculateIndicesAndTags, gindex, tables, path]

end Step

section Threads

variable (prm : TageParams)

def step (s : ThreadID → Traced) (e : ThreadID × Call) : Option (ThreadID → Traced) :=
  ((s e.1).step prm e.2).map (Function.update s e.1)

def Allowed (s : ThreadID → Traced) (e : ThreadID × Call) : Prop := (s e.1).Allowed prm e.2

def init : ThreadID → Traced := fun _ => .init prm

variable {prm}

theorem step_inv (accepted : prm.Accepted) (fits : prm.Fits) {s : ThreadID → Traced}
    (inv : ∀ tid, Inv prm (s tid)) {e : ThreadID × Call} (allowed : Allowed prm s e) :
    ∃ s', step prm s e = some s' ∧ ∀ tid, Inv prm (s' tid) := by
  obtain ⟨next, stepped, after⟩ := (inv e.1).step accepted fits allowed
  refine ⟨Function.update s e.1 next, by rw [step, stepped]; rfl, fun tid => ?_⟩
  by_cases own : tid = e.1
  · rw [own, update_self]
    exact after
  · rw [update_of_ne own]
    exact inv tid

theorem run_inv (accepted : prm.Accepted) (fits : prm.Fits) {s : ThreadID → Traced}
    (run : Runs.Leads (step prm) (Allowed prm) (init prm) s) : ∀ tid, Inv prm (s tid) := by
  refine run.invariant (P := fun s => ∀ tid, Inv prm (s tid)) (fun _ => init_inv) ?_
  intro s e s' inv allowed stepped
  obtain ⟨next, eq, after⟩ := step_inv accepted fits inv allowed
  obtain rfl := Option.some.inj (eq.symm.trans stepped)
  exact after

/-- In every run, after any calls in which a branch is squashed only while it is recent, the
window of each thread shows the directions of its current path and every fold is the fold of
them; the next call is defined; and the indices and tags depend only on the current path. -/
theorem histories_follow_path (accepted : prm.Accepted) (fits : prm.Fits) {s : ThreadID → Traced}
    (run : Runs.Leads (step prm) (Allowed prm) (init prm) s) (tid : ThreadID) :
    (∀ i < prm.maxHist, (s tid).hist.read prm i = some (byte (directions (s tid).path i)))
      ∧ (s tid).hist.tables = tablesOf prm (directions (s tid).path)
      ∧ (∀ c, (s tid).Allowed prm c → ∃ s', step prm s (tid, c) = some s')
      ∧ ∀ s' tid' overshift branchPc, Runs.Leads (step prm) (Allowed prm) (init prm) s' →
        (s' tid').path.map Branch.pc = (s tid).path.map Branch.pc →
        (s' tid').path.map Branch.taken = (s tid).path.map Branch.taken →
        (s' tid').hist.calculateIndicesAndTags prm overshift branchPc
          = (s tid).hist.calculateIndicesAndTags prm overshift branchPc := by
  have inv := run_inv accepted fits run
  refine ⟨fun i lt => (inv tid).at_.read accepted lt.le, (inv tid).tables, fun c allowed => ?_,
    fun s' tid' overshift branchPc run' pcs dirs => ?_⟩
  · obtain ⟨s', stepped, -⟩ := step_inv (e := (tid, c)) accepted fits inv allowed
    exact ⟨s', stepped⟩
  · have inv' := run_inv accepted fits run' tid'
    exact (inv tid).calculateIndicesAndTags inv' pcs dirs overshift branchPc

end Threads

/-- One table of four entries with tags of three bits, and three directions of history. -/
def smallParams : TageParams :=
  ⟨1, 10, 3, 4, fun _ => 3, fun _ => 2, fun i => if i = 0 then 0 else 3, true, 2⟩

theorem smallParams_accepted : smallParams.Accepted where
  speculative := rfl
  buffer := by decide
  unsigned := by decide
  path := by decide
  lengths := fun _ _ _ => Nat.le_refl 3
  sizes := fun _ _ _ => (by decide : 0 < 2 ∧ 2 < 31)
  widths := fun i low _ => by simp [smallParams, Nat.ne_of_gt low]
  untagged := rfl

theorem smallParams_fits : smallParams.Fits where
  pointer := by decide
  widths := fun i low _ => by simp [smallParams, Nat.ne_of_gt low]

/-- The first branch of a thread goes to the end of the buffer; it is then found not taken. -/
theorem histories_follow_path_squashed : ∃ s s', step smallParams (init smallParams)
      (0, .updateHistories 0x1000 true true) = some s
    ∧ step smallParams s (0, .squash 0 false) = some s'
    ∧ (∀ i < 3, (s' 0).hist.read smallParams i = some (byte (directions (s' 0).path i)))
    ∧ (s' 0).hist.tables = tablesOf smallParams (directions (s' 0).path) := by
  have first : Runs.Leads (step smallParams) (Allowed smallParams) (init smallParams) _ :=
    .tail (0, .updateHistories 0x1000 true true) .refl trivial rfl
  have second : Runs.Leads (step smallParams) (Allowed smallParams) (init smallParams) _ :=
    .tail (0, .squash 0 false) first ⟨_, rfl, (by decide : 1 - 1 + 2 * 3 < 10)⟩ rfl
  have exact_ := histories_follow_path smallParams_accepted smallParams_fits second 0
  exact ⟨_, _, rfl, rfl, exact_.1, exact_.2.1⟩

/-- A buffer whose end is out of reach of an `int`. -/
def bigBuffer : TageParams := { smallParams with histBufferSize := 2 ^ 31 + 8 }

/-- Tags as wide as the folds. -/
def wideTags : TageParams :=
  { smallParams with tagTableTagWidths := fun i => if i = 0 then 0 else 32 }

/-- Both are accepted, and the first branch is not defined: the pointer leaves the buffer, or a
fold is shifted by its width. -/
theorem histories_undefined :
    (bigBuffer.Accepted ∧ step bigBuffer (init bigBuffer) (0, .updateHistories 0 true true) = none)
      ∧ wideTags.Accepted
      ∧ step wideTags (init wideTags) (0, .updateHistories 0 true true) = none :=
  ⟨⟨{ smallParams_accepted with buffer := by decide, unsigned := by decide }, rfl⟩,
    { smallParams_accepted with
      widths := fun i low _ => by simp [wideTags, Nat.ne_of_gt low]
      untagged := rfl }, rfl⟩

end Gem5.Pred.Tage
