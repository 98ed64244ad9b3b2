import Gem5.Minor.Order

/-!
# The counters of the scoreboard are exact

The scoreboard of a thread counts the results of its instructions in flight. The counts
are exact as long as a memory reference that was issued without `mark_unpredictable`
finishes only when no unpredictable result is counted for its destinations, a counter
has room for each issue, and a drain discards only the head.
-/

namespace Gem5.Minor

variable {tid : Nat}

/-- An instruction in flight, as the scoreboard should count it. -/
structure Writer where
  execSeqNum : Nat
  dests : List Nat
  memRef : Bool
  unpredictable : Bool

variable {l : List Writer} {dests : List Nat} {w : Writer} {P : Scoreboard → List Writer → Prop}

namespace Writer

/-- The results that instructions have for a register, with their multiplicity. -/
def results (l : List Writer) (index : Nat) : Nat := (l.map fun w => w.dests.count index).sum

/-- The number of the youngest instruction that writes a register, or 0. -/
def youngest (l : List Writer) (index : Nat) : Nat :=
  ((l.filter fun w => index ∈ w.dests).map (·.execSeqNum)).foldr max 0

theorem results_append (l : List Writer) (w : Writer) (index : Nat) :
    results (l ++ [w]) index = results l index + w.dests.count index := by
  simp [results]

theorem results_cons (l : List Writer) (w : Writer) (index : Nat) :
    results (w :: l) index = w.dests.count index + results l index := by
  simp [results]

theorem youngest_cons (l : List Writer) (w : Writer) (index : Nat) :
    youngest (w :: l) index =
      if index ∈ w.dests then max w.execSeqNum (youngest l index) else youngest l index := by
  by_cases h : index ∈ w.dests <;> simp [youngest, h]

theorem youngest_append (l : List Writer) (w : Writer) (index : Nat) :
    youngest (l ++ [w]) index =
      if index ∈ w.dests then max (youngest l index) w.execSeqNum else youngest l index := by
  induction l with
  | nil => by_cases h : index ∈ w.dests <;> simp [youngest, h]
  | cons v l ih => grind [youngest_cons]

theorem youngest_eq_zero {index : Nat} (none : results l index = 0) : youngest l index = 0:= by
  induction l with
  | nil => rfl
  | cons w l ih => grind [results_cons, youngest_cons]

theorem le_youngest {index bound : Nat} (some : results l index ≠ 0)
    (above : ∀ w ∈ l, bound ≤ w.execSeqNum) : bound ≤ youngest l index := by
  induction l with
  | nil => exact absurd rfl some
  | cons w l ih =>
    rw [youngest_cons]
    split
    next => exact le_max_of_le_left (above w List.mem_cons_self)
    next absent =>
      rw [results_cons, List.count_eq_zero.mpr absent, Nat.zero_add] at some
      exact ih some fun v inside => above v (List.mem_cons_of_mem w inside)

end Writer

namespace Scoreboard

open Writer (results youngest)

variable {b : Scoreboard} {index : Nat}

theorem inc_eq {n : Nat} (room : n + 1 < 2 ^ 16) : inc n = n + 1 := Nat.mod_eq_of_lt room

theorem dec_eq {n : Nat} (bounded : n < 2 ^ 16) (positive : n ≠ 0) : dec n = n - 1 := by
  simp only [dec]
  omega

section Markup

variable {seq fu retireTime : Nat} {unpredictable : Bool}

theorem markup_numResults (room : b.numResults index + dests.count index < 2 ^ 16) :
    (dests.foldl (markupDest seq fu retireTime unpredictable) b).numResults index =
      b.numResults index + dests.count index := by
  induction dests generalizing b with
  | nil => simp
  | cons d dests ih =>
    by_cases h : d = index
    · subst h
      rw [List.count_cons_self] at room ⊢
      have step : (markupDest seq fu retireTime unpredictable b d).numResults d =
          b.numResults d + 1 := by
        simp only [markupDest, Function.update_self]
        exact inc_eq (by omega)
      rw [List.foldl_cons, ih (by omega), step]
      omega
    · rw [List.count_cons_of_ne h] at room ⊢
      have step : (markupDest seq fu retireTime unpredictable b d).numResults index =
          b.numResults index := by
        simp [markupDest, Ne.symm h]
      rw [List.foldl_cons, ih (by omega), step]

theorem markup_numUnpredictableResults
    (room : b.numUnpredictableResults index + dests.count index < 2 ^ 16) :
    (dests.foldl (markupDest seq fu retireTime unpredictable) b).numUnpredictableResults index =
      b.numUnpredictableResults index + if unpredictable then dests.count index else 0 := by
  induction dests generalizing b with
  | nil => simp
  | cons d dests ih =>
    by_cases h : d = index
    · subst h
      rw [List.count_cons_self] at room ⊢
      have step : (markupDest seq fu retireTime unpredictable b d).numUnpredictableResults d =
          b.numUnpredictableResults d + if unpredictable then 1 else 0 := by
        simp only [markupDest]
        split
        · rw [Function.update_self]
          exact inc_eq (by omega)
        · rfl
      rw [List.foldl_cons, ih (by split at step <;> omega), step]
      split <;> omega
    · rw [List.count_cons_of_ne h] at room ⊢
      have step : (markupDest seq fu retireTime unpredictable b d).numUnpredictableResults index =
          b.numUnpredictableResults index := by
        simp only [markupDest]
        split
        · exact Function.update_of_ne (Ne.symm h) ..
        · rfl
      rw [List.foldl_cons, ih (by omega), step]

theorem markup_writingInst (dests : List Nat) :
    (dests.foldl (markupDest seq fu retireTime unpredictable) b).writingInst index =
      if index ∈ dests then max (b.writingInst index) seq else b.writingInst index := by
  induction dests generalizing b with
  | nil => simp
  | cons d dests ih =>
    have step : (markupDest seq fu retireTime unpredictable b d).writingInst index =
        if index = d then max (b.writingInst index) seq else b.writingInst index := by
      by_cases h : index = d
      · subst h
        simp only [markupDest, ↓reduceIte]
        split
        · rw [Function.update_self]
          omega
        · omega
      · simp only [markupDest]
        split
        · exact Function.update_of_ne h ..
        · rfl
    rw [List.foldl_cons, ih, step]
    by_cases first : index = d
    · grind
    · simp [first]

end Markup

section Clear

variable {unpredictable : Bool}

theorem clear_numResults (bounded : b.numResults index < 2 ^ 16)
    (counted : dests.count index ≤ b.numResults index) :
    (dests.foldl (clearDest unpredictable) b).numResults index =
      b.numResults index - dests.count index := by
  induction dests generalizing b with
  | nil => simp
  | cons d dests ih =>
    by_cases h : d = index
    · subst h
      rw [List.count_cons_self] at counted ⊢
      have step : (clearDest unpredictable b d).numResults d = b.numResults d - 1 := by
        simp only [clearDest, Function.update_self]
        exact dec_eq bounded (by omega)
      rw [List.foldl_cons, ih (by omega) (by omega), step]
      omega
    · rw [List.count_cons_of_ne h] at counted ⊢
      have step : (clearDest unpredictable b d).numResults index = b.numResults index := by
        simp [clearDest, Ne.symm h]
      rw [List.foldl_cons, ih (by omega) (by omega), step]

theorem clear_numUnpredictableResults (bounded : b.numUnpredictableResults index < 2 ^ 16) :
    (dests.foldl (clearDest unpredictable) b).numUnpredictableResults index =
      b.numUnpredictableResults index - if unpredictable then dests.count index else 0 := by
  induction dests generalizing b with
  | nil => simp
  | cons d dests ih =>
    by_cases h : d = index
    · subst h
      rw [List.count_cons_self]
      have step : (clearDest unpredictable b d).numUnpredictableResults d =
          b.numUnpredictableResults d - if unpredictable then 1 else 0 := by
        simp only [clearDest]
        split
        next clears =>
          simp only [Bool.and_eq_true, bne_iff_ne] at clears
          rw [Function.update_self, clears.1]
          exact dec_eq bounded clears.2
        next stays => grind
      rw [List.foldl_cons, ih (by rw [step]; omega), step]
      split <;> omega
    · rw [List.count_cons_of_ne h]
      have step : (clearDest unpredictable b d).numUnpredictableResults index =
          b.numUnpredictableResults index := by
        simp only [clearDest]
        split
        · exact Function.update_of_ne (Ne.symm h) ..
        · rfl
      rw [List.foldl_cons, ih (by omega), step]

theorem clear_writingInst (bounded : b.numResults index < 2 ^ 16)
    (counted : dests.count index ≤ b.numResults index) :
    (dests.foldl (clearDest unpredictable) b).writingInst index =
      if index ∈ dests ∧ b.numResults index = dests.count index then 0
      else b.writingInst index := by
  induction dests generalizing b with
  | nil => simp
  | cons d dests ih =>
    by_cases h : d = index
    · subst h
      rw [List.count_cons_self] at counted ⊢
      have left : (clearDest unpredictable b d).numResults d = b.numResults d - 1 := by
        simp only [clearDest, Function.update_self]
        exact dec_eq bounded (by omega)
      have step : (clearDest unpredictable b d).writingInst d =
          if b.numResults d = 1 then 0 else b.writingInst d := by
        simp only [clearDest]
        rw [dec_eq bounded (by omega)]
        by_cases last : b.numResults d = 1
        · simp [last]
        · rw [if_neg (by omega), if_neg last]
      rw [List.foldl_cons, ih (by omega) (by omega), step, left]
      by_cases more : d ∈ dests
      · grind
      · grind
    · rw [List.count_cons_of_ne h] at counted ⊢
      have left : (clearDest unpredictable b d).numResults index = b.numResults index := by
        simp [clearDest, Ne.symm h]
      have step : (clearDest unpredictable b d).writingInst index = b.writingInst index := by
        simp only [clearDest]
        split
        · exact Function.update_of_ne (Ne.symm h) ..
        · rfl
      rw [List.foldl_cons, ih (by omega) (by omega), step, left]
      simp [Ne.symm h]

end Clear

/-- The counters agree with the instructions in flight, and none of them has wrapped. -/
structure Exact (b : Scoreboard) (l : List Writer) : Prop where
  numResults : ∀ index, b.numResults index = results l index
  numUnpredictableResults : ∀ index,
    b.numUnpredictableResults index = results (l.filter (·.unpredictable)) index
  writingInst : ∀ index, b.writingInst index = youngest l index
  bounded : ∀ index, results l index < 2 ^ 16

theorem results_filter_le (p : Writer → Bool) (l : List Writer) (index : Nat) :
    results (l.filter p) index ≤ results l index := by
  induction l with
  | nil => simp
  | cons w l ih => grind [Writer.results_cons]

/-- The results are counted, and the youngest writer is known. -/
structure Tracks (b : Scoreboard) (l : List Writer) : Prop where
  numResults : ∀ index, b.numResults index = results l index
  writingInst : ∀ index, b.writingInst index = youngest l index
  bounded : ∀ index, results l index < 2 ^ 16

theorem Exact.tracks (exact : Exact b l) : Tracks b l :=
  ⟨exact.numResults, exact.writingInst, exact.bounded⟩

theorem Tracks.markup {fu retireTime : Nat} (tracks : Tracks b l)
    (room : ∀ index, results l index + w.dests.count index < 2 ^ 16) :
    Tracks (w.dests.foldl (markupDest w.execSeqNum fu retireTime w.unpredictable) b) (l ++ [w])  where
  numResults index := by
    have count := tracks.numResults index
    rw [markup_numResults (by rw [count]; exact room index), Writer.results_append, count]
  writingInst index := by
    rw [markup_writingInst, Writer.youngest_append, tracks.writingInst index]
  bounded index := by
    rw [Writer.results_append]
    exact room index

theorem Exact.markup {fu retireTime : Nat} (exact : Exact b l)
    (room : ∀ index, results l index + w.dests.count index < 2 ^ 16) :
    Exact (w.dests.foldl (markupDest w.execSeqNum fu retireTime w.unpredictable) b) (l ++ [w])  where
  numResults := (exact.tracks.markup room).numResults
  numUnpredictableResults index := by
    have count := exact.numUnpredictableResults index
    have fits := room index
    have part := results_filter_le (·.unpredictable) l index
    rw [markup_numUnpredictableResults (by omega), List.filter_append, count]
    cases h : w.unpredictable
    · simp [h]
    · simp [h, Writer.results_append]
  writingInst := (exact.tracks.markup room).writingInst
  bounded index := by
    rw [Writer.results_append]
    exact room index

theorem Tracks.clear (tracks : Tracks b (w :: l)) (oldest : ∀ v ∈ l, w.execSeqNum ≤ v.execSeqNum) :
    Tracks (w.dests.foldl (clearDest w.memRef) b) l where
  numResults index := by
    have count := tracks.numResults index
    have bounded := tracks.bounded index
    rw [Writer.results_cons] at count bounded
    rw [clear_numResults (by omega) (by omega), count]
    omega
  writingInst index := by
    have count := tracks.numResults index
    have bounded := tracks.bounded index
    rw [Writer.results_cons] at count bounded
    rw [clear_writingInst (by omega) (by omega), tracks.writingInst index, Writer.youngest_cons]
    split
    next last => exact (Writer.youngest_eq_zero (by omega)).symm
    next more => grind [Writer.le_youngest]
  bounded index := by
    have bounded := tracks.bounded index
    rw [Writer.results_cons] at bounded
    omega

theorem Exact.clear (exact : Exact b (w :: l)) (marked : w.unpredictable = true → w.memRef = true)
    (matched : w.memRef = true → w.unpredictable = false → ∀ index ∈ w.dests,
    b.numUnpredictableResults index = 0) (oldest : ∀ v ∈ l, w.execSeqNum ≤ v.execSeqNum) :
    Exact (w.dests.foldl (clearDest w.memRef) b) l  where
  numResults := (exact.tracks.clear oldest).numResults
  numUnpredictableResults index := by
    have count := exact.numUnpredictableResults index
    have bounded := exact.bounded index
    have part := results_filter_le (·.unpredictable) (w :: l) index
    rw [clear_numUnpredictableResults (by omega), count]
    cases h : w.unpredictable
    · grind
    · grind [Writer.results_cons]
  writingInst := (exact.tracks.clear oldest).writingInst
  bounded := (exact.tracks.clear oldest).bounded

end Scoreboard

def Sketch.writer (x : Sketch) (i : InstId) : Writer :=
  ⟨i.execSeqNum, x.dests, x.memRef, x.unpredictable⟩

namespace Core

variable {c d : Core}

/-- The instructions in flight of a thread, as its scoreboard should count them. -/
def writers (c : Core) (tid : Nat) : List Writer :=
  (c.threads tid).inFlightInsts.map fun i => (c.insts i).writer i

/-- Each scoreboard is exact, and only memory references are unpredictable. -/
structure Counted (c : Core) : Prop where
  exact : ∀ tid, (c.scoreboards tid).Exact (c.writers tid)
  unpredictable : ∀ tid, ∀ w ∈ c.writers tid, w.unpredictable = true → w.memRef = true

/-- A property of the scoreboard of every thread and of the instructions it counts. -/
def Boards (P : Scoreboard → List Writer → Prop) (c : Core) : Prop :=
  ∀ tid, P (c.scoreboards tid) (c.writers tid)

theorem counted_iff : c.Counted ↔ c.Boards fun b l =>
    b.Exact l ∧ ∀ w ∈ l, w.unpredictable = true → w.memRef = true := by
  constructor
  · intro counted tid
    exact ⟨counted.exact tid, counted.unpredictable tid⟩
  · intro boards
    exact ⟨fun tid => (boards tid).1, fun tid => (boards tid).2⟩

theorem Boards.congr (boards : c.Boards P) (scoreboards : d.scoreboards = c.scoreboards)
    (writers : d.writers = c.writers) : d.Boards P := by
  intro tid
  rw [scoreboards, writers]
  exact boards tid

theorem writers_congr (inFlight : (d.threads tid).inFlightInsts = (c.threads tid).inFlightInsts)
    (insts : ∀ i ∈ (c.threads tid).inFlightInsts, (d.insts i).writer i = (c.insts i).writer i) :
    d.writers tid = c.writers tid := by
  rw [writers, writers, inFlight]
  exact List.map_congr_left insts

theorem setInst_insts (c : Core) (i j : InstId) (x : Sketch) :
    (c.setInst i x).insts j = if j = i then x else c.insts j := by
  simp [setInst, Function.update_apply]

theorem writers_setInst (c : Core) (i : InstId) (x : Sketch)
    (same : x.writer i = (c.insts i).writer i) : (c.setInst i x).writers = c.writers := by
  funext tid
  refine writers_congr rfl ?_
  intro j _
  rw [setInst_insts]
  split
  next h => exact h ▸ same
  next => rfl

theorem writers_setInst_of_notMem {i : InstId} {x : Sketch}
    (absent : i ∉ (c.threads tid).inFlightInsts) : (c.setInst i x).writers tid = c.writers tid := by
  refine writers_congr rfl ?_
  intro j inside
  rw [setInst_insts, if_neg]
  rintro rfl
  exact absent inside

theorem writers_turnIf (c : Core) (tid : Nat) (change : Bool) :
    (c.turnIf tid change).writers = c.writers := by
  funext u
  refine writers_congr ?_ ?_
  · rw [turnIf_threads]
  · intro i _
    rw [turnIf_insts]

theorem turnIf_scoreboards (c : Core) (tid : Nat) (change : Bool) :
    (c.turnIf tid change).scoreboards = c.scoreboards := by
  cases change <;> rfl

theorem writers_setLine (c : Core) {t : Line}
    (same : t.inFlightInsts = (c.threads tid).inFlightInsts) :
    (c.setLine tid t).writers = c.writers := by
  funext u
  refine writers_congr ?_ fun _ _ => rfl
  rw [setLine_threads]
  split
  next h => exact h ▸ same
  next => rfl

theorem Ordered.oldest {head : InstId} {rest : List InstId} (ordered : c.Ordered)
    (inFlight : (c.threads tid).inFlightInsts = head :: rest) :
    ∀ i ∈ rest, head.execSeqNum < i.execSeqNum := by
  have increasing := (ordered tid).increasing
  rw [Line.unfinished, inFlight, List.cons_append, List.pairwise_cons] at increasing
  exact fun i inside => increasing.1 i (List.mem_append_left _ inside)

@[simp] theorem retire_insts (c : Core) (tid : Nat) (i : InstId) (committed : Bool) :
    (c.retire tid i committed).insts = c.insts :=
  rfl

theorem Boards.retire {head : InstId} {committed : Bool} {rest : List InstId} (boards : d.Boards P)
    (inFlight : (d.threads tid).inFlightInsts = head :: rest)
    (clear : ∀ l, P (d.scoreboards tid) ((d.insts head).writer head :: l) →
      (∀ v ∈ l, ∃ i ∈ rest, v.execSeqNum = i.execSeqNum) →
      P ((d.insts head).dests.foldl (Scoreboard.clearDest (d.insts head).memRef)
        (d.scoreboards tid)) l) :
    (d.retire tid head committed).Boards P := by
  intro u
  by_cases same : u = tid
  · subst same
    have split : d.writers u = (d.insts head).writer head ::
        (d.retire u head committed).writers u := by
      simp [writers, retire_threads, inFlight]
    have before := boards u
    rw [split] at before
    have board : (d.retire u head committed).scoreboards u = (d.insts head).dests.foldl
        (Scoreboard.clearDest (d.insts head).memRef) (d.scoreboards u) :=
      Function.update_self ..
    rw [board]
    refine clear _ before ?_
    intro v later
    simp only [writers, retire_threads, inFlight, List.mem_map] at later
    obtain ⟨i, inside, rfl⟩ := later
    exact ⟨i, inside, rfl⟩
  · have others : (d.retire tid head committed).writers u = d.writers u := by
      refine writers_congr ?_ fun _ _ => rfl
      rw [retire_threads, if_neg same]
    have kept : (d.retire tid head committed).scoreboards u = d.scoreboards u :=
      Function.update_of_ne same ..
    rw [others, kept]
    exact boards u

theorem Boards.issue {P : Scoreboard → List Writer → Prop} {tid fu retireTime : Nat} {i : InstId}
    {unpredictable : Bool} {dests : List Nat} {t : Line} {q : Lsq} (boards : c.Boards P)
    (absent : ∀ u, i ∉ (c.threads u).inFlightInsts)
    (markup : P (c.scoreboards tid) (c.writers tid) →
      P (dests.foldl (Scoreboard.markupDest i.execSeqNum fu retireTime unpredictable)
          (c.scoreboards tid))
        (c.writers tid ++ [⟨i.execSeqNum, dests, (c.insts i).memRef, unpredictable⟩]))
    (line : t.inFlightInsts = (c.threads tid).inFlightInsts ++ [i]) :
    Boards P
      { (c.setInst i { c.insts i with unpredictable := unpredictable, dests := dests }).setLine tid
          t with
        scoreboards := Function.update c.scoreboards tid
          (dests.foldl (Scoreboard.markupDest i.execSeqNum fu retireTime unpredictable)
            (c.scoreboards tid))
        lsq := q } := by
  generalize after :
    ({ (c.setInst i { c.insts i with unpredictable := unpredictable, dests := dests }).setLine tid
          t with
        scoreboards := Function.update c.scoreboards tid
          (dests.foldl (Scoreboard.markupDest i.execSeqNum fu retireTime unpredictable)
            (c.scoreboards tid))
        lsq := q } : Core) = d
  have sketches : d.insts =
      (c.setInst i { c.insts i with unpredictable := unpredictable, dests := dests }).insts := by
    rw [← after]
    rfl
  have lines : d.threads = (c.setLine tid t).threads := by
    rw [← after]
    rfl
  have updated : d.scoreboards = Function.update c.scoreboards tid
      (dests.foldl (Scoreboard.markupDest i.execSeqNum fu retireTime unpredictable)
        (c.scoreboards tid)) := by
    rw [← after]
  have kept : ∀ u, (c.threads u).inFlightInsts.map (fun j => (d.insts j).writer j) = c.writers u := by
    intro u
    rw [sketches]
    exact writers_setInst_of_notMem (absent u)
  intro u
  by_cases same : u = tid
  · subst same
    have last : d.writers u = c.writers u ++
        [⟨i.execSeqNum, dests, (c.insts i).memRef, unpredictable⟩] := by
      rw [writers, lines, setLine_threads, if_pos rfl, line, List.map_append, kept, sketches]
      simp [setInst, Sketch.writer]
    rw [last, updated, Function.update_self]
    exact markup (boards u)
  · have others : d.writers u = c.writers u := by
      rw [writers, lines, setLine_threads, if_neg same, kept]
    rw [others, updated, Function.update_of_ne same]
    exact boards u

end Core

namespace Execute

variable {cfg : Config} {s : Execute}

/-- The instructions in flight of a thread, as its scoreboard should count them. -/
def writers (s : Execute) (tid : Nat) : List Writer :=
  (s.threads tid).inFlightInsts.map fun i =>
    ⟨i.execSeqNum, (s.insts i).trackedDests, (s.insts i).isMemRef, (s.insts i).unpredictable⟩

/-- The head of a round of `commit` is a memory reference without `mark_unpredictable`
only when no unpredictable result is counted for its destinations, and a drain discards
nothing but the head. -/
def clearsItsOwn (cfg : Config) (s : Execute) (loop : CommitLoop) : Bool :=
  match (s.threads loop.tid).inFlightInsts with
  | [] => true
  | head :: _ =>
    (!(s.insts head).isMemRef || (s.insts head).unpredictable
      || (s.insts head).trackedDests.all fun index =>
        (s.scoreboards loop.tid).numUnpredictableResults index == 0)
    && (!loop.discard || (s.candidate cfg loop.tid head).all fun chosen => chosen.1 == head)

/-- The counters have room for the destinations of the instruction that is issued. -/
def hasRoom (cfg : Config) (s : Execute) (tid : Nat) : Bool :=
  (s.issues cfg tid).all fun i => (s.issuedDests cfg i).all fun index =>
    decide ((s.scoreboards tid).numResults index + (s.issuedDests cfg i).count index < 2 ^ 16)

def countersMatch (cfg : Config) (s : Execute) (e : Event) : Bool :=
  match s.phase, e with
  | .commit loop, .commit _ => s.clearsItsOwn cfg loop
  | _, .issue tid => s.hasRoom cfg tid
  | _, _ => true

theorem clearsItsOwn_of_countersMatch {e : Event} {loop : CommitLoop} {head : InstId}
    (ok : s.countersMatch cfg e = true) (round : AtHead s e s.core loop head) :
    ((s.insts head).isMemRef = true → (s.insts head).unpredictable = false →
      ∀ index ∈ (s.insts head).trackedDests,
        (s.scoreboards loop.tid).numUnpredictableResults index = 0) ∧
    (loop.discard = true → ∀ i early, s.candidate cfg loop.tid head = some (i, early) → i = head) := by
  obtain ⟨a, rfl⟩ := round.event
  obtain ⟨rest, inFlight⟩ := round.inFlight
  have inFlight : (s.threads loop.tid).inFlightInsts = head :: rest := inFlight
  simp only [countersMatch, round.phase, clearsItsOwn] at ok
  constructor
  · grind
  · grind

theorem hasRoom_of_countersMatch (ok : s.countersMatch cfg (.issue tid) = true) :
    s.hasRoom cfg tid = true := by
  cases h : s.phase <;> simpa [countersMatch] using ok

/-- A property of the scoreboards is kept if it survives the retirement of a head, and its
markup at issue, and if drains discard only heads. -/
theorem boards_move {o : Execute} {e : Event} {c c' : Core} (sound : o.Sound) (ordered : c.Ordered)
    (clear : ∀ {loop head}, AtHead o e o.core loop head → ∀ l, P (o.scoreboards loop.tid) ((o.insts
    head).sketch.writer head :: l) → (∀ v ∈ l, head.execSeqNum ≤ v.execSeqNum) → P ((o.insts
    head).trackedDests.foldl (Scoreboard.clearDest (o.insts head).isMemRef) (o.scoreboards
    loop.tid)) l) (markup : ∀ {tid i} (fu retireTime : Nat) (unpredictable : Bool), e = .issue tid →
    o.issues cfg tid = some i → ((o.insts i).isMemRef = false → unpredictable = false) → ∀ l, P
    (o.scoreboards tid) l → P ((o.issuedDests cfg i).foldl (Scoreboard.markupDest i.execSeqNum fu
    retireTime unpredictable) (o.scoreboards tid)) (l ++ [⟨i.execSeqNum, o.issuedDests cfg i,
    (o.insts i).isMemRef, unpredictable⟩])) (headed : ∀ {loop head}, AtHead o e o.core loop head →
    loop.discard = true → ∀ i early, o.candidate cfg loop.tid head = some (i, early) → i = head)
    (boards : c.Boards P) (move : Move cfg o e c c') : c'.Boards P := by
  -- Every retirement removes the head and clears its own destinations.
  have retires : ∀ {loop head committed} (d : Core), AtHead o e c loop head →
      d.scoreboards = c.scoreboards → d.writers = c.writers →
      (d.threads loop.tid).inFlightInsts = (c.threads loop.tid).inFlightInsts →
      (d.insts head).writer head = (c.insts head).writer head →
      (d.retire loop.tid head committed).Boards P := by
    intro loop head committed d round scoreboards writers inFlight same
    obtain ⟨rest, line⟩ := round.inFlight
    obtain rfl := round.origin
    refine (boards.congr scoreboards writers).retire (inFlight.trans line) ?_
    intro l before later
    have survives := clear round l
    rw [same, scoreboards] at before
    simp only [Sketch.writer, Writer.mk.injEq, true_and] at same
    rw [same.1, same.2.1, scoreboards]
    refine survives before ?_
    intro v inside
    obtain ⟨i, younger, number⟩ := later v inside
    exact number ▸ (ordered.oldest line i younger).le
  cases move with
  | @arrive tid stream x le fresh =>
    refine boards.congr rfl ((Core.writers_setLine _ ?_).trans ?_)
    · rfl
    funext u
    refine Core.writers_setInst_of_notMem fun inside => ?_
    have known := List.mem_append_left (c.threads u).input inside
    obtain rfl : tid = u := (ordered u).thread _ known
    exact absurd ((ordered tid).numbered _ known).2 (Nat.lt_irrefl _)
  | finish | perform | respond | retry | evaluate | drainResume => exact boards.congr rfl rfl
  | drain =>
    refine boards.congr rfl ?_
    funext u
    refine Core.writers_congr ?_ fun _ _ => rfl
    dsimp only
    split <;> rfl
  | drained | turn | clearInput => exact boards.congr rfl (Core.writers_setLine _ rfl)
  | haltFetch =>
    refine boards.congr rfl ((Core.writers_setLine _ ?_).trans ?_)
    · rfl
    · exact Core.writers_setLine _ rfl
  | discardInput => exact boards.congr rfl (Core.writers_setLine c rfl)
  | @issue tid i rest fu retireTime unpredictable dests event marks origin issues input stream
      predictable =>
    subst origin event marks
    have unissued : i ∈ (o.core.threads tid).input := by simp [input]
    have thread : i.threadId = tid := (ordered tid).thread i (List.mem_append_right _ unissued)
    have absent : ∀ u, i ∉ (o.core.threads u).inFlightInsts := by
      intro u inside
      obtain rfl : i.threadId = u := (ordered u).thread i (List.mem_append_left _ inside)
      subst thread
      exact List.disjoint_of_nodup_append (ordered i.threadId).nodup inside unissued
    exact boards.issue absent (markup fu retireTime unpredictable rfl issues predictable _) rfl
  | push round chosen memRef outside stream keep barrier pushed =>
    exact boards.congr rfl (Core.writers_setInst _ _ _ rfl)
  | respondCommit change round response stream keep handled =>
    refine retires _ round ?_ ?_ ?_ ?_
    · exact Core.turnIf_scoreboards _ _ change
    · refine (Core.writers_turnIf _ _ change).trans ?_
      exact Core.writers_setInst _ _ _ rfl
    · simp [Core.logCommit, Core.turnIf_threads, Core.setInst]
    · simp [Core.logCommit, Core.setInst, Sketch.writer]
  | respondDiscard round response stream => exact retires _ round rfl rfl rfl rfl
  | @discard loop head i early round chosen outside stream =>
    have same : i = head := by
      obtain rfl := round.origin
      obtain ⟨-, ⟨-, -, right⟩ | ⟨-, same⟩⟩ := candidate_cases sound chosen
      · have drain : loop.discard = true := stream.resolve_left fun wrong => wrong right
        exact headed round drain i early chosen
      · exact same
    subst same
    exact retires _ round rfl rfl rfl rfl
  | execute change round outside plain stream keep =>
    refine retires _ round ?_ ?_ ?_ ?_
    · exact Core.turnIf_scoreboards _ _ change
    · exact Core.writers_turnIf _ _ change
    · simp [Core.logCommit, Core.turnIf_threads]
    · simp [Core.logCommit]
  | fault change memRef round outside stream keep =>
    refine retires _ round ?_ ?_ ?_ ?_
    · exact Core.turnIf_scoreboards _ _ change
    · refine (Core.writers_turnIf _ _ change).trans ?_
      exact Core.writers_setInst _ _ _ rfl
    · simp [Core.turnIf_threads, Core.setInst]
    · simp [Core.setInst, Sketch.writer]

theorem room_of_hasRoom {i : InstId} (room : s.hasRoom cfg tid = true)
    (issues : s.issues cfg tid = some i) (tracks : (s.scoreboards tid).Tracks l) (index : Nat) :
    Writer.results l index + (s.issuedDests cfg i).count index < 2 ^ 16 := by
  simp only [hasRoom, issues, Option.all_some, List.all_eq_true, decide_eq_true_eq] at room
  rw [← tracks.numResults index]
  by_cases inside : index ∈ s.issuedDests cfg i
  · exact room index inside
  · rw [List.count_eq_zero.mpr inside, tracks.numResults index]
    exact tracks.bounded index

theorem counted_move {o : Execute} {e : Event} {c c' : Core} (sound : o.Sound)
    (ok : o.countersMatch cfg e = true) (ordered : c.Ordered) (counted : c.Counted)
    (move : Move cfg o e c c') : c'.Counted := by
  rw [Core.counted_iff] at counted ⊢
  refine boards_move sound ordered ?_ ?_ ?_ counted move
  · rintro loop head round l ⟨exact, marked⟩ oldest
    refine ⟨?_, fun w inside => marked w (List.mem_cons_of_mem _ inside)⟩
    exact exact.clear (w := (o.insts head).sketch.writer head) (marked _ List.mem_cons_self)
      (clearsItsOwn_of_countersMatch ok round).1 oldest
  · rintro tid i fu retireTime unpredictable rfl issues predictable l ⟨exact, marked⟩
    refine ⟨?_, ?_⟩
    · exact exact.markup
        (w := ⟨i.execSeqNum, o.issuedDests cfg i, (o.insts i).isMemRef, unpredictable⟩)
        (room_of_hasRoom (hasRoom_of_countersMatch ok) issues exact.tracks)
    · grind
  · intro loop head round drain
    exact (clearsItsOwn_of_countersMatch ok round).2 drain

theorem counted_init : (init cfg).core.Counted := by
  constructor
  · intro tid
    constructor <;> intro index <;> simp [init, core, Core.writers, ThreadInfo.line, Writer.results,
      Writer.youngest]
  · simp [init, core, Core.writers, ThreadInfo.line]

/-- In every run whose steps match the counters, the counters are exact. -/
theorem scoreboard_exact
    (reached : Guarded cfg (fun s e => s.countersMatch cfg e = true) s) (tid : Nat) :
    (s.scoreboards tid).Exact (s.writers tid) := by
  have inv : s.core.Ordered ∧ s.core.Counted := by
    refine reached.invariant (P := fun c => c.Ordered ∧ c.Counted)
      ⟨ordered_init cfg, counted_init⟩ ?_
    rintro o e c c' steady - ok ⟨ordered, counted⟩ move
    exact ⟨move.ordered ordered, counted_move steady.sound ok ordered counted move⟩
  exact inv.2.exact tid

/-- Two load units: only the first one assumes an extra latency. -/
def twoLoadUnits : Config where
  allowEarlyMemIssue := true
  commitLimit := 2
  memoryCommitLimit := 1
  funcUnits := [
    { opLat := 1, provides := (· == 1), findTiming := fun _ => some { extraAssumedLat := 2 } },
    { opLat := 1, provides := (· == 2), findTiming := fun _ => some {} }]
  lsq := ⟨1, 64, 1, 2, 5, 1⟩
  flatten := id

/-- A load of register 5 in one of the two units. -/
def loadOf (opClass : Nat) (memory : opClass ≠ 0) : Arrival where
  streamSeqNum := 1
  staticInst := { isMemRef := true, isLoad := true, opClass := opClass,
                  destRegs := [⟨.int, 5⟩], memRef_opClass := fun _ => memory }

/-- Two loads enter flight, and the first one is sent to memory. -/
def loadPair (first second : Arrival) : List Event :=
  [.arrive 0 first, .arrive 0 second,
    .evaluate {} [], .startCommit (some 0) false, .issue 0, .issue 0, .advance,
    .evaluate {} [], .startCommit (some 0) false,
    .commit { initAcc := .access { isLoad := true, addr := 64, size := 8 } }, .commit {}, .advance,
    .finish 0 { paddr := 64 } {}, .perform 0 fun _ => 0, .respond 0]

/-- The first load commits. -/
def loadPairCommits (first second : Arrival) : List Event :=
  loadPair first second ++ [.evaluate {} [], .startCommit (some 0) false, .commit {}]

/-- The unmarked load comes second: its result is still to come, the counters are exact. -/
theorem scoreboard_exact_load_pair :
    let s := play twoLoadUnits (loadPairCommits (loadOf 2 (by simp)) (loadOf 1 (by simp)))
    Guarded twoLoadUnits (fun s e => s.countersMatch twoLoadUnits e = true) s
      ∧ (s.scoreboards 0).Exact (s.writers 0)
      ∧ (s.scoreboards 0).numResults 5 = 1 ∧ (s.scoreboards 0).writingInst 5 = 2 := by
  intro s
  have reached : Guarded twoLoadUnits (fun s e => s.countersMatch twoLoadUnits e = true) s :=
    Guarded.play (by decide +kernel)
  exact ⟨reached, scoreboard_exact reached 0, by decide +kernel, by decide +kernel⟩

/-- The unmarked load comes first: its retirement takes away the mark of the second load,
which is still in flight. -/
theorem unpredictable_result_forgotten :
    ¬ ∀ (cfg : Config) (s : Execute), Reachable cfg s →
      ∀ tid, (s.scoreboards tid).Exact (s.writers tid) := by
  intro all
  have exact := all twoLoadUnits
    (play twoLoadUnits (loadPairCommits (loadOf 1 (by simp)) (loadOf 2 (by simp))))
    (reachable_play ..) 0
  have forgotten := exact.numUnpredictableResults 5
  revert forgotten
  decide +kernel

end Execute

end Gem5.Minor
