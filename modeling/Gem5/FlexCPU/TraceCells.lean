import Gem5.FlexCPU.BguTracer
import Mathlib.Data.List.TakeWhile

/-!
# The cells of the trace

A cell is written and read again: what is split up is what was joined. Packages of a stage
that are added to an empty cell are merged, column by column, and so are all packages of one
tick unless the tracer ends the row between them.
-/

namespace Gem5.FlexCPU

open List Option

variable {components : List Text}

theorem commaSeperated_eq (inVec : List Text) : commaSeperated inVec = [','].intercalate inVec := by
  induction inVec with
  | nil => rfl
  | cons component rest ih =>
    cases rest with
    | nil => rw [commaSeperated, intercalate_singleton]
    | cons => simp [commaSeperated, ih]

theorem tokens_eq (text : Text) : tokens text = text.splitOn ',' := by
  fun_induction tokens text with
  | case1 text none =>
    have noComma : ',' ∉ text := by aesop
    exact (splitOn_eq_singleton noComma).symm
  | case2 text comma erased found ih =>
    have isComma : comma = ',' := by
      have := List.head?_dropWhile_not (· ≠ ',') text
      rw [found] at this
      simpa using this
    have before : ',' ∉ text.takeWhile (· ≠ ',') := fun mem => by
      simpa using mem_takeWhile_imp mem
    rw [isComma] at found
    have whole : text.takeWhile (· ≠ ',') ++ ',' :: erased = text :=
      (congrArg _ found.symm).trans takeWhile_append_dropWhile
    rw [ih]
    conv_rhs => rw [← whole]
    exact (splitOn_append_cons_self_of_not_mem before erased).symm

/-- A text without commas and double quotes. -/
def CleanText (text : Text) : Prop := ',' ∉ text ∧ '"' ∉ text

/-- The components in quotes, with commas between them. -/
def quoted (components : List Text) : Text := '"' :: [','].intercalate components ++ ['"']

theorem generate_eq (inVec : List Text) :
    generateCommaSeperatedFromVecOfString inVec = quoted inVec := by
  rw [generateCommaSeperatedFromVecOfString, commaSeperated_eq]
  rfl

theorem quoted_ne_xVal (components : List Text) : quoted components ≠ xVal := by
  intro same
  have := (List.cons.inj same).1
  revert this
  decide

theorem mem_intercalate {sep : Char} {c : Char}
    (mem : c ∈ [sep].intercalate components) : c = sep ∨ ∃ text ∈ components, c ∈ text := by
  induction components with
  | nil => cases mem
  | cons text rest ih =>
    cases rest with
    | nil => grind [intercalate_singleton]
    | cons next rest => aesop

theorem break_quoted (two : 2 ≤ components.length) (clean : ∀ text ∈ components, CleanText text)
    (output : List Text) : breakStringToItsComponents (quoted components) output = components := by
  have comma : ',' ∈ quoted components := by
    match components, two with
    | first :: second :: rest, _ =>
      rw [quoted, intercalate_cons_cons]
      simp
  have noQuote : ∀ c ∈ [','].intercalate components, decide (c ≠ '"') = true := by
    intro c mem
    rw [decide_eq_true_eq]
    rintro rfl
    rcases mem_intercalate mem with isComma | ⟨text, within, quote⟩
    · revert isComma
      decide
    · exact (clean text within).2 quote
  have bare : (quoted components).filter (· ≠ '"') = [','].intercalate components := by
    rw [quoted, List.cons_append, List.filter_cons_of_neg (by decide), filter_append,
      List.filter_eq_self.mpr noQuote]
    simp
  rw [breakStringToItsComponents, if_pos comma, bare, tokens_eq]
  refine splitOn_intercalate ',' (fun text within => (clean text within).1) ?_
  rintro rfl
  exact absurd two (by decide)

theorem break_generate (two : 2 ≤ components.length)
    (clean : ∀ text ∈ components, CleanText text) (output : List Text) :
    breakStringToItsComponents (generateCommaSeperatedFromVecOfString components) output
      = components := by
  rw [generate_eq]
  exact break_quoted two clean output

theorem mem_tokens {text component : Text} (mem : component ∈ tokens text) :
    ',' ∉ component ∧ ∀ c ∈ component, c ∈ text := by
  fun_induction tokens text with
  | case1 text none => aesop
  | case2 text comma erased found ih =>
    rcases List.mem_cons.mp mem with rfl | later
    · grind [ takeWhile_prefix, mem_takeWhile_imp]
    · grind [dropWhile_suffix]

theorem break_clean (cell : Text) :
    ∀ text ∈ breakStringToItsComponents cell [], CleanText text := by
  intro text mem
  rw [breakStringToItsComponents] at mem
  split at mem
  · obtain ⟨noComma, within⟩ := mem_tokens mem
    refine ⟨noComma, fun quote => ?_⟩
    have := (List.mem_filter.mp (within _ quote)).2
    simp at this
  · cases mem

/-- A package of the stage with a clean text for each attribute. -/
structure BguInfoPackage.Describes (pckg : BguInfoPackage) (stage : TraceStage) : Prop where
  status : pckg.packetStatus = some stage
  length : pckg.data.length = stage.attributes.length
  clean : ∀ text ∈ pckg.data, CleanText text

/-- The text of the `i`-th attribute. -/
def BguInfoPackage.text (pckg : BguInfoPackage) (i : Nat) : Text := pckg.data.getD i []

/-- Columns to which packages are added: a blank and the text of each, where the attribute
allows several occurances. -/
def appended (stage : TraceStage) (columns : List Text) (pckgs : List BguInfoPackage) :
    List Text :=
  stage.attributes.mapIdx fun i attr =>
    columns.getD i [] ++ if attr ∈ attributesAllowedMultipleOccurances then
      pckgs.flatMap fun pckg => ' ' :: pckg.text i else []

/-- The cell of some packages: the first one's text where only one occurance is allowed, and
the texts of all with blanks between them elsewhere. -/
def mergedCell (stage : TraceStage) (pckgs : List BguInfoPackage) : Text :=
  quoted (stage.attributes.mapIdx fun i attr =>
    if attr ∈ attributesAllowedMultipleOccurances then
      [' '].intercalate (pckgs.map (·.text i))
    else (pckgs.head?.map (·.text i)).getD [])

/-- The cell of a stage after packages of it are added. -/
def addAllToCell (stage : TraceStage) (cell : Text) (pckgs : List BguInfoPackage) : Text :=
  pckgs.foldl (fun cell pckg => addToCell cell stage pckg.data) cell

section Cells

variable {stage : TraceStage} {columns : List Text} {pckgs : List BguInfoPackage}
  {pckg : BguInfoPackage}

theorem appended_length : (appended stage columns pckgs).length = stage.attributes.length :=
  length_mapIdx

theorem appended_getD {i : Nat} {attr : TraceAttribute} (known : stage.attributes[i]? = some attr) :
    (appended stage columns pckgs).getD i [] =
      columns.getD i [] ++ if attr ∈ attributesAllowedMultipleOccurances then
        pckgs.flatMap fun pckg => ' ' :: pckg.text i else [] := by
  rw [getD_eq_getElem?_getD, appended, List.getElem?_mapIdx, known]
  rfl

theorem appended_nil (length : columns.length = stage.attributes.length) :
    appended stage columns [] = columns := by
  rw [appended, mapIdx_eq_iff]
  intro i
  cases known : stage.attributes[i]? with
  | none => grind
  | some attr => grind

theorem appended_appended (first second : List BguInfoPackage) :
    appended stage (appended stage columns first) second
      = appended stage columns (first ++ second) := by
  refine List.mapIdx_eq_mapIdx_iff.mpr fun i inside => ?_
  rw [appended_getD (List.getElem?_eq_getElem inside), List.append_assoc, flatMap_append]
  split
  · rfl
  · rfl

theorem CleanText.append {a b : Text} (left : CleanText a) (right : CleanText b) :
    CleanText (a ++ b) := by
  simp only [CleanText, mem_append, not_or]
  exact ⟨⟨left.1, right.1⟩, left.2, right.2⟩

theorem CleanText.getD {texts : List Text} (clean : ∀ text ∈ texts, CleanText text) (i : Nat) :
    CleanText (texts.getD i []) := by
  rw [getD_eq_getElem?_getD]
  cases known : texts[i]? with
  | none => exact ⟨not_mem_nil, not_mem_nil⟩
  | some text => exact clean text (mem_of_getElem? known)

theorem CleanText.blanks {i : Nat} (described : ∀ pckg ∈ pckgs, pckg.Describes stage) :
    CleanText (pckgs.flatMap fun pckg => ' ' :: pckg.text i) := by
  have each (c : Char) (notBlank : c ≠ ' ') (absent : ∀ pckg ∈ pckgs, c ∉ pckg.text i) :
      c ∉ pckgs.flatMap fun pckg => ' ' :: pckg.text i := by
    intro mem
    obtain ⟨pckg, within, here⟩ := List.mem_flatMap.mp mem
    rcases List.mem_cons.mp here with blank | later
    · exact notBlank blank
    · exact absent pckg within later
  have clean (pckg : BguInfoPackage) (within : pckg ∈ pckgs) : CleanText (pckg.text i) :=
    CleanText.getD (described pckg within).clean i
  exact ⟨each _ (by decide) fun pckg within => (clean pckg within).1,
    each _ (by decide) fun pckg within => (clean pckg within).2⟩

theorem appended_clean (clean : ∀ text ∈ columns, CleanText text)
    (described : ∀ pckg ∈ pckgs, pckg.Describes stage) :
    ∀ text ∈ appended stage columns pckgs, CleanText text := by
  intro text mem
  obtain ⟨i, inside, rfl⟩ := List.mem_mapIdx.mp mem
  refine (CleanText.getD clean i).append ?_
  split
  · exact .blanks described
  · exact ⟨not_mem_nil, not_mem_nil⟩

theorem addToCell_eq {cell : Text} (written : cell ≠ xVal) (described : pckg.Describes stage) :
    addToCell cell stage pckg.data
      = quoted (appended stage (breakStringToItsComponents cell []) [pckg]) := by
  rw [addToCell, if_neg written, addToCommaSeperatedFromVecOfString, generate_eq]
  congr 1
  rw [appended, mapIdx_eq_iff]
  intro i
  rw [List.getElem?_mapIdx]
  cases known : stage.attributes[i]? with
  | none => grind [described.length]
  | some attr =>
    have inside : i < pckg.data.length :=
      described.length ▸ (List.getElem?_eq_some_iff.mp known).1
    have approval : stage.multipleOccurancesApproval.getD i false
        = decide (attr ∈ attributesAllowedMultipleOccurances) := by
      rw [getD_eq_getElem?_getD, TraceStage.multipleOccurancesApproval, List.getElem?_map,
        known]
      rfl
    have text : pckg.text i = pckg.data[i] := by grind [BguInfoPackage.text]
    rw [List.getElem?_eq_getElem inside, map_some, map_some, approval,
      flatMap_singleton, text]
    simp

theorem addAllToCell_quoted (length : columns.length = stage.attributes.length)
    (clean : ∀ text ∈ columns, CleanText text) (described : ∀ pckg ∈ pckgs, pckg.Describes stage) :
    addAllToCell stage (quoted columns) pckgs = quoted (appended stage columns pckgs) := by
  induction pckgs generalizing columns with
  | nil => rw [appended_nil length, addAllToCell, foldl_nil]
  | cons pckg rest ih =>
    have first := described pckg List.mem_cons_self
    have single : ∀ p ∈ [pckg], p.Describes stage := by grind
    rw [addAllToCell, List.foldl_cons, addToCell_eq (quoted_ne_xVal columns) first,
      break_quoted (length ▸ two_le_attributes stage) clean]
    have step := ih appended_length (appended_clean clean single)
      fun p mem => described p (List.mem_cons_of_mem _ mem)
    rw [addAllToCell] at step
    rw [step, appended_appended]
    rfl

theorem addAllToCell_written {cell : Text} (written : cell ≠ xVal)
    (described : ∀ p ∈ pckg :: pckgs, p.Describes stage) :
    addAllToCell stage cell (pckg :: pckgs)
      = quoted (appended stage (breakStringToItsComponents cell []) (pckg :: pckgs)) := by
  have first := described pckg List.mem_cons_self
  have single : ∀ p ∈ [pckg], p.Describes stage := by grind
  have others : ∀ p ∈ pckgs, p.Describes stage :=
    fun p mem => described p (List.mem_cons_of_mem _ mem)
  have rest := addAllToCell_quoted appended_length
    (appended_clean (break_clean cell) single) others
  rw [appended_appended] at rest
  rw [addAllToCell, List.foldl_cons, addToCell_eq written first]
  exact rest

theorem intercalate_blank (text : Text) (rest : List Text) :
    [' '].intercalate (text :: rest) = text ++ rest.flatMap (' ' :: ·) := by
  induction rest generalizing text with
  | nil => rw [intercalate_singleton, flatMap_nil, append_nil]
  | cons next rest ih => simp_all

theorem mergedCell_eq :
    mergedCell stage (pckg :: pckgs) = quoted (appended stage pckg.data pckgs) := by
  rw [mergedCell, appended]
  congr 1
  rw [mapIdx_eq_mapIdx_iff]
  intro i inside
  split
  · rw [List.map_cons, intercalate_blank, flatMap_map]
    rfl
  · rw [append_nil]
    rfl

theorem addAllToCell_empty (described : ∀ p ∈ pckg :: pckgs, p.Describes stage) :
    addAllToCell stage xVal (pckg :: pckgs) = mergedCell stage (pckg :: pckgs) := by
  have first := described pckg List.mem_cons_self
  rw [mergedCell_eq, addAllToCell, List.foldl_cons, addToCell, if_pos rfl, generate_eq]
  exact addAllToCell_quoted first.length first.clean
    fun p mem => described p (List.mem_cons_of_mem _ mem)

/-- Packages added to a cell that was written before make another cell: the column of the
program counters is longer. -/
theorem addAllToCell_written_ne {cell : Text} (written : cell ≠ xVal)
    (described : ∀ p ∈ pckg :: pckgs, p.Describes stage) :
    addAllToCell stage cell (pckg :: pckgs) ≠ mergedCell stage (pckg :: pckgs) := by
  have first := described pckg List.mem_cons_self
  have rest : ∀ p ∈ pckgs, p.Describes stage :=
    fun p mem => described p (List.mem_cons_of_mem _ mem)
  have two : 2 ≤ stage.attributes.length := two_le_attributes stage
  rw [addAllToCell_written written described, mergedCell_eq]
  intro same
  have columns := congrArg (breakStringToItsComponents · []) same
  rw [break_quoted (appended_length ▸ two) (appended_clean (break_clean cell) described),
    break_quoted (appended_length ▸ two) (appended_clean first.clean rest)] at columns
  have pc : stage.attributes[1]? = some .pc := by cases stage <;> rfl
  have column := congrArg (fun columns => (columns.getD 1 []).length) columns
  rw [appended_getD pc, appended_getD pc, if_pos (by decide), if_pos (by decide),
    flatMap_cons] at column
  simp only [length_append, length_cons, BguInfoPackage.text] at column
  omega

theorem addAllToCell_tail_ne (described : ∀ p ∈ pckg :: pckgs, p.Describes stage) :
    addAllToCell stage xVal pckgs ≠ mergedCell stage (pckg :: pckgs) := by
  have first := described pckg List.mem_cons_self
  have rest : ∀ p ∈ pckgs, p.Describes stage :=
    fun p mem => described p (List.mem_cons_of_mem _ mem)
  have whole : addAllToCell stage (quoted pckg.data) pckgs = mergedCell stage (pckg :: pckgs) := by
    rw [mergedCell_eq, addAllToCell_quoted first.length first.clean rest]
  cases pckgs with
  | nil => exact fun same => quoted_ne_xVal _ (same.trans mergedCell_eq).symm
  | cons => grind [addAllToCell_empty, addAllToCell_written_ne, quoted_ne_xVal]

end Cells


namespace BguTracer

variable {tracer : BguTracer} {stage : TraceStage} {currTick : Tick}

/-- Packages received one after the other at one tick. -/
def receiveAll (tracer : BguTracer) (currTick : Tick) (pckgs : List BguInfoPackage) : BguTracer :=
  pckgs.foldl (fun tracer pckg => (tracer.receiveBguInfoPackage currTick pckg).1) tracer

/-- The package is not filtered out and is one of the stage. -/
def takes (tracer : BguTracer) (stage : TraceStage) (pckg : BguInfoPackage) : Bool :=
  !tracer.tracerOff && tracer.continueCond pckg.tid && decide (pckg.packetStatus = some stage)

theorem advanceRow_same (same : currTick = tracer.lastTick) :
    tracer.advanceRow currTick = tracer := by
  rw [advanceRow, same, BitVec.sub_self]
  rfl

theorem advanceRow_later (later : currTick ≠ tracer.lastTick) :
    tracer.advanceRow currTick =
      { (tracer.deployStringBuffersToTable tracer.lastTick).resetStringBuffers with
        lastTick :=
          if currTick - tracer.lastTick < cycleRoundVal then tracer.lastTick + cycleRoundVal
          else currTick } := by
  have some : currTick - tracer.lastTick > 0 := by bv_omega
  rw [advanceRow, if_pos some]

theorem advanceRow_cells (later : currTick ≠ tracer.lastTick) :
    (tracer.advanceRow currTick).tidBufferStrings stage = xVal := by
  rw [advanceRow_later later]
  rfl

theorem advanceRow_lastTick (far : cycleRoundVal ≤ currTick - tracer.lastTick) :
    (tracer.advanceRow currTick).lastTick = currTick := by
  have later : currTick ≠ tracer.lastTick := by
    rintro rfl
    rw [BitVec.sub_self] at far
    exact absurd far (by decide)
  rw [advanceRow_later later]
  exact if_neg (BitVec.not_lt.mpr far)

theorem advanceRow_overshoot (later : currTick ≠ tracer.lastTick)
    (near : currTick - tracer.lastTick < cycleRoundVal) :
    cycleRoundVal ≤ currTick - (tracer.advanceRow currTick).lastTick := by
  rw [advanceRow_later later]
  rw [if_pos near]
  unfold cycleRoundVal at *
  bv_omega

section Receive

theorem advanceRow_takes : (tracer.advanceRow currTick).takes stage = tracer.takes stage := by
  rw [advanceRow]
  split <;> rfl

theorem advanceRow_tracerOff : (tracer.advanceRow currTick).tracerOff = tracer.tracerOff := by
  rw [advanceRow]
  split <;> rfl

variable (pckg : BguInfoPackage) (currTick)

theorem receive_eq (on : tracer.tracerOff = false) :
    (tracer.receiveBguInfoPackage currTick pckg).1 =
      { tracer.advanceRow currTick with
        tidBufferStrings := fun stage =>
          if tracer.takes stage pckg then
            addToCell ((tracer.advanceRow currTick).tidBufferStrings stage) stage pckg.data
          else (tracer.advanceRow currTick).tidBufferStrings stage } := by
  have running : (tracer.advanceRow currTick).continueCond pckg.tid
      = tracer.continueCond pckg.tid := by
    rw [advanceRow]
    split <;> rfl
  rw [receiveBguInfoPackage, on, if_neg Bool.false_ne_true]
  simp only [takes, on, running, Bool.not_false, addPackageToStringBuffer]
  cases tracer.continueCond pckg.tid with
  | false => simp
  | true =>
    cases pckg.packetStatus with
    | none => simp
    | some own =>
      simp only [if_true, map_some, Bool.true_and, decide_eq_true_eq, Option.some.injEq]
      congr 1
      funext stage
      by_cases same : own = stage
      · grind
      · rw [Function.update_of_ne (Ne.symm same), if_neg same]

theorem receive_cells (stage : TraceStage) (on : tracer.tracerOff = false) :
    (tracer.receiveBguInfoPackage currTick pckg).1.tidBufferStrings stage
      = addAllToCell stage ((tracer.advanceRow currTick).tidBufferStrings stage)
          ([pckg].filter (tracer.takes stage)) := by
  have cells := congrArg (fun tracer : BguTracer => tracer.tidBufferStrings stage)
    (receive_eq currTick pckg on)
  refine cells.trans ?_
  cases took : tracer.takes stage pckg with
  | true | false => simp [took, addAllToCell]

theorem receive_lastTick (on : tracer.tracerOff = false) :
    (tracer.receiveBguInfoPackage currTick pckg).1.lastTick
      = (tracer.advanceRow currTick).lastTick := by
  rw [receive_eq currTick pckg on]

theorem receive_tracerOff (on : tracer.tracerOff = false) :
    (tracer.receiveBguInfoPackage currTick pckg).1.tracerOff = false := by
  rw [receive_eq currTick pckg on]
  exact advanceRow_tracerOff.trans on

theorem receive_takes (on : tracer.tracerOff = false) :
    (tracer.receiveBguInfoPackage currTick pckg).1.takes stage = tracer.takes stage := by
  rw [receive_eq currTick pckg on]
  exact advanceRow_takes

end Receive

theorem receiveAll_same (stage : TraceStage) (pckgs : List BguInfoPackage)
    (on : tracer.tracerOff = false) (same : currTick = tracer.lastTick) :
    (tracer.receiveAll currTick pckgs).tidBufferStrings stage
      = addAllToCell stage (tracer.tidBufferStrings stage)
          (pckgs.filter (tracer.takes stage)) := by
  induction pckgs generalizing tracer with
  | nil => rfl
  | cons pckg rest ih =>
    have cells := receive_cells currTick pckg stage on
    have lastTick := receive_lastTick currTick pckg on
    rw [advanceRow_same same] at cells lastTick
    have after := ih (receive_tracerOff currTick pckg on) (same.trans lastTick.symm)
    rw [receive_takes currTick pckg on, cells] at after
    rw [receiveAll, List.foldl_cons, ← singleton_append, filter_append, addAllToCell,
      foldl_append]
    exact after

theorem receiveAll_from (currTick) (stage : TraceStage) (pckg : BguInfoPackage)
    {rest : List BguInfoPackage} (on : tracer.tracerOff = false)
    (now : currTick = (tracer.advanceRow currTick).lastTick ∨ rest = []) :
    (tracer.receiveAll currTick (pckg :: rest)).tidBufferStrings stage
      = addAllToCell stage ((tracer.advanceRow currTick).tidBufferStrings stage)
          ((pckg :: rest).filter (tracer.takes stage)) := by
  have cells := receive_cells currTick pckg stage on
  rw [← singleton_append, filter_append, addAllToCell, foldl_append]
  rcases now with now | rfl
  · have after := receiveAll_same stage rest
      (receive_tracerOff currTick pckg on) (now.trans (receive_lastTick currTick pckg on).symm)
    rw [receive_takes currTick pckg on, cells] at after
    exact after
  · exact cells

theorem receiveAll_far (stage : TraceStage) (pckg : BguInfoPackage) (rest : List BguInfoPackage)
    (on : tracer.tracerOff = false) (far : cycleRoundVal ≤ currTick - tracer.lastTick) :
    (tracer.receiveAll currTick (pckg :: rest)).tidBufferStrings stage
      = addAllToCell stage xVal ((pckg :: rest).filter (tracer.takes stage)) := by
  have later : currTick ≠ tracer.lastTick := by
    rintro rfl
    rw [BitVec.sub_self] at far
    exact absurd far (by decide)
  rw [receiveAll_from currTick stage pckg on (.inl (advanceRow_lastTick far).symm),
    advanceRow_cells later]

/-- A tick that the tracer takes for the end of the next cycle leaves its first package in a
row of its own. -/
theorem receiveAll_near (stage : TraceStage) (pckg next : BguInfoPackage)
    (rest : List BguInfoPackage) (on : tracer.tracerOff = false)
    (later : currTick ≠ tracer.lastTick) (near : currTick - tracer.lastTick < cycleRoundVal) :
    (tracer.receiveAll currTick (pckg :: next :: rest)).tidBufferStrings stage
      = addAllToCell stage xVal ((next :: rest).filter (tracer.takes stage)) := by
  have far := advanceRow_overshoot later near
  rw [← receive_lastTick currTick pckg on] at far
  rw [← receive_takes currTick pckg on]
  exact receiveAll_far stage next rest (receive_tracerOff currTick pckg on) far

end BguTracer

/-- The cell merges the packages of the stage that were received at the tick, and what is
written to a cell is what is read from it. -/
structure CellMerged (tracer : BguTracer) (currTick : Tick) (pckgs : List BguInfoPackage)
    (stage : TraceStage) : Prop where
  cell : (tracer.receiveAll currTick pckgs).tidBufferStrings stage
    = mergedCell stage (pckgs.filter (tracer.takes stage))
  inverse : ∀ components : List Text, 2 ≤ components.length →
    (∀ text ∈ components, CleanText text) → ∀ output,
      breakStringToItsComponents (generateCommaSeperatedFromVecOfString components) output
        = components

/-- The tick is that of the row and the cell is empty, or it starts a row, or the first
package, for which the row is ended, is the only one or not one of the stage. -/
def RowKept (tracer : BguTracer) (currTick : Tick) (pckgs : List BguInfoPackage)
    (stage : TraceStage) : Prop :=
  currTick = tracer.lastTick ∧ tracer.tidBufferStrings stage = xVal
    ∨ cycleRoundVal ≤ currTick - tracer.lastTick
    ∨ currTick ≠ tracer.lastTick
      ∧ (pckgs.length = 1 ∨ ∀ pckg ∈ pckgs.head?, tracer.takes stage pckg = false)

theorem CellMerged.of_cell {tracer : BguTracer} {currTick : Tick} {pckgs : List BguInfoPackage}
    {stage : TraceStage}
    (described : ∀ pckg ∈ pckgs.filter (tracer.takes stage), pckg.Describes stage)
    (some : pckgs.filter (tracer.takes stage) ≠ []) (cell : (tracer.receiveAll currTick
    pckgs).tidBufferStrings stage = addAllToCell stage xVal (pckgs.filter (tracer.takes stage))) :
    CellMerged tracer currTick pckgs stage := by
  refine ⟨cell.trans ?_, fun components two clean output => break_generate two clean output⟩
  obtain ⟨pckg, rest, split⟩ := exists_cons_of_ne_nil some
  rw [split] at described ⊢
  exact addAllToCell_empty described

/-- The packages of a stage that come in one tick are merged just when the tracer keeps them in
one row that has nothing else for the stage. -/
theorem cellMerged_iff {tracer : BguTracer} {currTick : Tick} {pckgs : List BguInfoPackage}
    {stage : TraceStage} (some : pckgs.filter (tracer.takes stage) ≠ [])
    (described : ∀ pckg ∈ pckgs.filter (tracer.takes stage), pckg.Describes stage) :
    CellMerged tracer currTick pckgs stage ↔ RowKept tracer currTick pckgs stage := by
  have on : tracer.tracerOff = false := by
    by_contra off
    refine some (List.filter_eq_nil_iff.mpr fun pckg _ => ?_)
    rw [BguTracer.takes, Bool.not_eq_false] at *
    simp [off]
  have merged := @CellMerged.of_cell tracer currTick pckgs stage described some
  by_cases same : currTick = tracer.lastTick
  · have cell := BguTracer.receiveAll_same stage pckgs on same
    by_cases empty : tracer.tidBufferStrings stage = xVal
    · rw [empty] at cell
      exact iff_of_true (merged cell) (.inl ⟨same, empty⟩)
    · refine iff_of_false (fun kept => ?_) ?_
      · obtain ⟨pckg, rest, split⟩ := List.exists_cons_of_ne_nil some
        rw [split] at cell described
        exact addAllToCell_written_ne empty described
          (cell.symm.trans (kept.cell.trans (congrArg _ split)))
      · rintro (⟨-, isEmpty⟩ | far | ⟨later, -⟩)
        · exact empty isEmpty
        · rw [same, BitVec.sub_self] at far
          exact absurd far (by decide)
        · exact later same
  · match pckgs with
    | [] => exact absurd rfl some
    | [pckg] =>
      have cell := BguTracer.receiveAll_from currTick stage pckg on (.inr rfl)
      rw [BguTracer.advanceRow_cells same] at cell
      exact iff_of_true (merged cell) (.inr (.inr ⟨same, .inl rfl⟩))
    | pckg :: next :: rest =>
      by_cases far : cycleRoundVal ≤ currTick - tracer.lastTick
      · exact iff_of_true (merged (BguTracer.receiveAll_far stage _ _ on far)) (.inr (.inl far))
      · have cell := BguTracer.receiveAll_near stage pckg next rest on same
          (BitVec.not_le.mp far)
        cases took : tracer.takes stage pckg with
        | false =>
          refine iff_of_true (merged ?_) (.inr (.inr ⟨same, .inr fun first isFirst => ?_⟩))
          · rw [List.filter_cons_of_neg (by rw [took]; exact Bool.false_ne_true)]
            exact cell
          · cases isFirst
            exact took
        | true =>
          refine iff_of_false (fun kept => ?_) ?_
          · rw [List.filter_cons_of_pos took] at described
            refine addAllToCell_tail_ne described (cell.symm.trans (kept.cell.trans ?_))
            rw [List.filter_cons_of_pos took]
          · rintro (⟨isSame, -⟩ | isFar | ⟨-, one | none⟩)
            · exact same isSame
            · exact far isFar
            · simp at one
            · exact Bool.false_ne_true ((none pckg rfl).symm.trans took)

instance (text : Text) : Decidable (CleanText text) := inferInstanceAs (Decidable (_ ∧ _))

/-- An instruction that was issued, as a package of the decode stage. -/
def decodedPackage : BguInfoPackage := ⟨0, some .stgDe, [['0'], ['4'], ['c']], by decide⟩

theorem decodedPackage_describes : decodedPackage.Describes .stgDe := ⟨rfl, rfl, by decide⟩

theorem cellMerged_iff_decoded :
    CellMerged (.start 0) 1000 [decodedPackage, decodedPackage] .stgDe ↔
      RowKept (.start 0) 1000 [decodedPackage, decodedPackage] .stgDe :=
  cellMerged_iff (by decide) fun pckg mem => by
    rcases List.mem_cons.mp (List.mem_of_mem_filter mem) with rfl | mem
    · exact decodedPackage_describes
    · rw [List.mem_singleton.mp mem]
      exact decodedPackage_describes

/-- In a row that began at tick 0, the first of two packages of tick 500 is left in a row of
its own. -/
theorem half_cycle_splits :
    ¬CellMerged (.start 0) 500 [decodedPackage, decodedPackage] .stgDe := by
  intro merged
  have cell := BguTracer.receiveAll_near .stgDe decodedPackage decodedPackage []
    (show (BguTracer.start 0).tracerOff = false from rfl)
    (by decide : (500 : Tick) ≠ (BguTracer.start 0).lastTick) (by decide)
  refine addAllToCell_tail_ne (fun pckg mem => ?_) (cell.symm.trans merged.cell)
  rcases List.mem_cons.mp mem with rfl | mem
  · exact decodedPackage_describes
  · rw [List.mem_singleton.mp mem]
    exact decodedPackage_describes

end Gem5.FlexCPU
