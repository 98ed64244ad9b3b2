import Gem5.FlexCPU.InflightInst
import Mathlib.Data.List.Basic
import Mathlib.Logic.Function.Basic

/-!
# The trace of the pipeline

`BGUInfoPackage` and `BGUTracer`. A package carries the texts that describe an instruction at
a stage; the tracer puts the packages of one row together, cell by cell, and reads a cell
again to add to it.
-/

namespace Gem5.FlexCPU

open List Option

/-- The characters of a string. -/
abbrev Text := List Char

abbrev Tick := BitVec 64

/-- `CYCLE_ROUND_VAL`. -/
def cycleRoundVal : Tick := 1000

/-- `X_VAL`. -/
def xVal : Text := ['x']

/-- The stages of `e_stages`; a package without one is `PST_NOT_INITIALIZED`. -/
inductive TraceStage where
  | stgFe
  | stgDe
  | stgIs
  | stgEx
  deriving DecidableEq

inductive TraceAttribute where
  | tid
  | pc
  | op
  deriving DecidableEq

/-- `attributes` of `generate_attributes`, the default ones first. -/
def TraceStage.attributes : TraceStage → List TraceAttribute
  | .stgFe => [.tid, .pc]
  | .stgDe => [.tid, .pc, .op]
  | .stgIs => [.tid, .pc, .op]
  | .stgEx => [.tid, .pc, .op]

def attributesAllowedMultipleOccurances : List TraceAttribute := [.pc, .op]

/-- `vector_of_multiple_occurances_approval`. -/
def TraceStage.multipleOccurancesApproval (stage : TraceStage) : List Bool :=
  stage.attributes.map fun elem => decide (elem ∈ attributesAllowedMultipleOccurances)

/-- A package has no more texts than its stage has attributes. -/
structure BguInfoPackage where
  tid : Nat
  packetStatus : Option TraceStage
  data : List Text
  fits : ∀ stage, packetStatus = some stage → data.length ≤ stage.attributes.length

/-- What a package reads of its instruction. -/
structure TracedInst where
  status : Status
  instAddr : Addr
  disassembly : Text

/-- `DissassembleFields::get_opcode`: the first word, without commas. -/
def TracedInst.opcode (inst : TracedInst) : Text :=
  (inst.disassembly.filter (· ≠ ',')).takeWhile (· ≠ ' ')

/-- `dec_to_hex_str`, of an `unsigned`. -/
def decToHexStr (dec : Addr) : Text := Nat.toDigits 16 (dec.setWidth 32).toNat

/-- The stage that a package takes on from the status of its instruction, if any. -/
def tracedStage : Status → Option TraceStage
  | .issued => some .stgDe
  | .issuedTid => some .stgIs
  | .empty => some .stgFe
  | .complete => some .stgEx
  | _ => none

/-- The texts of a stage; `fetch_to_string` gives none. -/
def stageStrings (inst : TracedInst) : TraceStage → List Text
  | .stgFe => []
  | _ => [inst.opcode]

/-- `inflightinst_to_string`. -/
def inflightinstToString (tid : Nat) (inst : TracedInst) : List Text :=
  [Nat.toDigits 10 tid, '0' :: 'x' :: decToHexStr inst.instAddr]
    ++ ((tracedStage inst.status).map (stageStrings inst)).getD []

theorem stageStrings_length (inst : TracedInst) (stage : TraceStage) :
    (stageStrings inst stage).length + 2 = stage.attributes.length := by
  cases stage <;> rfl

theorem two_le_attributes (stage : TraceStage) : 2 ≤ stage.attributes.length := by
  cases stage <;> decide

/-- `update_package_attributes`: another status leaves the stage of the package as it is. -/
def BguInfoPackage.updatePackageAttributes (pckg : BguInfoPackage) (inst : TracedInst) :
    BguInfoPackage where
  tid := pckg.tid
  packetStatus := (tracedStage inst.status).or pckg.packetStatus
  data := inflightinstToString pckg.tid inst
  fits := by
    intro stage same
    cases traced : tracedStage inst.status with
    | none =>
      have := two_le_attributes stage
      simpa [inflightinstToString, traced] using this
    | some own =>
      rw [traced] at same
      obtain rfl : own = stage := Option.some.inj same
      have := stageStrings_length inst own
      simp only [inflightinstToString, traced, map_some, getD_some,
        length_append, length_cons, length_nil]
      omega

/-- The constructor with an instruction. -/
def BguInfoPackage.ofInst (tid : Nat) (inst : TracedInst) : BguInfoPackage :=
  ({ tid := tid, packetStatus := none, data := [], fits := by simp } :
    BguInfoPackage).updatePackageAttributes inst

structure TraceRow where
  time : Tick
  cells : TraceStage → Text

/-- `rows` is what the file holds below the headlines. -/
structure BguTracer where
  filterByThread : Bool := false
  filterWhichThread : Nat := 0
  lastTick : Tick
  tidBufferStrings : TraceStage → Text := fun _ => xVal
  tracerOff : Bool := false
  rows : List TraceRow := []

inductive BguIpckgStatus where
  | filtered
  | err
  | added
  deriving DecidableEq

/-- The components with a comma between them. -/
def commaSeperated : List Text → Text
  | [] => []
  | [last] => last
  | component :: rest => component ++ ',' :: commaSeperated rest

def generateCommaSeperatedFromVecOfString (inVec : List Text) : Text :=
  '"' :: commaSeperated inVec ++ ['"']

/-- The loop of `break_string_to_its_components`: the text before each comma, and the rest. -/
def tokens (statusString : Text) : List Text :=
  match _found : statusString.dropWhile (· ≠ ',') with
  | [] => [statusString]
  | _ :: erased => statusString.takeWhile (· ≠ ',') :: tokens erased
termination_by statusString.length
decreasing_by
  have := (dropWhile_suffix (l := statusString) (· ≠ ',')).length_le
  rw [_found, length_cons] at this
  exact this

/-- A text without a comma leaves the output as it is. -/
def breakStringToItsComponents (statusString : Text) (output : List Text) : List Text :=
  if ',' ∈ statusString then tokens (statusString.filter (· ≠ '"')) else output

def addToCommaSeperatedFromVecOfString (oldStr : Text) (inVec : List Text)
    (multipleOccVec : List Bool) : Text :=
  let previousComponents := breakStringToItsComponents oldStr []
  generateCommaSeperatedFromVecOfString (inVec.mapIdx fun i text =>
    previousComponents.getD i [] ++ if multipleOccVec.getD i false then ' ' :: text else [])

/-- The cell of the package's stage once the package is added. -/
def addToCell (cell : Text) (stage : TraceStage) (data : List Text) : Text :=
  if cell = xVal then generateCommaSeperatedFromVecOfString data
  else addToCommaSeperatedFromVecOfString cell data stage.multipleOccurancesApproval

namespace BguTracer

/-- `add_package_to_string_buffer`; `none` is its `false`. -/
def addPackageToStringBuffer (tracer : BguTracer) (pckg : BguInfoPackage) : Option BguTracer :=
  pckg.packetStatus.map fun stage =>
    { tracer with
      tidBufferStrings := Function.update tracer.tidBufferStrings stage
        (addToCell (tracer.tidBufferStrings stage) stage pckg.data) }

def deployStringBuffersToTable (tracer : BguTracer) (tickToPrint : Tick) : BguTracer :=
  { tracer with rows := tracer.rows ++ [⟨tickToPrint / cycleRoundVal, tracer.tidBufferStrings⟩] }

def resetStringBuffers (tracer : BguTracer) : BguTracer :=
  { tracer with tidBufferStrings := fun _ => xVal }

/-- The first part of `receive_bgu_info_package`, which may end a row. -/
def advanceRow (tracer : BguTracer) (currTick : Tick) : BguTracer :=
  let diffTick := currTick - tracer.lastTick
  if diffTick > 0 then
    { (tracer.deployStringBuffersToTable tracer.lastTick).resetStringBuffers with
      lastTick :=
        if diffTick < cycleRoundVal then tracer.lastTick + cycleRoundVal else currTick }
  else tracer

def continueCond (tracer : BguTracer) (tid : Nat) : Bool :=
  (tracer.filterByThread && tracer.filterWhichThread == tid) || !tracer.filterByThread

def receiveBguInfoPackage (tracer : BguTracer) (currTick : Tick) (pckg : BguInfoPackage) :
    BguTracer × BguIpckgStatus :=
  if tracer.tracerOff then (tracer, .filtered)
  else
    let tracer := tracer.advanceRow currTick
    if tracer.continueCond pckg.tid then
      match tracer.addPackageToStringBuffer pckg with
      | some tracer => (tracer, .added)
      | none => (tracer, .err)
    else (tracer, .filtered)

def setTracerShutDown (tracer : BguTracer) : BguTracer := { tracer with tracerOff := true }

/-- The constructor, at some tick. -/
def start (tick : Tick) : BguTracer := { lastTick := tick }

end BguTracer

end Gem5.FlexCPU
