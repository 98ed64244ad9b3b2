import Gem5.Lib.Folds
import Gem5.Pred.BPredUnit

/-!
# The histories of TAGE

The directions of the last branches lie in a buffer that grows downward; when its start is reached
the youngest ones are copied to the end. The indices and tags of the tables read them folded. Each
branch saves the folds and its place in the buffer, for the squash that finds it mispredicted.
-/

namespace Gem5.Pred.Tage

/-- The history lengths are those that `calculateParameters` computes. -/
structure TageParams where
  nHistoryTables : Nat
  histBufferSize : Nat
  maxHist : Nat
  pathHistBits : Nat
  histLengths : Nat → Nat
  logTagTableSizes : Nat → Nat
  tagTableTagWidths : Nat → Nat
  speculativeHistUpdate : Bool
  instShiftAmt : Nat

/-- The configurations that `init` accepts, with speculative histories. It divides by the length
of each fold, and allocates the tables. -/
structure TageParams.Accepted (prm : TageParams) : Prop where
  speculative : prm.speculativeHistUpdate = true
  buffer : 2 * prm.maxHist < prm.histBufferSize
  unsigned : prm.histBufferSize < 2 ^ 32
  path : prm.pathHistBits ≤ 32
  lengths : ∀ i, 1 ≤ i → i ≤ prm.nHistoryTables → prm.histLengths i ≤ prm.maxHist
  sizes : ∀ i, 1 ≤ i → i ≤ prm.nHistoryTables →
    0 < prm.logTagTableSizes i ∧ prm.logTagTableSizes i < 31
  widths : ∀ i, 1 ≤ i → i ≤ prm.nHistoryTables → 1 < prm.tagTableTagWidths i
  untagged : prm.tagTableTagWidths 0 = 0

structure FoldedHistory where
  comp : BitVec 32
  compLength : Nat
  origLength : Nat
  outpoint : Nat
  deriving DecidableEq, Repr

namespace FoldedHistory

def init (originalLength compressedLength : Nat) : FoldedHistory :=
  ⟨0, compressedLength, originalLength, originalLength % compressedLength⟩

/-- Take the youngest direction of a history in; `none` if a read is out of bounds, or for the
shift by 32 or more that is undefined. -/
def update (f : FoldedHistory) (h : Nat → Option (BitVec 8)) : Option FoldedHistory := do
  let new ← h 0
  let old ← h f.origLength
  let comp := (f.comp <<< 1) ||| new.setWidth 32
  let comp := comp ^^^ (old.setWidth 32 <<< f.outpoint)
  if f.compLength < 32 then
    let comp := comp ^^^ (comp >>> f.compLength)
    some { f with comp := (comp.setWidth 64 &&& ((1#64 <<< f.compLength) - 1)).setWidth 32 }
  else none

end FoldedHistory

/-- The folds of one table. -/
structure TableHistory where
  computeIndices : FoldedHistory
  computeTags0 : FoldedHistory
  computeTags1 : FoldedHistory
  deriving DecidableEq, Repr

/-- Those that a branch saves. -/
structure Comps where
  ci : BitVec 32
  ct0 : BitVec 32
  ct1 : BitVec 32
  deriving DecidableEq, Repr

namespace TableHistory

/-- What `initFoldedHistories` makes of table `i`. -/
def init (prm : TageParams) (i : Nat) : TableHistory where
  computeIndices := .init (prm.histLengths i) (prm.logTagTableSizes i)
  computeTags0 := .init (prm.histLengths i) (prm.tagTableTagWidths i)
  computeTags1 := .init (prm.histLengths i) (prm.tagTableTagWidths i - 1)

variable (t : TableHistory)

def comps : Comps := ⟨t.computeIndices.comp, t.computeTags0.comp, t.computeTags1.comp⟩

def restore (saved : Comps) : TableHistory where
  computeIndices := { t.computeIndices with comp := saved.ci }
  computeTags0 := { t.computeTags0 with comp := saved.ct0 }
  computeTags1 := { t.computeTags1 with comp := saved.ct1 }

def update (h : Nat → Option (BitVec 8)) : Option TableHistory := do
  let computeIndices ← t.computeIndices.update h
  let computeTags0 ← t.computeTags0.update h
  let computeTags1 ← t.computeTags1.update h
  some ⟨computeIndices, computeTags0, computeTags1⟩

end TableHistory

/-- The fields that a branch saves for its squash. -/
structure BranchInfo where
  pathHist : BitVec 32
  ptGhist : Int
  comps : List Comps
  deriving DecidableEq, Repr

def BranchInfo.new : BranchInfo := ⟨0, 0, []⟩

/-- The state for one thread. The pointer `gHist` is given by its distance from the start of
`globalHistory`; the tables are numbered from 1. -/
@[ext]
structure ThreadHistory where
  pathHist : BitVec 32
  globalHistory : Nat → BitVec 8
  gHist : Int
  ptGhist : Int
  tables : List TableHistory

def byte (dir : Bool) : BitVec 8 := if dir then 1 else 0

variable (prm : TageParams)

/-- The loop that copies the start of the buffer to its end. -/
def copyToEnd : Nat → (Nat → BitVec 8) → Nat → BitVec 8
  | 0, tab => tab
  | i + 1, tab =>
    let tab := copyToEnd i tab
    Function.update tab (prm.histBufferSize - prm.maxHist + i) (tab i)

namespace ThreadHistory

def init : ThreadHistory :=
  ⟨0, fun _ => 0, 0, 0, (List.range' 1 prm.nHistoryTables).map (TableHistory.init prm)⟩

variable (th : ThreadHistory)

def InBuffer (i : Int) : Prop := 0 ≤ i ∧ i < prm.histBufferSize

instance (i : Int) : Decidable (InBuffer prm i) := instDecidableAnd

/-- `gHist[i]`, if it lies in the buffer. -/
def read (i : Nat) : Option (BitVec 8) :=
  if InBuffer prm (th.gHist + i) then some (th.globalHistory (th.gHist + i).toNat) else none

/-- Assign `gHist[0]`. -/
def write (dir : Bool) : Option ThreadHistory :=
  if InBuffer prm th.gHist then
    some { th with globalHistory := Function.update th.globalHistory th.gHist.toNat (byte dir) }
  else none

/-- `ptGhist` is an `int`. -/
def rollOver : ThreadHistory :=
  let pt := (BitVec.ofNat 32 (prm.histBufferSize - prm.maxHist)).toInt
  { th with
    globalHistory := copyToEnd prm prm.maxHist th.globalHistory
    ptGhist := pt
    gHist := pt }

def updateGHist (dir : Bool) : Option ThreadHistory :=
  let th := if th.ptGhist = 0 then rollOver prm th else th
  write prm { th with ptGhist := th.ptGhist - 1, gHist := th.gHist - 1 } dir

/-- Every fold takes `gHist[0]` in. -/
def updateFolds : Option ThreadHistory := do
  let tables ← th.tables.mapM fun t => t.update (read prm th)
  some { th with tables := tables }

def restoreFolds (bi : BranchInfo) : ThreadHistory :=
  { th with tables := List.zipWith TableHistory.restore th.tables bi.comps }

/-- The path history with the bit of one more branch. -/
def nextPath (pathHist : BitVec 32) (branchPc : Addr) : BitVec 32 :=
  let pathbit := (branchPc >>> prm.instShiftAmt) &&& 1
  (((pathHist <<< 1) + pathbit.setWidth 32).signExtend 64
    &&& ((1#64 <<< prm.pathHistBits) - 1)).setWidth 32

def updateHistories (branchPc : Addr) (taken : Bool) (bi : BranchInfo) (speculative : Bool) :
    Option (ThreadHistory × BranchInfo) :=
  if speculative = prm.speculativeHistUpdate then do
    let th ← updateGHist prm th taken
    let th := { th with pathHist := nextPath prm th.pathHist branchPc }
    let bi :=
      if speculative then ⟨th.pathHist, th.ptGhist, th.tables.map TableHistory.comps⟩ else bi
    let th ← updateFolds prm th
    some (th, bi)
  else some (th, bi)

def squash (taken : Bool) (bi : BranchInfo) : Option ThreadHistory :=
  if prm.speculativeHistUpdate then do
    let th := { th with pathHist := bi.pathHist, ptGhist := bi.ptGhist, gHist := bi.ptGhist }
    let th ← write prm th taken
    updateFolds prm (restoreFolds th bi)
  else some th

/-- `none` where the assertion on the pointer fails. -/
def btbUpdate (bi : BranchInfo) : Option ThreadHistory :=
  if prm.speculativeHistUpdate then
    if th.gHist = th.ptGhist then do
      let th ← write prm th false
      updateFolds prm (restoreFolds th bi)
    else none
  else some th

variable (overshift : BitVec 32 → Int → BitVec 32)

def shiftLeft (a : BitVec 32) (n : Int) : BitVec 32 :=
  if 0 ≤ n ∧ n < 32 then a <<< n.toNat else overshift a n

def shiftRight (a : BitVec 32) (n : Int) : BitVec 32 :=
  if 0 ≤ n ∧ n < 32 then a.sshiftRight n.toNat else overshift a n

/-- The lines of `F` that mix the two halves of a value. -/
def rotate (a : BitVec 32) (bank : Nat) : BitVec 32 :=
  let mask := (1#64 <<< prm.logTagTableSizes bank) - 1
  ((shiftLeft overshift a bank).signExtend 64 &&& mask).setWidth 32
    + shiftRight overshift a (prm.logTagTableSizes bank - bank)

def F (a : BitVec 32) (size bank : Nat) : BitVec 32 :=
  let a := (a.signExtend 64 &&& ((1#64 <<< size) - 1)).setWidth 32
  let a1 := (a.signExtend 64 &&& ((1#64 <<< prm.logTagTableSizes bank) - 1)).setWidth 32
  let a2 := shiftRight overshift a (prm.logTagTableSizes bank)
  rotate prm overshift (a1 ^^^ rotate prm overshift a2 bank) bank

def gindex (t : TableHistory) (pc : Addr) (bank : Nat) : BitVec 32 :=
  let hlen := min (prm.histLengths bank) prm.pathHistBits
  let shiftedPc := (pc >>> prm.instShiftAmt).setWidth 32
  let by_ := ((prm.logTagTableSizes bank : Int) - bank).natAbs + 1
  let high := if by_ < 32 then shiftedPc >>> by_ else overshift shiftedPc by_
  let index := shiftedPc ^^^ high ^^^ t.computeIndices.comp
    ^^^ F prm overshift th.pathHist hlen bank
  index &&& ((1#64 <<< prm.logTagTableSizes bank) - 1).setWidth 32

def gtag (t : TableHistory) (pc : Addr) (bank : Nat) : BitVec 16 :=
  let tag := (pc >>> prm.instShiftAmt) ^^^ t.computeTags0.comp.setWidth 64
    ^^^ (t.computeTags1.comp <<< 1).setWidth 64
  ((tag.setWidth 32).signExtend 64 &&& ((1#64 <<< prm.tagTableTagWidths bank) - 1)).setWidth 16

/-- The index and the tag of a branch for each table. -/
def calculateIndicesAndTags (branchPc : Addr) : List (BitVec 32 × BitVec 16) :=
  th.tables.mapIdx fun i t =>
    (gindex prm th overshift t branchPc (i + 1), gtag prm t branchPc (i + 1))

end ThreadHistory

end Gem5.Pred.Tage
