import Gem5.Lib.Bits
import Gem5.Lib.Lists
import Gem5.Pred.Tage

/-!
# The histories follow the current path

The place of a branch in the buffer depends only on the number of branches before it on the path.
The window of a branch is overwritten only after it has got so many younger branches that it may
not be squashed any more.
-/

namespace Gem5.Pred.Tage

open List Function Option BitVec

/-- The widths for which the code is defined: the pointer is an `int`, and the folds, which are
shifted by their lengths, have 32 bits. -/
structure TageParams.Fits (prm : TageParams) : Prop where
  pointer : prm.histBufferSize - prm.maxHist < 2 ^ 31
  widths : ∀ i, 1 ≤ i → i ≤ prm.nHistoryTables → prm.tagTableTagWidths i < 32

theorem byte_setWidth (x : Bool) : (byte x).setWidth 32 = Folds.bit 32 x := by
  cases x <;> rfl

theorem maskWord {c : Nat} (fits : c < 64) : (1#64 <<< c) - 1 = BitVec.ofNat 64 (2 ^ c - 1) := by
  have pos := Nat.two_pow_pos c
  refine eq_of_toNat_eq ?_
  rw [toNat_sub, toNat_one_shiftLeft fits, toNat_ofNat,
    show BitVec.toNat (1 : BitVec 64) = 1 from rfl]
  omega

theorem and_maskWord {c : Nat} (fits : c < 32) (y : BitVec 32) :
    (y.setWidth 64 &&& ((1#64 <<< c) - 1)).setWidth 32 = y &&& BitVec.ofNat 32 (2 ^ c - 1) := by
  rw [maskWord (fits.trans (by decide))]
  simp

namespace FoldedHistory

/-- The fold of a sequence of directions, the youngest one first. -/
def ofHistory (h : Nat → Bool) (originalLength compressedLength : Nat) : FoldedHistory :=
  { init originalLength compressedLength with
    comp := Folds.fold 32 compressedLength h originalLength }

theorem update_ofHistory {h : Nat → Bool} {x : Bool} {originalLength compressedLength : Nat}
    {window : Nat → Option (BitVec 8)} (new : window 0 = some (byte x))
    (old : window originalLength = some (byte (Folds.push x h originalLength)))
    (pos : 0 < compressedLength) (fits : compressedLength < 32) :
    (ofHistory h originalLength compressedLength).update window
      = some (ofHistory (Folds.push x h) originalLength compressedLength) := by
  have sameLength : (ofHistory h originalLength compressedLength).origLength = originalLength := rfl
  have sameWidth : (ofHistory h originalLength compressedLength).compLength = compressedLength :=
    rfl
  rw [update, new, sameLength, old]
  simp only [bind_eq_bind, bind_some, byte_setWidth, sameWidth]
  rw [if_pos fits, and_maskWord fits]
  simp only [ofHistory, Folds.fold_push pos fits]
  rfl

theorem ofHistory_zero (originalLength compressedLength : Nat) :
    ofHistory (fun _ => false) originalLength compressedLength
      = init originalLength compressedLength := by
  rw [ofHistory, Folds.fold_false]
  rfl

end FoldedHistory

variable {prm : TageParams} {h : Nat → Bool} {x : Bool}

def TableHistory.ofHistory (prm : TageParams) (h : Nat → Bool) (i : Nat) : TableHistory where
  computeIndices := .ofHistory h (prm.histLengths i) (prm.logTagTableSizes i)
  computeTags0 := .ofHistory h (prm.histLengths i) (prm.tagTableTagWidths i)
  computeTags1 := .ofHistory h (prm.histLengths i) (prm.tagTableTagWidths i - 1)

/-- The folds of a sequence of directions for all tables. -/
def tablesOf (prm : TageParams) (h : Nat → Bool) : List TableHistory :=
  (List.range' 1 prm.nHistoryTables).map (TableHistory.ofHistory prm h)

theorem TableHistory.update_ofHistory (accepted : prm.Accepted) (fits : prm.Fits)
    {window : Nat → Option (BitVec 8)}
    (shown : ∀ k ≤ prm.maxHist, window k = some (byte (Folds.push x h k))) {i : Nat} (low : 1 ≤ i)
    (high : i ≤ prm.nHistoryTables) :
    (ofHistory prm h i).update window = some (ofHistory prm (Folds.push x h) i) := by
  have new := shown 0 (Nat.zero_le _)
  have old := shown _ (accepted.lengths i low high)
  obtain ⟨posSize, fitsSize⟩ := accepted.sizes i low high
  have wide := accepted.widths i low high
  have narrow := fits.widths i low high
  rw [update, ofHistory]
  simp only [bind_eq_bind]
  rw [FoldedHistory.update_ofHistory new old posSize (by omega), bind_some,
    FoldedHistory.update_ofHistory new old (by omega) narrow, bind_some,
    FoldedHistory.update_ofHistory new old (by omega) (by omega), bind_some]
  rfl

theorem tablesOf_init : (List.range' 1 prm.nHistoryTables).map (TableHistory.init prm)
    = tablesOf prm fun _ => false := by
  refine map_congr_left fun i _ => ?_
  simp only [TableHistory.ofHistory, FoldedHistory.ofHistory_zero]
  rfl

theorem restore_tablesOf (h' : Nat → Bool) :
    List.zipWith TableHistory.restore (tablesOf prm h') ((tablesOf prm h).map TableHistory.comps)
      = tablesOf prm h := by
  rw [tablesOf, tablesOf, List.map_map, zipWith_map, zipWith_self]
  rfl

namespace ThreadHistory

/-- When the window shows a path with its youngest branch, the folds of the path before that
branch become those of the path. -/
theorem updateFolds_of (accepted : prm.Accepted) (fits : prm.Fits) {th : ThreadHistory}
    (tables : th.tables = tablesOf prm h)
    (shown : ∀ k ≤ prm.maxHist, read prm th k = some (byte (Folds.push x h k))) :
    updateFolds prm th = some { th with tables := tablesOf prm (Folds.push x h) } := by
  have updated : (tablesOf prm h).mapM (fun t => t.update (read prm th))
      = some (tablesOf prm (Folds.push x h)) := by
    rw [tablesOf, mapM_map]
    refine Traversals.mapM_some fun i mem => ?_
    obtain ⟨low, high⟩ := List.mem_range'_1.mp mem
    exact TableHistory.update_ofHistory accepted fits shown low (by omega)
  rw [updateFolds, tables, updated]
  rfl

end ThreadHistory

/-- The place of a branch with `n` branches up to it on the path. -/
def place (prm : TageParams) : Nat → Nat
  | 0 => 0
  | n + 1 =>
    if place prm n = 0 then prm.histBufferSize - prm.maxHist - 1 else place prm n - 1

/-- The directions of a path, from its branch number `n` on, lie at its place. -/
def Shows (prm : TageParams) (tab : Nat → BitVec 8) (n : Nat) (h : Nat → Bool) : Prop :=
  ∀ k ≤ prm.maxHist, tab (place prm n + k) = byte (h k)

section Buffer

variable {tab : Nat → BitVec 8} {n : Nat}

theorem place_lt (accepted : prm.Accepted) (n : Nat) :
    place prm n < prm.histBufferSize - prm.maxHist := by
  have buffer := accepted.buffer
  induction n with
  | zero =>
    rw [place]
    omega
  | succ n ih => grind [place]

theorem place_add (accepted : prm.Accepted) (n : Nat) {j : Nat}
    (round : j ≤ prm.histBufferSize - prm.maxHist) : place prm (n + j)
      = if j ≤ place prm n then place prm n - j
        else place prm n + (prm.histBufferSize - prm.maxHist) - j := by
  induction j with
  | zero => rw [Nat.add_zero, if_pos (Nat.zero_le _), Nat.sub_zero]
  | succ j ih => grind [place]

theorem copyToEnd_eq {len : Nat} (short : len ≤ prm.histBufferSize - prm.maxHist) (k : Nat) :
    copyToEnd prm len tab k
      = if prm.histBufferSize - prm.maxHist ≤ k ∧ k < prm.histBufferSize - prm.maxHist + len then
          tab (k - (prm.histBufferSize - prm.maxHist))
        else tab k := by
  induction len generalizing k with
  | zero => rw [copyToEnd, if_neg (by omega)]
  | succ len ih =>
    rw [copyToEnd]
    by_cases here : k = prm.histBufferSize - prm.maxHist + len
    · grind
    · grind

/-- The buffer after the pointer has moved to the place of the next branch. -/
def rolled (prm : TageParams) (n : Nat) (tab : Nat → BitVec 8) : Nat → BitVec 8 :=
  if place prm n = 0 then copyToEnd prm prm.maxHist tab else tab

theorem Shows.rolled (accepted : prm.Accepted) (shows_ : Shows prm tab n h) {d : Nat}
    (near : d + prm.maxHist < prm.histBufferSize - prm.maxHist) :
    Shows prm (rolled prm (n + d) tab) n h := by
  intro k le
  rw [Tage.rolled]
  split
  · rename_i start
    -- the branch lies in the first round as well, at `d`
    have first : place prm n = d := by grind [place_add]
    rw [copyToEnd_eq (by omega), if_neg (by omega)]
    exact shows_ k le
  · exact shows_ k le

theorem Shows.write (accepted : prm.Accepted) (shows_ : Shows prm tab n h) {d : Nat} (pos : 0 < d)
    (near : d + prm.maxHist < prm.histBufferSize - prm.maxHist) (v : BitVec 8) :
    Shows prm (Function.update tab (place prm (n + d)) v) n h := by
  intro k le
  have apart : place prm n + k ≠ place prm (n + d) := by grind [place_add]
  rw [update_of_ne apart]
  exact shows_ k le

theorem Shows.next (accepted : prm.Accepted) (shows_ : Shows prm tab n h) (dir : Bool) :
    Shows prm (Function.update (Tage.rolled prm n tab) (place prm (n + 1)) (byte dir)) (n + 1)
      (Folds.push dir h) := by
  have buffer := accepted.buffer
  intro k le
  cases k with
  | zero => exact update_self _ _ _
  | succ k =>
    rw [update_of_ne (by omega), Tage.rolled, place]
    split
    · rename_i start
      have shown := shows_ k (by omega)
      rw [start, Nat.zero_add] at shown
      rw [copyToEnd_eq (by omega), if_pos (by omega), ← show k
        = prm.histBufferSize - prm.maxHist - 1 + (k + 1) - (prm.histBufferSize - prm.maxHist)
        by omega]
      exact shown
    · rw [show place prm n - 1 + (k + 1) = place prm n + k by omega]
      exact shows_ k (by omega)

theorem Shows.rewrite {y : Bool} (shows_ : Shows prm tab n (Folds.push y h)) (dir : Bool) :
    Shows prm (Function.update tab (place prm n) (byte dir)) n (Folds.push dir h) := by
  intro k le
  cases k with
  | zero => exact update_self _ _ _
  | succ k => aesop

end Buffer

namespace ThreadHistory

/-- The pointer is at the place of a branch, and the window shows the path up to it. -/
structure At (prm : TageParams) (th : ThreadHistory) (n : Nat) (h : Nat → Bool) : Prop where
  pt : th.ptGhist = place prm n
  pointer : th.gHist = place prm n
  shows_ : Shows prm th.globalHistory n h

variable {th : ThreadHistory} {n : Nat}

theorem inBuffer_place (accepted : prm.Accepted) {k : Nat} (le : k ≤ prm.maxHist) :
    InBuffer prm (place prm n + k : Nat) := by
  have inside := place_lt accepted n
  constructor
  · exact Int.natCast_nonneg _
  · exact_mod_cast (by omega : place prm n + k < prm.histBufferSize)

theorem At.read (accepted : prm.Accepted) (at_ : At prm th n h) {k : Nat} (le : k ≤ prm.maxHist) :
    read prm th k = some (byte (h k)) := by
  have where_ : th.gHist + k = (place prm n + k : Nat) := by
    rw [at_.pointer, Int.natCast_add]
  rw [ThreadHistory.read, where_, if_pos (inBuffer_place accepted le), Int.toNat_natCast,
    at_.shows_ k le]

theorem write_place (accepted : prm.Accepted) (pointer : th.gHist = place prm n) (dir : Bool) :
    write prm th dir = some { th with
      globalHistory := Function.update th.globalHistory (place prm n) (byte dir) } := by
  have inside : InBuffer prm (place prm n) := inBuffer_place accepted (Nat.zero_le prm.maxHist)
  rw [write, pointer, if_pos inside, Int.toNat_natCast]

theorem updateGHist_place (accepted : prm.Accepted) (fits : prm.Fits)
    (pt : th.ptGhist = place prm n) (pointer : th.gHist = place prm n) (dir : Bool) :
    updateGHist prm th dir = some { th with
      globalHistory :=
        Function.update (rolled prm n th.globalHistory) (place prm (n + 1)) (byte dir)
      gHist := place prm (n + 1)
      ptGhist := place prm (n + 1) } := by
  rw [updateGHist, rolled]
  by_cases start : place prm n = 0
  · have pos := place_lt accepted n
    have wide : (BitVec.ofNat 32 (prm.histBufferSize - prm.maxHist)).toInt
        = (prm.histBufferSize - prm.maxHist : Nat) := by
      have narrow := fits.pointer
      rw [toInt_ofNat', Int.bmod_eq_of_le]
      · omega
      · omega
    have next : ((prm.histBufferSize - prm.maxHist : Nat) : Int) - 1 = place prm (n + 1) := by
      rw [place, if_pos start]
      omega
    rw [if_pos (by rw [pt, start]; rfl), if_pos start, rollOver, wide]
    rw [next, write_place accepted rfl]
  · have next : (place prm n : Int) - 1 = place prm (n + 1) := by
      rw [place, if_neg start]
      omega
    rw [if_neg (by rw [pt]; exact_mod_cast start), if_neg start, pt, pointer, next,
      write_place accepted rfl]

theorem updateHistories_at (accepted : prm.Accepted) (fits : prm.Fits) (at_ : At prm th n h)
    (tables : th.tables = tablesOf prm h) (branchPc : Addr) (taken : Bool) (bi : BranchInfo) :
    updateHistories prm th branchPc taken bi true = some
      (⟨nextPath prm th.pathHist branchPc,
        Function.update (rolled prm n th.globalHistory) (place prm (n + 1)) (byte taken),
        place prm (n + 1), place prm (n + 1), tablesOf prm (Folds.push taken h)⟩,
      ⟨nextPath prm th.pathHist branchPc, place prm (n + 1),
        (tablesOf prm h).map TableHistory.comps⟩) := by
  generalize moved : (⟨nextPath prm th.pathHist branchPc,
    Function.update (rolled prm n th.globalHistory) (place prm (n + 1)) (byte taken),
    place prm (n + 1), place prm (n + 1), th.tables⟩ : ThreadHistory) = new
  have here : At prm new (n + 1) (Folds.push taken h) :=
    moved ▸ ⟨rfl, rfl, at_.shows_.next accepted taken⟩
  have updated : updateFolds prm new
      = some { new with tables := tablesOf prm (Folds.push taken h) } :=
    updateFolds_of accepted fits (by rw [← moved]; exact tables) fun k le => here.read accepted le
  rw [updateHistories, if_pos accepted.speculative.symm,
    updateGHist_place accepted fits at_.pt at_.pointer]
  simp only [bind_eq_bind, bind_some, moved, updated]
  rw [← moved, tables]
  rfl

theorem squash_at (accepted : prm.Accepted) (fits : prm.Fits) {y : Bool}
    (shows_ : Shows prm th.globalHistory n (Folds.push y h)) {h' : Nat → Bool}
    (tables : th.tables = tablesOf prm h') (taken : Bool) {bi : BranchInfo}
    (pt : bi.ptGhist = place prm n) (saved : bi.comps = (tablesOf prm h).map TableHistory.comps) :
    squash prm th taken bi = some ⟨bi.pathHist,
      Function.update th.globalHistory (place prm n) (byte taken), place prm n, place prm n,
      tablesOf prm (Folds.push taken h)⟩ := by
  obtain ⟨pathHist, _, _⟩ := bi
  subst pt saved
  generalize moved : (⟨pathHist,
    Function.update th.globalHistory (place prm n) (byte taken), place prm n, place prm n,
    tablesOf prm h⟩ : ThreadHistory) = new
  have here : At prm new n (Folds.push taken h) := moved ▸ ⟨rfl, rfl, shows_.rewrite taken⟩
  have updated : updateFolds prm new
      = some { new with tables := tablesOf prm (Folds.push taken h) } :=
    updateFolds_of accepted fits (by rw [← moved]) fun k le => here.read accepted le
  rw [squash, if_pos accepted.speculative]
  dsimp only
  rw [write_place accepted rfl]
  simp only [bind_eq_bind, bind_some, restoreFolds, tables, restore_tablesOf, moved,
    updated]
  rw [← moved]

end ThreadHistory

end Gem5.Pred.Tage
