import Gem5.Lib.Tables
import Mathlib.Data.Fin.Basic
import Mathlib.Tactic.Linarith

/-!
# Self-stalling pipelines

A time buffer is a ring of slots that is read relative to the slot of now; a pipeline pushes into
that slot and pops from the oldest one. Each effective advance makes every slot one cycle older and
reuses the oldest slot for the next push.
-/

namespace Gem5.Minor

open Function Option

universe u

/-- What marks an element as a bubble. -/
structure BubbleTraits (T : Type u) where
  isBubble : T → Bool
  bubble : T
  isBubble_bubble : isBubble bubble = true

/-- `TimeBuffer` -/
structure TimeBuffer (T : Type u) (past future : Nat) where
  data : Fin (past + future + 1) → T
  base : Fin (past + future + 1)

namespace TimeBuffer

variable {T : Type u} {past future : Nat}

/-- The slot of the element at `idx` relative to now, with `none` for a failed assertion. -/
def calculateVectorIndex (b : TimeBuffer T past future) (idx : Int) :
    Option (Fin (past + future + 1)) :=
  if valid : -past ≤ idx ∧ idx ≤ future then
    let vector_index := idx + b.base.val
    some ⟨(if past + future + 1 ≤ vector_index then vector_index - (past + future + 1)
      else if vector_index < 0 then vector_index + (past + future + 1) else vector_index).toNat, by
        have := b.base.isLt
        split
        · omega
        · split <;> omega⟩
  else none

def access (b : TimeBuffer T past future) (idx : Int) : Option T :=
  (b.calculateVectorIndex idx).map b.data

def store (b : TimeBuffer T past future) (idx : Int) (value : T) :
    Option (TimeBuffer T past future) :=
  (b.calculateVectorIndex idx).map fun i => { b with data := Function.update b.data i value }

def nextBase (b : TimeBuffer T past future) : Fin (past + future + 1) :=
  if more : b.base.val + 1 < past + future + 1 then ⟨b.base.val + 1, more⟩ else 0

/-- The slot of the furthest future. -/
def futureSlot (past future : Nat) (base : Fin (past + future + 1)) : Fin (past + future + 1) :=
  if more : base.val + future < past + future + 1 then ⟨base.val + future, more⟩
  else ⟨base.val + future - (past + future + 1), by have := base.isLt; omega⟩

/-- The slot that becomes the furthest future one is constructed anew. -/
def advance (b : TimeBuffer T past future) (fresh : T) : TimeBuffer T past future :=
  ⟨Function.update b.data (futureSlot past future b.nextBase) fresh, b.nextBase⟩

end TimeBuffer

structure SelfStallingPipeline (T : Type u) (depth : Nat) where
  buffer : TimeBuffer T depth 0
  stalled : Bool
  occupancy : Nat

namespace SelfStallingPipeline

variable {T : Type u} {depth : Nat} (B : BubbleTraits T) (fresh : T)

/-- The constructor: the size of the buffer is an `int`, and a bubble is written to every slot. -/
def create (depth : Nat) : Option (SelfStallingPipeline T depth) :=
  if 0 < depth ∧ depth + 1 < 2 ^ 31 then
    ((List.range (depth + 1)).foldlM
      (fun (b : TimeBuffer T depth 0) (i : Nat) => b.store (-i) B.bubble)
      ⟨fun _ => fresh, 0⟩).map fun buffer => ⟨buffer, false, 0⟩
  else none

def front (p : SelfStallingPipeline T depth) : Option T := p.buffer.access (-depth)

def alreadyPushed (p : SelfStallingPipeline T depth) : Option Bool :=
  (p.buffer.access 0).map fun elem => !B.isBubble elem

def isPopable (p : SelfStallingPipeline T depth) : Option Bool :=
  p.front.map fun elem => !B.isBubble elem

def push (p : SelfStallingPipeline T depth) (elem : T) : Option (SelfStallingPipeline T depth) :=
  (p.alreadyPushed B).bind fun already =>
    if already then none
    else (p.buffer.store 0 elem).map fun buffer =>
      { p with
        buffer := buffer
        occupancy := if B.isBubble elem then p.occupancy else p.occupancy + 1 }

def advance (p : SelfStallingPipeline T depth) : Option (SelfStallingPipeline T depth) :=
  (p.isPopable B).bind fun data_at_end =>
    if p.stalled then some p
    else
      let p := { p with
        buffer := p.buffer.advance fresh
        occupancy := if data_at_end then p.occupancy - 1 else p.occupancy }
      (p.isPopable B).bind fun stalled =>
        (p.buffer.store 0 B.bubble).map fun buffer =>
          { p with buffer := buffer, stalled := stalled }

inductive Event (T : Type u) where
  | push (elem : T)
  | advance
  | clear

def step (p : SelfStallingPipeline T depth) : Event T → Option (SelfStallingPipeline T depth)
  | .push elem => p.push B elem
  | .advance => p.advance B fresh
  | .clear => some { p with stalled := false }

/-- The number of effective advances, what was pushed at each number of them, and whether the stall
was cleared since the last one. -/
structure Log (T : Type u) where
  count : Nat
  pushed : Nat → T
  cleared : Bool

/-- What was pushed `k` effective advances ago. -/
def Log.ago (log : Log T) (k : Nat) : T :=
  if k ≤ log.count then log.pushed (log.count - k) else B.bubble

/-- The log of an event in a pipeline that is stalled or not. -/
def Log.step (log : Log T) (stalled : Bool) : Event T → Log T
  | .push elem => { log with pushed := Function.update log.pushed log.count elem }
  | .advance => if stalled then log else { log with count := log.count + 1, cleared := false }
  | .clear => { log with cleared := true }

/-- An element is pushed only where none has been. -/
def Admissible (p : SelfStallingPipeline T depth) : Event T → Prop
  | .push _ => p.alreadyPushed B = some false
  | _ => True

/-- A run of a pipeline with its log. -/
inductive Run : SelfStallingPipeline T depth → Log T → Prop where
  | start {p : SelfStallingPipeline T depth} : create B fresh depth = some p →
      Run p ⟨0, fun _ => B.bubble, false⟩
  | step {p p' : SelfStallingPipeline T depth} {log : Log T} (e : Event T) : Run p log →
      Admissible B p e → p.step B fresh e = some p' → Run p' (log.step p.stalled e)

/-- Nothing is lost: the occupancy counts the elements, the front is what was pushed `depth`
effective advances ago, a stalled pipeline stays as it is, and an element at the front of one that
is not stalled has had the stall cleared. -/
structure Lossless (p : SelfStallingPipeline T depth) (log : Log T) : Prop where
  occupancy : p.occupancy = Tally.count (fun elem => !B.isBubble elem) p.buffer.data
  front : p.front = some (log.ago B depth)
  stalls : p.stalled = true → p.advance B fresh = some p
  leaves : ∀ elem, p.front = some elem → B.isBubble elem = false → p.stalled = false →
    log.cleared = true

section Slots

variable {b : TimeBuffer T depth 0}

/-- The slot that is `k` cycles old. -/
def aged (base : Fin (depth + 0 + 1)) (k : Fin (depth + 0 + 1)) : Fin (depth + 0 + 1) :=
  if le : k.val ≤ base.val then ⟨base.val - k.val, by omega⟩
  else ⟨base.val + (depth + 1) - k.val, by omega⟩

theorem aged_val (base k : Fin (depth + 0 + 1)) : (aged base k).val =
    if k.val ≤ base.val then base.val - k.val else base.val + (depth + 1) - k.val := by
  rw [aged]
  split <;> rfl

theorem calculateVectorIndex_neg (k : Fin (depth + 0 + 1)) :
    b.calculateVectorIndex (-(k.val : Int)) = some (aged b.base k) := by
  rw [TimeBuffer.calculateVectorIndex, dif_pos (by omega)]
  apply congrArg some
  apply Fin.ext
  rw [aged_val]
  by_cases le : k.val ≤ b.base.val
  · grind
  · grind

theorem access_neg (k : Fin (depth + 0 + 1)) :
    b.access (-(k.val : Int)) = some (b.data (aged b.base k)) := by
  rw [TimeBuffer.access, calculateVectorIndex_neg]
  rfl

theorem store_neg (k : Fin (depth + 0 + 1)) (value : T) :
    b.store (-(k.val : Int)) value = some ⟨Function.update b.data (aged b.base k) value, b.base⟩ := by
  rw [TimeBuffer.store, calculateVectorIndex_neg]
  rfl

theorem aged_zero (base : Fin (depth + 0 + 1)) : aged base 0 = base := by
  apply Fin.ext
  rw [aged_val]
  exact if_pos (Nat.zero_le _)

theorem aged_aged (base k : Fin (depth + 0 + 1)) : aged base (aged base k) = k := by
  apply Fin.ext
  rw [aged_val, aged_val]
  split <;> split <;> omega

theorem aged_injective {base k j : Fin (depth + 0 + 1)} (same : aged base k = aged base j) :
    k = j := by
  rw [← aged_aged base k, same, aged_aged]

theorem advance_eq (b : TimeBuffer T depth 0) : b.advance fresh =
    ⟨Function.update b.data (aged b.base (Fin.last depth)) fresh, aged b.base (Fin.last depth)⟩ := by
  have next : b.nextBase = aged b.base (Fin.last depth) := by
    apply Fin.ext
    rw [aged_val, Fin.val_last, TimeBuffer.nextBase]
    by_cases more : b.base.val + 1 < depth + 0 + 1
    · grind
    · grind
  have slot : TimeBuffer.futureSlot depth 0 b.nextBase = b.nextBase := dif_pos b.nextBase.isLt
  rw [TimeBuffer.advance, slot, next]

theorem aged_succ (base : Fin (depth + 0 + 1)) (k : Nat) (less : k < depth) :
    aged (aged base (Fin.last depth)) ⟨k + 1, by omega⟩ = aged base ⟨k, by omega⟩ := by
  apply Fin.ext
  rw [aged_val, aged_val, aged_val, Fin.val_last]
  dsimp only
  split <;> split <;> split <;> omega

theorem create_eq (positive : 0 < depth) (small : depth + 1 < 2 ^ 31) :
    create B fresh depth = some ⟨⟨fun _ => B.bubble, 0⟩, false, 0⟩ := by
  have written : ∀ n, n ≤ depth + 1 → ∃ data : Fin (depth + 0 + 1) → T,
      (List.range n).foldlM (fun (b : TimeBuffer T depth 0) (i : Nat) => b.store (-i) B.bubble)
        ⟨fun _ => fresh, 0⟩ = some ⟨data, 0⟩ ∧ ∀ k, k.val < n → data (aged 0 k) = B.bubble := by
    intro n
    induction n with
    | zero => exact fun _ => ⟨fun _ => fresh, rfl, fun k less => absurd less (Nat.not_lt_zero _)⟩
    | succ n ih =>
      intro le
      obtain ⟨data, eq, bubbles⟩ := ih (by omega)
      refine ⟨Function.update data (aged 0 ⟨n, by omega⟩) B.bubble, ?_, fun k less => ?_⟩
      · rw [List.range_succ, List.foldlM_append, eq]
        have stored := store_neg (b := ⟨data, 0⟩) ⟨n, by omega⟩ B.bubble
        exact (bind_pure _).trans stored
      · grind
  obtain ⟨data, eq, bubbles⟩ := written (depth + 1) (Nat.le_refl _)
  have all : data = fun _ => B.bubble := by
    funext i
    rw [← aged_aged 0 i]
    exact bubbles (aged 0 i) (aged 0 i).isLt
  rw [create, if_pos ⟨positive, small⟩, eq, all]
  rfl

end Slots

/-- Each slot holds what was pushed as many effective advances ago as it is old. -/
structure Holds (p : SelfStallingPipeline T depth) (log : Log T) : Prop where
  positive : 0 < depth
  slots : ∀ k : Fin (depth + 0 + 1), p.buffer.data (aged p.buffer.base k) = log.ago B k.val
  later : ∀ m, log.count < m → log.pushed m = B.bubble
  occupancy : p.occupancy = Tally.count (fun elem => !B.isBubble elem) p.buffer.data
  leaves : B.isBubble (p.buffer.data (aged p.buffer.base (Fin.last depth))) = false →
    p.stalled = false → log.cleared = true

section Events

variable {B fresh} {p : SelfStallingPipeline T depth} {log : Log T}

theorem front_eq (p : SelfStallingPipeline T depth) :
    p.front = some (p.buffer.data (aged p.buffer.base (Fin.last depth))) :=
  access_neg (Fin.last depth)

theorem alreadyPushed_eq (p : SelfStallingPipeline T depth) :
    p.alreadyPushed B = some (!B.isBubble (p.buffer.data p.buffer.base)) := by
  have now : p.buffer.access 0 = some (p.buffer.data (aged p.buffer.base 0)) := access_neg 0
  rw [alreadyPushed, now, aged_zero]
  rfl

theorem isPopable_eq (p : SelfStallingPipeline T depth) : p.isPopable B
    = some (!B.isBubble (p.buffer.data (aged p.buffer.base (Fin.last depth)))) := by
  rw [isPopable, front_eq]
  rfl

theorem store_zero (b : TimeBuffer T depth 0) (value : T) :
    b.store 0 value = some ⟨Function.update b.data b.base value, b.base⟩ := by
  have now : b.store 0 value = some ⟨Function.update b.data (aged b.base 0) value, b.base⟩ :=
    store_neg 0 value
  rwa [aged_zero] at now

theorem Holds.start (positive : 0 < depth) :
    Holds B (⟨⟨fun _ => B.bubble, 0⟩, false, 0⟩ : SelfStallingPipeline T depth)
      ⟨0, fun _ => B.bubble, false⟩ := by
  refine ⟨positive, fun k => (ite_self _).symm, fun _ _ => rfl, ?_, fun full => ?_⟩
  · grind [Tally.count_eq_zero, B.isBubble_bubble]
  · rw [B.isBubble_bubble] at full
    cases full

theorem Log.ago_push_zero (log : Log T) (stalled : Bool) (elem : T) :
    (log.step stalled (.push elem)).ago B 0 = elem := by
  exact update_self ..

theorem Log.ago_push (log : Log T) (stalled : Bool) (elem : T) {k : Nat} (past : k ≠ 0) :
    (log.step stalled (.push elem)).ago B k = log.ago B k := by
  rw [Log.ago, Log.ago]
  change (if k ≤ log.count then Function.update log.pushed log.count elem (log.count - k)
    else B.bubble) = _
  split
  · exact update_of_ne (by omega) _ _
  · rfl

theorem Log.ago_advance (log : Log T) (k : Nat) :
    (log.step false .advance).ago B (k + 1) = log.ago B k := by
  change (if k + 1 ≤ log.count + 1 then log.pushed (log.count + 1 - (k + 1)) else B.bubble) = _
  rw [Nat.add_sub_add_right]
  exact if_congr (by omega) rfl rfl

theorem Holds.push (holds : Holds B p log) (elem : T) (free : p.alreadyPushed B = some false) :
    ∃ p', p.push B elem = some p' ∧ Holds B p' (log.step p.stalled (.push elem)) := by
  have bubble : B.isBubble (p.buffer.data p.buffer.base) = true := by grind [alreadyPushed_eq]
  have apart : ∀ k : Fin (depth + 0 + 1), k.val ≠ 0 → aged p.buffer.base k ≠ p.buffer.base :=
    fun k nonzero same =>
      nonzero (congrArg Fin.val (aged_injective (same.trans (aged_zero p.buffer.base).symm)))
  have pushed : p.push B elem = some { p with
      buffer := ⟨Function.update p.buffer.data p.buffer.base elem, p.buffer.base⟩
      occupancy := if B.isBubble elem then p.occupancy else p.occupancy + 1 } := by
    rw [SelfStallingPipeline.push, free, store_zero]
    rfl
  refine ⟨_, pushed, holds.positive, fun k => ?_, fun m less => ?_, ?_, fun full => ?_⟩
  · dsimp only
    by_cases now : k.val = 0
    · have first : k = 0 := Fin.ext now
      rw [first, aged_zero, update_self]
      exact (log.ago_push_zero p.stalled elem).symm
    · rw [update_of_ne (apart k now), holds.slots k]
      exact (log.ago_push p.stalled elem now).symm
  · exact (update_of_ne (Nat.ne_of_gt less) _ _).trans (holds.later m less)
  · dsimp only
    by_cases none : B.isBubble elem = true
    · rw [if_pos none, holds.occupancy]
      exact (Tally.count_update_same (p := fun elem => !B.isBubble elem) (by rw [none, bubble])).symm
    · rw [if_neg none, holds.occupancy]
      exact (Tally.count_update_gain (p := fun elem => !B.isBubble elem) (by rw [bubble]; rfl)
        (by simp [none])).symm
  · have positive := holds.positive
    dsimp only at full
    rw [update_of_ne (apart _ (by rw [Fin.val_last]; omega))] at full
    exact holds.leaves full

/-- An effective advance makes everything one cycle older and drops the oldest slot, which has been
released if it is not a bubble. -/
theorem Holds.advance (holds : Holds B p log) :
    ∃ p', p.advance B fresh = some p' ∧ Holds B p' (log.step p.stalled .advance) := by
  have positive := holds.positive
  cases stalled : p.stalled with
  | true =>
    refine ⟨p, ?_, holds⟩
    rw [SelfStallingPipeline.advance, isPopable_eq, bind_some, stalled]
    rfl
  | false =>
    -- The oldest slot is the slot of now after the advance, and the slot before it the front.
    have front : aged (aged p.buffer.base (Fin.last depth)) (Fin.last depth)
        = aged p.buffer.base ⟨depth - 1, by omega⟩ := by
      rw [← aged_succ p.buffer.base (depth - 1) (by omega)]
      congr 1
      apply Fin.ext
      rw [Fin.val_last]
      dsimp only
      omega
    have apart : aged p.buffer.base ⟨depth - 1, by omega⟩ ≠ aged p.buffer.base (Fin.last depth) := by
      intro same
      have := congrArg Fin.val (aged_injective same)
      rw [Fin.val_last] at this
      dsimp only at this
      omega
    have advanced : p.advance B fresh = some
        { buffer := ⟨Function.update p.buffer.data (aged p.buffer.base (Fin.last depth)) B.bubble,
            aged p.buffer.base (Fin.last depth)⟩
          stalled := !B.isBubble (p.buffer.data (aged p.buffer.base ⟨depth - 1, by omega⟩))
          occupancy := if !B.isBubble (p.buffer.data (aged p.buffer.base (Fin.last depth)))
            then p.occupancy - 1 else p.occupancy } := by
      rw [SelfStallingPipeline.advance, isPopable_eq, bind_some, stalled]
      dsimp only
      rw [isPopable_eq, advance_eq, bind_some, store_zero, front, update_idem]
      dsimp only
      rw [update_of_ne apart]
      rfl
    refine ⟨_, advanced, positive, fun k => ?_, fun m less => holds.later m (Nat.lt_of_succ_lt less),
      ?_, fun full still => ?_⟩
    · dsimp only
      cases age : k.val with
      | zero =>
        have first : k = 0 := Fin.ext age
        rw [first, aged_zero, update_self]
        exact (holds.later (log.count + 1) (Nat.lt_succ_self _)).symm
      | succ j =>
        have less : j < depth := by omega
        have older : k = ⟨j + 1, by omega⟩ := Fin.ext age
        have kept : aged p.buffer.base ⟨j, by omega⟩ ≠ aged p.buffer.base (Fin.last depth) := by
          intro same
          have := congrArg Fin.val (aged_injective same)
          rw [Fin.val_last] at this
          dsimp only at this
          omega
        rw [older, aged_succ p.buffer.base j less, update_of_ne kept, holds.slots,
          log.ago_advance]
    · dsimp only
      cases left : B.isBubble (p.buffer.data (aged p.buffer.base (Fin.last depth))) with
      | true =>
        have same := Tally.count_update_same (p := fun elem => !B.isBubble elem)
          (f := p.buffer.data) (i := aged p.buffer.base (Fin.last depth)) (a := B.bubble)
          (by rw [left, B.isBubble_bubble])
        rw [same, ← holds.occupancy]
        rfl
      | false =>
        have lost := Tally.count_update_lose (p := fun elem => !B.isBubble elem)
          (f := p.buffer.data) (i := aged p.buffer.base (Fin.last depth)) (a := B.bubble)
          (by rw [left]; rfl) (by rw [B.isBubble_bubble]; rfl)
        rw [← holds.occupancy] at lost
        change p.occupancy - 1 = _
        omega
    · grind

theorem Holds.clear (holds : Holds B p log) :
    Holds B { p with stalled := false } (log.step p.stalled .clear) :=
  ⟨holds.positive, holds.slots, holds.later, holds.occupancy, fun _ _ => rfl⟩

theorem Holds.step (holds : Holds B p log) (e : Event T) (admissible : Admissible B p e) :
    ∃ p', p.step B fresh e = some p' ∧ Holds B p' (log.step p.stalled e) := by
  cases e with
  | push elem => exact holds.push elem admissible
  | advance => exact holds.advance
  | clear => exact ⟨_, rfl, holds.clear⟩

theorem Holds.lossless (holds : Holds B p log) : Lossless B fresh p log := by
  have slot := holds.slots (Fin.last depth)
  rw [Fin.val_last] at slot
  refine ⟨holds.occupancy, ?_, fun stalled => ?_, fun elem front full free => ?_⟩
  · rw [front_eq, slot]
  · rw [SelfStallingPipeline.advance, isPopable_eq, bind_some, if_pos stalled]
  · rw [front_eq] at front
    refine holds.leaves ?_ free
    rw [Option.some.inj front]
    exact full

theorem Run.holds (run : Run B fresh p log) : Holds B p log := by
  induction run with
  | start made =>
    have valid := made
    rw [create] at valid
    split at valid
    · rename_i bounds
      rw [create_eq B fresh bounds.1 bounds.2] at made
      cases made
      exact .start bounds.1
    · cases valid
  | step e _ admissible eq ih =>
    obtain ⟨p', eq', kept⟩ := ih.step e admissible
    cases eq.symm.trans eq'
    exact kept

/-- In every run nothing is lost, and the next event goes through. -/
theorem run_lossless (run : Run B fresh p log) : Lossless B fresh p log ∧
    ∀ e, Admissible B p e → ∃ p', p.step B fresh e = some p' := by
  have holds := run.holds
  refine ⟨holds.lossless, fun e admissible => ?_⟩
  obtain ⟨p', eq, -⟩ := holds.step e admissible
  exact ⟨p', eq⟩

end Events

/-- Options with `none` as the bubble. -/
def optionBubbles : BubbleTraits (Option Nat) := ⟨Option.isNone, none, rfl⟩

/-- One element in a pipeline of depth 1. -/
theorem run_lossless_pushed : Lossless optionBubbles none
      (⟨⟨Function.update (fun _ => none) 0 (some 7), 0⟩, false, 1⟩ : SelfStallingPipeline (Option Nat) 1)
      ⟨0, Function.update (fun _ => none) 0 (some 7), false⟩ ∧
    ∀ e, Admissible optionBubbles
        (⟨⟨Function.update (fun _ => none) 0 (some 7), 0⟩, false, 1⟩ : SelfStallingPipeline _ 1) e →
      ∃ p', step optionBubbles none
        (⟨⟨Function.update (fun _ => none) 0 (some 7), 0⟩, false, 1⟩ : SelfStallingPipeline _ 1) e
          = some p' :=
  run_lossless (.step (.push (some 7))
    (.start (create_eq optionBubbles none Nat.one_pos (by decide))) rfl rfl)

end SelfStallingPipeline

end Gem5.Minor
