import Mathlib.Data.Int.ModEq
import Mathlib.Data.List.Basic
import Mathlib.Tactic.Linarith

/-!
# Saturating counters

The counter is a `uint8_t`, the operands are of type `int`. A result is cut to eight bits when it
is stored; the comparison with the maximum stands before the store for `+=` and `-=` and after it
for `<<=`.
-/

namespace Gem5.Base

structure SatCounter where
  initialVal : Nat
  maxVal : Nat
  counter : Nat
deriving DecidableEq

namespace SatCounter

/-- An `int` stored in a `uint8_t`. -/
def toUInt8 (x : Int) : Nat := (x % 256).toNat

/-- The value of an `int` expression; it is undefined outside of the type. -/
def intValue (x : Int) : Option Int := if -2 ^ 31 ≤ x ∧ x < 2 ^ 31 then some x else none

/-- The constructor, with `none` where it is fatal. -/
def create (bits initial_val : Nat) : Option SatCounter :=
  if 8 < bits then none
  else
    let maxVal := toUInt8 (2 ^ bits - 1)
    if maxVal < initial_val then none else some ⟨initial_val, maxVal, initial_val⟩

def increment (c : SatCounter) : SatCounter :=
  if c.counter < c.maxVal then { c with counter := toUInt8 (c.counter + 1) } else c

def decrement (c : SatCounter) : SatCounter :=
  if 0 < c.counter then { c with counter := toUInt8 (c.counter - 1) } else c

def shiftRightAssign (c : SatCounter) (shift : Fin 32) : SatCounter :=
  { c with counter := toUInt8 (c.counter >>> shift.val) }

/-- A promoted counter may be shifted into the sign bit, but not past it. -/
def shiftLeftAssign (c : SatCounter) (shift : Fin 32) : Option SatCounter :=
  if c.counter * 2 ^ shift.val < 2 ^ 32 then
    let shifted := toUInt8 (c.counter * 2 ^ shift.val)
    some { c with counter := if c.maxVal < shifted then c.maxVal else shifted }
  else none

def addAssign (c : SatCounter) (value : Int32) : Option SatCounter :=
  if value.toInt ≤ c.maxVal - c.counter then
    (intValue (c.counter + value.toInt)).map fun sum => { c with counter := toUInt8 sum }
  else some { c with counter := c.maxVal }

def subAssign (c : SatCounter) (value : Int32) : Option SatCounter :=
  if value.toInt < c.counter then
    (intValue (c.counter - value.toInt)).map fun difference =>
      { c with counter := toUInt8 difference }
  else some { c with counter := 0 }

def reset (c : SatCounter) : SatCounter := { c with counter := c.initialVal }

inductive Op where
  | increment
  | decrement
  | addAssign (value : Int32)
  | subAssign (value : Int32)
  | shiftLeftAssign (shift : Fin 32)
  | shiftRightAssign (shift : Fin 32)
  | reset

def step (c : SatCounter) : Op → Option SatCounter
  | .increment => some c.increment
  | .decrement => some c.decrement
  | .addAssign value => c.addAssign value
  | .subAssign value => c.subAssign value
  | .shiftLeftAssign shift => c.shiftLeftAssign shift
  | .shiftRightAssign shift => some (c.shiftRightAssign shift)
  | .reset => some c.reset

/-- The integer result of an operation that saturates. -/
def exact (c : SatCounter) : Op → Option Int
  | .increment => some (c.counter + 1)
  | .decrement => some (c.counter - 1)
  | .addAssign value => some (c.counter + value.toInt)
  | .subAssign value => some (c.counter - value.toInt)
  | .shiftLeftAssign shift => some (c.counter * 2 ^ shift.val)
  | .shiftRightAssign _ => none
  | .reset => none

/-- The nearest integer in `[0, top]`. -/
def clamp (top x : Int) : Int := max 0 (min x top)

/-- The operation ends in the interval, with the clamped result if it saturates. -/
def StepSaturates (bits : Nat) (c : SatCounter) (op : Op) : Prop :=
  ∃ t, c.step op = some t ∧ t.counter ≤ 2 ^ bits - 1 ∧
    ∀ r, c.exact op = some r → (t.counter : Int) = clamp (2 ^ bits - 1) r

/-- The counter is in the interval at the start and at every operation of the sequence. -/
def Saturates (bits : Nat) (start : SatCounter) (ops : List Op) : Prop :=
  start.counter ≤ 2 ^ bits - 1 ∧
    ∀ before op after, ops = before ++ op :: after →
      ∃ c, before.foldlM step start = some c ∧ c.StepSaturates bits op

/-- The eight bits of the result do not betray what was cut off. -/
def Fits (c : SatCounter) : Op → Prop
  | .addAssign value => 0 ≤ c.counter + value.toInt ∨ (c.counter + value.toInt) % 256 = 0
  | .subAssign value => c.counter - value.toInt ≤ c.maxVal ∨
      (c.counter - value.toInt) % 256 = c.maxVal ∧ c.counter - value.toInt < 2 ^ 31
  | .shiftLeftAssign shift => c.counter * 2 ^ shift.val < 256 ∨
      c.maxVal ≤ c.counter * 2 ^ shift.val % 256
  | _ => True

/-- The fields of a counter of so many bits. -/
structure InRange (bits : Nat) (c : SatCounter) : Prop where
  narrow : bits ≤ 8
  maxVal_eq : c.maxVal = 2 ^ bits - 1
  initialVal_le : c.initialVal ≤ c.maxVal
  counter_le : c.counter ≤ c.maxVal

section Steps

variable {bits : Nat} {c : SatCounter}

theorem eq_clamp_iff {top x y : Int} (positive : 0 ≤ top) : y = clamp top x ↔
    x < 0 ∧ y = 0 ∨ top < x ∧ y = top ∨ 0 ≤ x ∧ x ≤ top ∧ y = x := by
  rw [clamp]
  rcases Int.le_total x top with le | le
  · rw [min_eq_left le]
    omega
  · rw [min_eq_right le]
    omega

theorem toUInt8_natCast (n : Nat) : toUInt8 n = n % 256 := by
  rw [toUInt8]
  omega

theorem pow_le (narrow : bits ≤ 8) : 2 ^ bits ≤ 256 :=
  Nat.pow_le_pow_right (by decide) narrow

theorem InRange.maxVal_lt (range : InRange bits c) : c.maxVal < 256 := by
  have := pow_le range.narrow
  have := range.maxVal_eq
  omega

theorem create_inRange {initial_val : Nat} (made : create bits initial_val = some c) :
    InRange bits c := by
  rw [create] at made
  split at made
  · cases made
  rename_i narrow
  have small := pow_le (Nat.not_lt.mp narrow)
  have top : toUInt8 (2 ^ bits - 1) = 2 ^ bits - 1 := by
    have cast : ((2 : Int) ^ bits - 1) = ((2 ^ bits - 1 : Nat) : Int) := by simp
    rw [cast, toUInt8_natCast]
    omega
  rw [top] at made
  dsimp only at made
  split at made
  · cases made
  rename_i le
  cases made
  exact ⟨Nat.not_lt.mp narrow, rfl, Nat.not_lt.mp le, Nat.not_lt.mp le⟩

theorem step_bounds {op : Op} {t : SatCounter} (eq : c.step op = some t) :
    t.maxVal = c.maxVal ∧ t.initialVal = c.initialVal := by
  cases op with
  | increment =>
    cases eq
    rw [increment]
    split <;> exact ⟨rfl, rfl⟩
  | decrement =>
    cases eq
    rw [decrement]
    split <;> exact ⟨rfl, rfl⟩
  | addAssign =>
    rw [step, addAssign] at eq
    split at eq
    · aesop
    · cases eq
      exact ⟨rfl, rfl⟩
  | subAssign =>
    rw [step, subAssign] at eq
    split at eq
    · aesop
    · cases eq
      exact ⟨rfl, rfl⟩
  | shiftLeftAssign shift => grind [step, shiftLeftAssign]
  | shiftRightAssign | reset =>
    cases eq
    exact ⟨rfl, rfl⟩

theorem InRange.top_cast (range : InRange bits c) : ((2 ^ bits - 1 : Int)) = c.maxVal := by
  rw [range.maxVal_eq]
  have positive : 0 < 2 ^ bits := Nat.two_pow_pos bits
  push_cast [positive]
  rfl

theorem stepSaturates_iff (range : InRange bits c) {op : Op} {t : SatCounter} {r : Int}
    (eq : c.step op = some t) (result : c.exact op = some r) :
    c.StepSaturates bits op ↔ (t.counter : Int) = clamp c.maxVal r := by
  rw [StepSaturates, range.top_cast, ← range.maxVal_eq]
  constructor
  · grind
  · intro clamped
    refine ⟨t, eq, ?_, ?_⟩
    · rw [eq_clamp_iff (by omega)] at clamped
      omega
    · grind

theorem increment_saturates (range : InRange bits c) : c.StepSaturates bits .increment := by
  apply (stepSaturates_iff range rfl rfl).mpr
  have le := range.counter_le
  have lt := range.maxVal_lt
  rw [eq_clamp_iff (by omega), increment]
  split
  · dsimp only [toUInt8]
    omega
  · omega

theorem decrement_saturates (range : InRange bits c) : c.StepSaturates bits .decrement := by
  apply (stepSaturates_iff range rfl rfl).mpr
  have le := range.counter_le
  have lt := range.maxVal_lt
  rw [eq_clamp_iff (by omega), decrement]
  split
  · dsimp only [toUInt8]
    omega
  · omega

theorem addAssign_saturates_iff (range : InRange bits c) (value : Int32) :
    c.StepSaturates bits (.addAssign value) ↔ c.Fits (.addAssign value) := by
  have lt := range.maxVal_lt
  have low := value.le_toInt
  rw [Fits]
  by_cases room : value.toInt ≤ c.maxVal - c.counter
  · have defined : intValue (c.counter + value.toInt) = some (c.counter + value.toInt) := by
      rw [intValue, if_pos (by omega)]
    have eq : c.step (.addAssign value)
        = some { c with counter := toUInt8 (c.counter + value.toInt) } := by
      rw [step, addAssign, if_pos room, defined]
      rfl
    rw [stepSaturates_iff range eq rfl, eq_clamp_iff (by omega)]
    dsimp only [toUInt8]
    omega
  · have eq : c.step (.addAssign value) = some { c with counter := c.maxVal } := by
      rw [step, addAssign, if_neg room]
    rw [stepSaturates_iff range eq rfl, eq_clamp_iff (by omega)]
    dsimp only
    omega

theorem subAssign_saturates_iff (range : InRange bits c) (value : Int32) :
    c.StepSaturates bits (.subAssign value) ↔ c.Fits (.subAssign value) := by
  have lt := range.maxVal_lt
  rw [Fits]
  by_cases above : value.toInt < c.counter
  · by_cases small : (c.counter : Int) - value.toInt < 2 ^ 31
    · have defined : intValue (c.counter - value.toInt) = some (c.counter - value.toInt) := by
        rw [intValue, if_pos (by omega)]
      have eq : c.step (.subAssign value)
          = some { c with counter := toUInt8 (c.counter - value.toInt) } := by
        rw [step, subAssign, if_pos above, defined]
        rfl
      rw [stepSaturates_iff range eq rfl, eq_clamp_iff (by omega)]
      dsimp only [toUInt8]
      omega
    · have undefined_ : c.step (.subAssign value) = none := by
        rw [step, subAssign, if_pos above, intValue, if_neg (by omega)]
        rfl
      constructor
      · rintro ⟨t, eq, -⟩
        cases undefined_.symm.trans eq
      · intro fits
        omega
  · have eq : c.step (.subAssign value) = some { c with counter := 0 } := by
      rw [step, subAssign, if_neg above]
    rw [stepSaturates_iff range eq rfl, eq_clamp_iff (by omega)]
    dsimp only
    omega

theorem shifted_mod (n shift : Nat) (far : 8 ≤ shift) : n * 2 ^ shift % 256 = 0 := by
  obtain ⟨more, rfl⟩ := Nat.exists_eq_add_of_le far
  rw [Nat.pow_add, ← Nat.mul_assoc, Nat.mul_right_comm]
  exact Nat.mul_mod_left _ 256

theorem shiftLeftAssign_saturates_iff (range : InRange bits c) (shift : Fin 32) :
    c.StepSaturates bits (.shiftLeftAssign shift) ↔ c.Fits (.shiftLeftAssign shift) := by
  have le := range.counter_le
  have lt := range.maxVal_lt
  rw [Fits]
  by_cases small : c.counter * 2 ^ shift.val < 2 ^ 32
  · have eq : c.step (.shiftLeftAssign shift) = some { c with counter :=
        if c.maxVal < c.counter * 2 ^ shift.val % 256 then c.maxVal
        else c.counter * 2 ^ shift.val % 256 } := by
      rw [step, shiftLeftAssign, if_pos small]
      rw [show ((c.counter : Int) * 2 ^ shift.val) = ((c.counter * 2 ^ shift.val : Nat) : Int) by
        push_cast; rfl, toUInt8_natCast]
    have result : c.exact (.shiftLeftAssign shift) = some ((c.counter * 2 ^ shift.val : Nat) : Int) := by
      push_cast
      rfl
    rw [stepSaturates_iff range eq result, eq_clamp_iff (by omega)]
    dsimp only
    split <;> omega
  · have undefined_ : c.step (.shiftLeftAssign shift) = none := by
      rw [step, shiftLeftAssign, if_neg small]
    have far : 8 ≤ shift.val := by
      by_contra near
      have bound : 2 ^ shift.val ≤ 2 ^ 8 := Nat.pow_le_pow_right (by decide) (by omega)
      have : c.counter * 2 ^ shift.val ≤ 255 * 2 ^ 8 := Nat.mul_le_mul (by omega) bound
      omega
    have cut := shifted_mod c.counter shift.val far
    constructor
    · rintro ⟨t, eq, -⟩
      cases undefined_.symm.trans eq
    · grind

theorem shiftRightAssign_saturates (range : InRange bits c) (shift : Fin 32) :
    c.StepSaturates bits (.shiftRightAssign shift) := by
  refine ⟨_, rfl, ?_, fun r result => nomatch result⟩
  have le := range.counter_le
  have less : c.counter >>> shift.val ≤ c.counter := Nat.shiftRight_le c.counter shift.val
  rw [← range.maxVal_eq, shiftRightAssign, toUInt8_natCast]
  exact (Nat.mod_le _ _).trans (less.trans le)

theorem reset_saturates (range : InRange bits c) : c.StepSaturates bits .reset := by
  refine ⟨_, rfl, ?_, fun r result => nomatch result⟩
  rw [← range.maxVal_eq]
  exact range.initialVal_le

theorem step_saturates_iff (range : InRange bits c) (op : Op) :
    c.StepSaturates bits op ↔ c.Fits op := by
  cases op with
  | increment => exact iff_of_true (increment_saturates range) trivial
  | decrement => exact iff_of_true (decrement_saturates range) trivial
  | addAssign value => exact addAssign_saturates_iff range value
  | subAssign value => exact subAssign_saturates_iff range value
  | shiftLeftAssign shift => exact shiftLeftAssign_saturates_iff range shift
  | shiftRightAssign shift => exact iff_of_true (shiftRightAssign_saturates range shift) trivial
  | reset => exact iff_of_true (reset_saturates range) trivial

theorem InRange.step (range : InRange bits c) {op : Op} (good : c.StepSaturates bits op) :
    ∃ t, c.step op = some t ∧ InRange bits t := by
  obtain ⟨t, eq, le, -⟩ := good
  obtain ⟨top, initial⟩ := step_bounds eq
  refine ⟨t, eq, range.narrow, top.trans range.maxVal_eq, ?_, ?_⟩
  · rw [top, initial]
    exact range.initialVal_le
  · rw [top, range.maxVal_eq]
    exact le

end Steps

section Sequences

variable {bits : Nat} {start : SatCounter}

theorem InRange.run (range : InRange bits start) (ops : List Op) (good : ∀ before op after c, ops =
    before ++ op :: after → before.foldlM SatCounter.step start = some c → InRange bits c →
    c.StepSaturates bits op) : ∃ c, ops.foldlM SatCounter.step start = some c ∧ InRange bits c := by
  induction ops generalizing start with
  | nil => exact ⟨start, rfl, range⟩
  | cons op rest ih =>
    obtain ⟨t, eq, kept⟩ := range.step (good [] op rest start rfl rfl range)
    obtain ⟨c, run, inside⟩ := ih kept fun before op' after c split run inside => by
      refine good (op :: before) op' after c (by rw [split, List.cons_append]) ?_ inside
      rw [List.foldlM_cons, eq]
      exact run
    refine ⟨c, ?_, inside⟩
    rw [List.foldlM_cons, eq]
    exact run

/-- A sequence saturates throughout exactly if each of its operations fits where it is made. -/
theorem saturates_iff {initial_val : Nat} (made : create bits initial_val = some start)
    (ops : List Op) : Saturates bits start ops ↔ ∀ before op after c,
      ops = before ++ op :: after → before.foldlM step start = some c → c.Fits op := by
  have range := create_inRange made
  constructor
  · rintro ⟨-, all⟩ before op after c split run
    obtain ⟨c', run', inside⟩ := range.run before fun first op' middle c split' run _ => by
      obtain ⟨c', run', good⟩ := all first op' (middle ++ op :: after) (by
        rw [split, split', List.append_assoc, List.cons_append])
      cases run.symm.trans run'
      exact good
    cases run.symm.trans run'
    obtain ⟨c', run', good⟩ := all before op after split
    cases run.symm.trans run'
    exact (step_saturates_iff inside op).mp good
  · intro fits
    refine ⟨range.maxVal_eq ▸ range.counter_le, fun before op after split => ?_⟩
    obtain ⟨c, run, inside⟩ := range.run before fun first op' middle c split' run inside =>
      (step_saturates_iff inside op').mpr (fits first op' (middle ++ op :: after) c (by
        rw [split, split', List.append_assoc, List.cons_append]) run)
    exact ⟨c, run, (step_saturates_iff inside op).mpr (fits before op after c split run)⟩

theorem saturates_iff_two_bits : Saturates 2 ⟨0, 3, 0⟩ [.addAssign (-1)] ↔
    ∀ before op after c, [Op.addAssign (-1)] = before ++ op :: after →
      before.foldlM step ⟨0, 3, 0⟩ = some c → c.Fits op :=
  saturates_iff (show create 2 0 = some ⟨0, 3, 0⟩ by decide) [.addAssign (-1)]

/-- A sum below zero goes around. -/
theorem add_negative_wraps : ¬Saturates 2 ⟨0, 3, 0⟩ [.addAssign (-1)] := by
  rintro ⟨-, all⟩
  obtain ⟨c, run, t, eq, le, -⟩ := all [] (.addAssign (-1)) [] rfl
  cases run
  have wrapped : step ⟨0, 3, 0⟩ (.addAssign (-1)) = some ⟨0, 3, 255⟩ := by decide
  cases wrapped.symm.trans eq
  exact absurd le (by decide)

end Sequences

end SatCounter

end Gem5.Base
