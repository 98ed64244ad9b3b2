import Gem5.Lib.Loops
import Mathlib.Algebra.Order.Ring.Nat
import Mathlib.Data.Int.ModEq
import Mathlib.Data.Nat.Prime.Basic
import Mathlib.Logic.Function.Basic
import Mathlib.Logic.Function.Iterate
import Mathlib.Tactic.Linarith
import Mathlib.Tactic.Ring

/-!
# Circular queues

A vector with the index of the head, that of the tail and a counter of how often the tail went
around. Index and round together are a place on a line that is cut into rounds of `capacity`
indices; an iterator stands at such a place.
-/

namespace Gem5.Base.CircularQueue

def uint32 (x : Int) : Nat := (x % 2 ^ 32).toNat

def uint64 (x : Int) : Nat := (x % 2 ^ 64).toNat

def int32 (x : Int) : Int := (x + 2 ^ 31) % 2 ^ 32 - 2 ^ 31

/-- General modular addition. -/
def moduloAdd (op1 op2 size : Nat) : Nat := uint32 (op1 + op2) % size

def sub (op1 op2 size : Nat) : Int :=
  if op2 < op1 then int32 ((op1 - op2) % size : Nat) else int32 (-((op2 - op1) % size : Nat))

/-- General modular subtraction. -/
def moduloSub (op1 op2 size : Nat) : Nat :=
  let ret := sub op1 op2 size
  if 0 ≤ ret then uint32 ret else uint32 (ret + size)

def increase (capacity v : Nat) : Nat := moduloAdd v 1 capacity

def decrease (capacity v : Nat) : Nat := (if v ≠ 0 then v else capacity) - 1

@[ext]
structure Iterator where
  idx : Nat
  round : Nat
deriving DecidableEq

namespace Iterator

variable (capacity : Nat)

/-- `operator++` -/
def next (it : Iterator) : Iterator :=
  let idx := increase capacity it.idx
  ⟨idx, if idx = 0 then uint32 (it.round + 1) else it.round⟩

/-- The update of `operator--`, without its assertion. -/
def prev (it : Iterator) : Iterator :=
  ⟨decrease capacity it.idx, if it.idx = 0 then uint32 (it.round - 1) else it.round⟩

/-- `operator+=`; the sum is an `int64_t` that is divided as a `size_t`. -/
def add (it : Iterator) (t : Int) : Iterator :=
  ⟨moduloAdd it.idx (uint32 t) capacity, uint32 (it.round + uint64 (t + it.idx) / capacity)⟩

/-- `operator-=` -/
def minus (it : Iterator) (t : Int) : Iterator :=
  if 0 ≤ t then
    ⟨moduloSub it.idx (uint32 t) capacity, uint32 (it.round + uint64 (-t + it.idx) / capacity)⟩
  else it.add capacity (-t)

/-- `operator-` of two iterators; the sum is kept in an `int32_t`. -/
def difference (a b : Iterator) : Int :=
  let ret := sub a.idx b.idx capacity
  if a.round ≠ b.round then int32 (ret + uint32 (a.round - b.round) * capacity) else ret

def Lt (a b : Iterator) : Prop := a.round < b.round ∨ a.round = b.round ∧ a.idx < b.idx

/-- `operator<=` -/
def Le (a b : Iterator) : Prop := ¬b.Lt a

instance (a b : Iterator) : Decidable (a.Lt b) := inferInstanceAs (Decidable (_ ∨ _))

instance (a b : Iterator) : Decidable (a.Le b) := inferInstanceAs (Decidable (¬_))

end Iterator

/-- The iterator at a place of the line. -/
def place (capacity p : Nat) : Iterator := ⟨p % capacity, p / capacity % 2 ^ 32⟩

section Places

variable {c p q : Nat}

theorem uint32_natCast (n : Nat) : uint32 n = n % 2 ^ 32 := by
  rw [uint32]
  omega

theorem uint32_lt (x : Int) : uint32 x < 2 ^ 32 := by
  rw [uint32]
  omega

theorem moduloAdd_of_lt {op1 op2 size : Nat} (fits : op1 + op2 < 2 ^ 32) :
    moduloAdd op1 op2 size = (op1 + op2) % size := by
  rw [moduloAdd, uint32]
  congr 1
  omega

theorem increase_mod (positive : 0 < c) (small : c < 2 ^ 32) :
    increase c (p % c) = (p + 1) % c := by
  have lt := Nat.mod_lt p positive
  rw [increase, moduloAdd_of_lt (by omega), Nat.mod_add_mod]

theorem place_next (positive : 0 < c) (small : c < 2 ^ 32) :
    (place c p).next c = place c (p + 1) := by
  rw [Iterator.next, place]
  dsimp only
  rw [increase_mod positive small]
  by_cases zero : (p + 1) % c = 0
  · rw [if_pos zero, place, Nat.succ_div_of_mod_eq_zero zero, uint32]
    congr 1
    omega
  · rw [if_neg zero, place, Nat.succ_div_of_mod_ne_zero zero]

theorem place_prev (positive : 0 < c) : (place c (p + 1)).prev c = place c p := by
  have lt := Nat.mod_lt p positive
  rw [Iterator.prev, place]
  dsimp only
  by_cases zero : (p + 1) % c = 0
  · have last : p % c = c - 1 := by
      have same : (p % c + 1) % c = 0 := by rwa [Nat.mod_add_mod]
      by_contra other
      rw [Nat.mod_eq_of_lt (by omega)] at same
      omega
    rw [if_pos zero, place, zero, last, Nat.succ_div_of_mod_eq_zero zero, uint32]
    congr 1
    omega
  · have next : (p + 1) % c = p % c + 1 := by
      rw [← Nat.mod_add_mod]
      apply Nat.mod_eq_of_lt
      by_contra other
      have last : p % c + 1 = c := by omega
      rw [← Nat.mod_add_mod, last, Nat.mod_self] at zero
      exact zero rfl
    rw [if_neg zero, place, Nat.succ_div_of_mod_ne_zero zero, decrease, next, if_pos (by omega)]
    rfl

theorem add_div_mod (positive : 0 < c) (t : Nat) :
    (p + t) / c = p / c + (t + p % c) / c ∧ (p + t) % c = (p % c + t) % c := by
  constructor
  · have split := Nat.div_add_mod p c
    calc (p + t) / c = (c * (p / c) + (t + p % c)) / c := by congr 1; omega
      _ = p / c + (t + p % c) / c := Nat.mul_add_div positive _ _
  · rw [Nat.mod_add_mod]

theorem place_add (positive : 0 < c) {t : Nat} (fits : p % c + t < 2 ^ 32) :
    (place c p).add c t = place c (p + t) := by
  obtain ⟨round, idx⟩ := add_div_mod (p := p) positive t
  have whole : uint32 t = t := by
    rw [uint32_natCast]
    omega
  have sum : uint64 (t + (p % c : Nat)) = t + p % c := by
    rw [uint64]
    omega
  rw [Iterator.add, place]
  dsimp only
  rw [whole, sum, moduloAdd_of_lt fits, place, idx, round]
  congr 1
  rw [uint32]
  omega

theorem place_turn (positive : 0 < c) : place c (p + 2 ^ 32 * c) = place c p := by
  apply Iterator.ext
  · exact Nat.add_mul_mod_self_right p (2 ^ 32) c
  · change (p + 2 ^ 32 * c) / c % 2 ^ 32 = p / c % 2 ^ 32
    rw [Nat.add_mul_div_right _ _ positive, Nat.add_mod_right]

theorem place_of_iterator {it : Iterator} (idx : it.idx < c) (round : it.round < 2 ^ 32) :
    place c (it.round * c + it.idx) = it := by
  have positive : 0 < c := by omega
  apply Iterator.ext
  · change (it.round * c + it.idx) % c = it.idx
    rw [Nat.mul_comm, Nat.mul_add_mod, Nat.mod_eq_of_lt idx]
  · change (it.round * c + it.idx) / c % 2 ^ 32 = it.round
    rw [Nat.mul_comm, Nat.mul_add_div positive, Nat.div_eq_of_lt idx, Nat.add_zero,
      Nat.mod_eq_of_lt round]

theorem Iterator.add_round_lt (it : Iterator) (t : Int) : (it.add c t).round < 2 ^ 32 := by
  change uint32 (it.round + uint64 (t + it.idx) / c) < 2 ^ 32
  exact uint32_lt _

theorem Iterator.add_zero {it : Iterator} (idx : it.idx < c) (small : c < 2 ^ 32)
    (round : it.round < 2 ^ 32) : it.add c (0 : Nat) = it := by
  have start := place_of_iterator idx round
  have index : (it.round * c + it.idx) % c = it.idx := congrArg Iterator.idx start
  have fits : (it.round * c + it.idx) % c + 0 < 2 ^ 32 := by omega
  have stay := place_add (by omega) fits
  rwa [Nat.add_zero, start] at stay

theorem place_ne (positive : 0 < c) (less : p < q) (near : q ≤ p + c) : place c p ≠ place c q := by
  intro same
  obtain ⟨idx, round⟩ := Iterator.mk.inj same
  have above : p / c ≤ q / c := Nat.div_le_div_right less.le
  have next : q / c ≤ p / c + 1 := by
    rw [← Nat.add_div_right p positive]
    exact Nat.div_le_div_right near
  have rounds : p / c = q / c := by omega
  have split := Nat.div_add_mod p c
  have split' := Nat.div_add_mod q c
  rw [idx, rounds] at split
  omega

theorem int32_congr {x y : Int} (same : x % 2 ^ 32 = y % 2 ^ 32) : int32 x = int32 y := by
  rw [int32, int32]
  omega

theorem int32_emod (x : Int) : int32 x % 2 ^ 32 = x % 2 ^ 32 := by
  rw [int32]
  omega

theorem int32_of_fits {x : Int} (low : -2 ^ 31 ≤ x) (high : x < 2 ^ 31) : int32 x = x := by
  rw [int32]
  omega

theorem sub_of_lt {op1 op2 : Nat} (first : op1 < c) (second : op2 < c) :
    sub op1 op2 c = int32 (op1 - op2) := by
  rw [sub]
  split
  · rw [Nat.mod_eq_of_lt (by omega)]
    congr 1
    omega
  · rw [Nat.mod_eq_of_lt (by omega)]
    congr 1
    omega

theorem Iterator.difference_self (it : Iterator) : it.difference c it = 0 := by
  rw [Iterator.difference, if_neg (not_not.mpr rfl), sub, if_neg (Nat.lt_irrefl _), Nat.sub_self,
    Nat.zero_mod]
  rfl

theorem difference_place (positive : 0 < c) :
    (place c q).difference c (place c p) = int32 (q - p) := by
  have line : ((q : Int) - p) = ((q % c : Nat) - (p % c : Nat) : Int) +
      ((q / c : Nat) - (p / c : Nat) : Int) * c := by
    have split : ((p % c : Nat) : Int) + c * (p / c : Nat) = p := by exact_mod_cast Nat.mod_add_div p c
    have split' : ((q % c : Nat) : Int) + c * (q / c : Nat) = q := by exact_mod_cast Nat.mod_add_div q c
    rw [← split, ← split']
    ring
  rw [Iterator.difference, place, place]
  rw [sub_of_lt (Nat.mod_lt q positive) (Nat.mod_lt p positive), line]
  generalize ((q % c : Nat) - (p % c : Nat) : Int) = x
  generalize q / c = a
  generalize p / c = b
  by_cases rounds : a % 2 ^ 32 = b % 2 ^ 32
  · rw [if_neg (not_not.mpr rounds)]
    obtain ⟨k, turns⟩ : (2 ^ 32 : Int) ∣ a - b := by omega
    apply int32_congr
    rw [turns, Int.mul_assoc, Int.add_mul_emod_self_left]
  · rw [if_pos rounds]
    have turns : (uint32 ((a % 2 ^ 32 : Nat) - (b % 2 ^ 32 : Nat)) : Int) ≡ a - b [ZMOD 2 ^ 32] := by
      rw [uint32, Int.ModEq]
      omega
    exact int32_congr (Int.ModEq.add (int32_emod x) (turns.mul_right c))

end Places

end Gem5.Base.CircularQueue

namespace Gem5.Base.CircularQueue

/-- Two iterators and a number that the laws are about. -/
structure Operands (c : Nat) (it : Iterator) (t : Nat) (a b : Iterator) : Prop where
  idx : it.idx < c
  round : it.round < 2 ^ 32
  count : t ≤ c
  first : a.idx < c ∧ a.round < 2 ^ 32
  second : b.idx < c ∧ b.round < 2 ^ 32

/-- The place of an iterator whose round did not wrap. -/
def position (c : Nat) (it : Iterator) : Nat := it.round * c + it.idx

/-- The laws of a random access iterator. -/
structure Laws (c : Nat) (it : Iterator) (t : Nat) (a b : Iterator) : Prop where
  minus : it.minus c t = (Iterator.prev c)^[t] it
  back : (it.minus c t).add c t = it
  difference : (it.add c t).difference c it = t
  order : a.Lt b ↔ 0 < b.difference c a

/-- The retreat stays in its round, or the quotient takes one off the round. -/
structure Sound (c : Nat) (it : Iterator) (t : Nat) (a b : Iterator) : Prop where
  count : t < 2 ^ 31
  sum : it.idx + t < 2 ^ 32
  within : t ≤ it.idx → it.idx - t < 2 ^ 31
  quotient : it.idx < t → (2 ^ 64 - (t - it.idx)) / c % 2 ^ 32 = 2 ^ 32 - 1
  turn : it.idx < t → it.idx + c < 2 ^ 32
  low : -2 ^ 31 ≤ (position c b : Int) - position c a
  high : (position c b : Int) - position c a < 2 ^ 31

section Laws

variable {c t r i : Nat} {it a b : Iterator}

theorem place_split (inside : i < c) : place c (r * c + i) = ⟨i, r % 2 ^ 32⟩ := by
  have positive : 0 < c := by omega
  apply Iterator.ext
  · change (r * c + i) % c = i
    rw [Nat.mul_comm, Nat.mul_add_mod, Nat.mod_eq_of_lt inside]
  · change (r * c + i) / c % 2 ^ 32 = r % 2 ^ 32
    rw [Nat.mul_comm, Nat.mul_add_div positive, Nat.div_eq_of_lt inside, Nat.add_zero]

theorem prev_iterate (positive : 0 < c) (p : Nat) :
    (Iterator.prev c)^[t] (place c (p + t)) = place c p := by
  induction t with
  | zero => rfl
  | succ t ih =>
    rw [Function.iterate_succ_apply, ← Nat.add_assoc, place_prev positive]
    exact ih

/-- The iterator that `t` steps back lead to. -/
def retreat (c : Nat) (it : Iterator) (t : Nat) : Iterator :=
  if t ≤ it.idx then ⟨it.idx - t, it.round⟩ else ⟨c - (t - it.idx), uint32 (it.round - 1)⟩

theorem retreat_place (idx : it.idx < c) (round : it.round < 2 ^ 32) (count : t ≤ c) :
    place c (position c it + 2 ^ 32 * c - t) = retreat c it t := by
  have turned : (it.round + 2 ^ 32) * c = it.round * c + 2 ^ 32 * c := Nat.add_mul _ _ _
  rw [retreat, position]
  split
  · have same : it.round * c + it.idx + 2 ^ 32 * c - t = (it.round + 2 ^ 32) * c + (it.idx - t) := by
      omega
    rw [same, place_split (by omega), Nat.add_mod_right, Nat.mod_eq_of_lt round]
  · have less : (it.round + 2 ^ 32) * c = (it.round + (2 ^ 32 - 1)) * c + c :=
      Nat.succ_mul (it.round + (2 ^ 32 - 1)) c
    have same : it.round * c + it.idx + 2 ^ 32 * c - t
        = (it.round + (2 ^ 32 - 1)) * c + (c - (t - it.idx)) := by
      omega
    have before : uint32 ((it.round : Int) - 1) = (it.round + (2 ^ 32 - 1)) % 2 ^ 32 := by
      rw [uint32]
      omega
    rw [same, place_split (by omega), before]

theorem prev_iterate_eq (idx : it.idx < c) (round : it.round < 2 ^ 32) (count : t ≤ c) :
    (Iterator.prev c)^[t] it = retreat c it t := by
  have positive : 0 < c := by omega
  have large : t ≤ position c it + 2 ^ 32 * c := by omega
  have start : it = place c (position c it + 2 ^ 32 * c - t + t) := by
    rw [Nat.sub_add_cancel large, place_turn positive]
    exact (place_of_iterator idx round).symm
  rw [← retreat_place idx round count]
  conv_lhs => rw [start]
  exact prev_iterate positive _

theorem moduloSub_of_sub {ret : Int} {op1 op2 size : Nat} (eq : sub op1 op2 size = ret) :
    moduloSub op1 op2 size = if 0 ≤ ret then uint32 ret else uint32 (ret + size) := by
  rw [moduloSub, eq]

theorem moduloSub_le (idx : i < c) (small : c < 2 ^ 32) (le : t ≤ i) :
    moduloSub i t c = i - t ↔ i - t < 2 ^ 31 := by
  rw [moduloSub_of_sub (sub_of_lt idx (by omega)), int32]
  split
  · rw [uint32]
    omega
  · rw [uint32]
    omega

theorem moduloSub_lt (small : c < 2 ^ 32) (count : t ≤ c) (less : i < t) :
    moduloSub i t c = c - (t - i) ↔ t - i ≤ 2 ^ 31 ∨ t - i = c := by
  have minus : sub i t c = int32 (-((t - i) % c : Nat)) := if_neg (by omega)
  rcases Nat.eq_or_lt_of_le (show t - i ≤ c by omega) with whole | part
  · rw [whole, Nat.mod_self] at minus
    rw [moduloSub_of_sub minus, whole, Nat.sub_self]
    exact iff_of_true rfl (.inr rfl)
  · rw [Nat.mod_eq_of_lt part] at minus
    rw [moduloSub_of_sub minus, int32]
    split
    · rw [uint32]
      omega
    · rw [uint32]
      omega

theorem minus_iff (small : c < 2 ^ 32) (idx : it.idx < c) (round : it.round < 2 ^ 32)
    (count : t ≤ c) : it.minus c t = retreat c it t ↔
      (t ≤ it.idx → it.idx - t < 2 ^ 31) ∧ (it.idx < t → (t - it.idx ≤ 2 ^ 31 ∨ t - it.idx = c) ∧
        (2 ^ 64 - (t - it.idx)) / c % 2 ^ 32 = 2 ^ 32 - 1) := by
  have whole : uint32 t = t := by
    rw [uint32_natCast]
    omega
  rw [Iterator.minus, if_pos (Int.natCast_nonneg t), retreat, whole]
  split
  · rename_i le
    have sum : uint64 (-(t : Int) + it.idx) = it.idx - t := by
      rw [uint64]
      omega
    have kept : uint32 (it.round + ((0 : Nat) : Int)) = it.round := by
      rw [uint32]
      omega
    rw [sum, ← Int.natCast_ediv, Nat.div_eq_of_lt (by omega), kept, Iterator.mk.injEq,
      moduloSub_le idx small le]
    omega
  · grind [uint64, uint32, moduloSub_lt]

theorem retreat_add_iff (small : c < 2 ^ 32) (idx : it.idx < c) (round : it.round < 2 ^ 32)
    (count : t ≤ c) : (retreat c it t).add c t = it ↔ (it.idx < t → it.idx + c < 2 ^ 32) := by
  have positive : 0 < c := by omega
  have large : t ≤ position c it + 2 ^ 32 * c := by omega
  have index : (position c it + 2 ^ 32 * c - t) % c = (retreat c it t).idx :=
    congrArg Iterator.idx (retreat_place idx round count)
  have good : (retreat c it t).idx + t < 2 ^ 32 → (retreat c it t).add c t = it := by
    intro fits
    rw [← index] at fits
    rw [← retreat_place idx round count, place_add positive fits, Nat.sub_add_cancel large,
      place_turn positive]
    exact place_of_iterator idx round
  constructor
  · intro back less
    have moved := congrArg Iterator.idx back
    rw [Iterator.add, retreat, if_neg (by omega)] at moved
    dsimp only at moved
    rw [moduloAdd, uint32_natCast, uint32] at moved
    by_contra far
    rw [Nat.mod_eq_of_lt (by omega)] at moved
    omega
  · grind [retreat]

theorem difference_of_places {p q : Nat} (positive : 0 < c) (second : b = place c q)
    (first : a = place c p) : b.difference c a = int32 (q - p) := by
  rw [second, first]
  exact difference_place positive

theorem int32_lt (x : Int) : int32 x < 2 ^ 31 := by
  rw [int32]
  omega

theorem add_difference_iff (small : c < 2 ^ 32) (idx : it.idx < c) (round : it.round < 2 ^ 32)
    (count : t ≤ c) : (it.add c t).difference c it = t ↔ it.idx + t < 2 ^ 32 ∧ t < 2 ^ 31 := by
  have positive : 0 < c := by omega
  have start := place_of_iterator idx round
  have index : (it.round * c + it.idx) % c = it.idx := congrArg Iterator.idx start
  by_cases fits : it.idx + t < 2 ^ 32
  · have moved : it.add c t = place c (it.round * c + it.idx + t) := by
      rw [← place_add positive (by rw [index]; exact fits), start]
    rw [difference_of_places positive moved start.symm, Nat.cast_add, add_sub_cancel_left]
    constructor
    · intro exact_
      have := int32_lt t
      exact ⟨fits, by omega⟩
    · grind [int32_of_fits]
  · -- The sum of the indices is short of 2^32, and no other one would do.
    have whole : uint32 t = t := by
      rw [uint32_natCast]
      omega
    have once : (t + it.idx) / c = 1 := by
      apply Nat.div_eq_of_lt_le <;> omega
    have sum : uint64 ((t : Int) + it.idx) = t + it.idx := by
      rw [uint64]
      omega
    have moved : it.add c t = place c ((it.round + 1) * c + (it.idx + t - 2 ^ 32)) := by
      have idx' : moduloAdd it.idx t c = it.idx + t - 2 ^ 32 := by
        have cut : uint32 (it.idx + t) = it.idx + t - 2 ^ 32 := by
          rw [uint32]
          omega
        rw [moduloAdd, cut, Nat.mod_eq_of_lt (by omega)]
      have round' : uint32 ((it.round : Int) + (1 : Nat)) = (it.round + 1) % 2 ^ 32 :=
        uint32_natCast (it.round + 1)
      rw [place_split (by omega), Iterator.add, whole, sum, ← Int.natCast_ediv, once, idx', round']
    have next : (it.round + 1) * c = it.round * c + c := Nat.succ_mul it.round c
    rw [difference_of_places positive moved start.symm, int32]
    omega

theorem lt_iff_position (first : a.idx < c) (second : b.idx < c) :
    a.Lt b ↔ position c a < position c b := by
  rw [Iterator.Lt, position, position]
  constructor
  · rintro (less | ⟨same, less⟩)
    · have := Nat.mul_le_mul_right c less
      rw [Nat.succ_mul] at this
      omega
    · rw [same]
      omega
  · intro less
    rcases Nat.lt_trichotomy a.round b.round with below | same | above
    · exact .inl below
    · grind
    · have := Nat.mul_le_mul_right c above
      rw [Nat.succ_mul] at this
      omega

theorem order_iff (small : c < 2 ^ 32) (first : a.idx < c ∧ a.round < 2 ^ 32)
    (second : b.idx < c ∧ b.round < 2 ^ 32) (low : -(c : Int) ≤ position c b - position c a)
    (high : (position c b : Int) - position c a ≤ c) : (a.Lt b ↔ 0 < b.difference c a) ↔
      -2 ^ 31 ≤ (position c b : Int) - position c a ∧
        (position c b : Int) - position c a < 2 ^ 31 := by
  have positive : 0 < c := by omega
  have distance : b.difference c a = int32 (position c b - position c a) :=
    difference_of_places positive (place_of_iterator second.1 second.2).symm
      (place_of_iterator first.1 first.2).symm
  rw [distance, lt_iff_position first.1 second.1, int32]
  omega

theorem laws_iff_sound (small : c < 2 ^ 32) (valid : Operands c it t a b)
    (low : -(c : Int) ≤ position c b - position c a)
    (high : (position c b : Int) - position c a ≤ c) : Laws c it t a b ↔ Sound c it t a b := by
  have retreat_eq := prev_iterate_eq valid.idx valid.round valid.count
  have minus := minus_iff small valid.idx valid.round valid.count
  have back := retreat_add_iff small valid.idx valid.round valid.count
  have difference := add_difference_iff small valid.idx valid.round valid.count
  have order := order_iff small valid.first valid.second low high
  constructor
  · intro laws
    have same : it.minus c t = retreat c it t := laws.minus.trans retreat_eq
    have there := laws.back
    rw [same] at there
    obtain ⟨within, quotient⟩ := minus.mp same
    obtain ⟨sum, count⟩ := difference.mp laws.difference
    obtain ⟨bottom, top⟩ := order.mp laws.order
    exact ⟨count, sum, within, fun less => (quotient less).2, back.mp there, bottom, top⟩
  · intro sound
    have same : it.minus c t = retreat c it t :=
      minus.mpr ⟨sound.within, fun less => ⟨.inl (by have := sound.count; omega), sound.quotient less⟩⟩
    refine ⟨same.trans retreat_eq.symm, ?_, difference.mpr ⟨sound.sum, sound.count⟩,
      order.mpr ⟨sound.low, sound.high⟩⟩
    rw [same]
    exact back.mpr sound.turn

theorem dvd_of_quotient (positive : 0 < c) (small : c < 2 ^ 32)
    (quotient : (2 ^ 64 - 1) / c % 2 ^ 32 = 2 ^ 32 - 1) : c ∣ 2 ^ 32 := by
  have split := Nat.div_add_mod (2 ^ 64 - 1) c
  have rest := Nat.mod_lt (2 ^ 64 - 1) positive
  generalize (2 ^ 64 - 1) / c = q at quotient split
  obtain ⟨m, rfl⟩ : ∃ m, q = 2 ^ 32 * m + (2 ^ 32 - 1) := ⟨q / 2 ^ 32, by omega⟩
  have whole : c * (m + 1) = 2 ^ 32 := by grind
  exact ⟨m + 1, whole.symm⟩

theorem quotient_of_pow {k d : Nat} (small : k ≤ 32) (low : 0 < d) (high : d ≤ 2 ^ k) :
    (2 ^ 64 - d) / 2 ^ k % 2 ^ 32 = 2 ^ 32 - 1 := by
  have split : 2 ^ 64 = 2 ^ (32 - k) * 2 ^ 32 * 2 ^ k := by
    rw [← Nat.pow_add, ← Nat.pow_add]
    congr 1
    omega
  have parts : 0 < 2 ^ (32 - k) := Nat.two_pow_pos _
  have whole : (2 ^ 64 - d) / 2 ^ k = 2 ^ (32 - k) * 2 ^ 32 - 1 := by
    apply Nat.div_eq_of_lt_le
    · rw [Nat.sub_one_mul, ← split]
      omega
    · grind
  omega

theorem sound_of_pow {k : Nat} (small : k ≤ 30) (valid : Operands (2 ^ k) it t a b)
    (low : -((2 ^ k : Nat) : Int) ≤ position (2 ^ k) b - position (2 ^ k) a)
    (high : (position (2 ^ k) b : Int) - position (2 ^ k) a ≤ (2 ^ k : Nat)) :
    Sound (2 ^ k) it t a b := by
  have bound : 2 ^ k ≤ 2 ^ 30 := Nat.pow_le_pow_right (by decide) small
  have idx := valid.idx
  have count := valid.count
  refine ⟨by omega, by omega, by omega, fun less => ?_, by omega, by omega, by omega⟩
  exact quotient_of_pow (by omega) (by omega) (by omega)

theorem pow_of_sound (large : 2 ≤ c) (small : c < 2 ^ 32) (sound : ∀ it t a b, Operands c it t a b →
    -(c : Int) ≤ position c b - position c a → (position c b : Int) - position c a ≤ c → Sound c it
    t a b) : ∃ k, 1 ≤ k ∧ k ≤ 30 ∧ c = 2 ^ k := by
  have start : ∀ t, t ≤ c → Sound c ⟨0, 0⟩ t ⟨0, 0⟩ ⟨0, 0⟩ := fun t le =>
    sound ⟨0, 0⟩ t ⟨0, 0⟩ ⟨0, 0⟩ ⟨by dsimp only; omega, by decide, le, ⟨by dsimp only; omega, by decide⟩,
      ⟨by dsimp only; omega, by decide⟩⟩ (by omega) (by omega)
  have divides := dvd_of_quotient (by omega) small ((start 1 (by omega)).quotient Nat.one_pos)
  obtain ⟨k, -, rfl⟩ := (Nat.dvd_prime_pow Nat.prime_two).mp divides
  have count := (start (2 ^ k) (Nat.le_refl _)).count
  refine ⟨k, ?_, ?_, rfl⟩
  · grind
  · exact Nat.le_of_lt_succ ((Nat.pow_lt_pow_iff_right (by decide)).mp count)

end Laws

/-- The laws hold of an iterator, a count and a pair of iterators exactly if these are sound, and
they hold of all exactly if the capacity is a power of two up to 2^30. -/
theorem laws_iff (c : Nat) (large : 2 ≤ c) (small : c < 2 ^ 32) :
    (∀ it t a b, Operands c it t a b → -(c : Int) ≤ position c b - position c a →
      (position c b : Int) - position c a ≤ c → (Laws c it t a b ↔ Sound c it t a b)) ∧
    ((∀ it t a b, Operands c it t a b → -(c : Int) ≤ position c b - position c a →
      (position c b : Int) - position c a ≤ c → Laws c it t a b) ↔
        ∃ k, 1 ≤ k ∧ k ≤ 30 ∧ c = 2 ^ k) := by
  refine ⟨fun it t a b valid low high => laws_iff_sound small valid low high, ?_⟩
  constructor
  · intro laws
    exact pow_of_sound large small fun it t a b valid low high =>
      (laws_iff_sound small valid low high).mp (laws it t a b valid low high)
  · rintro ⟨k, -, le, rfl⟩ it t a b valid low high
    exact (laws_iff_sound small valid low high).mpr (sound_of_pow le valid low high)

theorem laws_iff_three :
    (∀ it t a b, Operands 3 it t a b → -((3 : Nat) : Int) ≤ position 3 b - position 3 a →
      (position 3 b : Int) - position 3 a ≤ (3 : Nat) → (Laws 3 it t a b ↔ Sound 3 it t a b)) ∧
    ((∀ it t a b, Operands 3 it t a b → -((3 : Nat) : Int) ≤ position 3 b - position 3 a →
      (position 3 b : Int) - position 3 a ≤ (3 : Nat) → Laws 3 it t a b) ↔
        ∃ k, 1 ≤ k ∧ k ≤ 30 ∧ 3 = 2 ^ k) :=
  laws_iff 3 (by decide) (by decide)

/-- With capacity 3 a step back from index 0 of round 1 goes to a round far ahead. -/
theorem minus_three : (⟨0, 1⟩ : Iterator).minus 3 (1 : Nat) = ⟨2, 1431655766⟩ ∧
    ¬Laws 3 ⟨0, 1⟩ 1 ⟨0, 1⟩ ⟨0, 1⟩ := by
  have moved : (⟨0, 1⟩ : Iterator).minus 3 (1 : Nat) = ⟨2, 1431655766⟩ := by decide
  refine ⟨moved, fun laws => ?_⟩
  have steps := laws.minus
  rw [moved] at steps
  exact absurd steps (by decide)

end Gem5.Base.CircularQueue
