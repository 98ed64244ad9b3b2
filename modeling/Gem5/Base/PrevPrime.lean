import Gem5.Lib.Loops
import Mathlib.Data.Nat.Prime.Basic
import Mathlib.Order.Bounds.Basic
import Mathlib.Tactic.Linarith

/-!
# The greatest prime not above a number

`isPrime` divides by 5, 7, 11, 13 and so on, and never by 3: of a multiple of 3 it may say that it
is prime. `prevPrime` steps down by 2 and 4 in turn so as to leave these out.
-/

namespace Gem5.Base

open Loops

/-- `i * i` is an `int`; `none` stands for its overflow. -/
def isPrimeRound (n : Int) (i : Int) : Int ⊕ Option Bool :=
  if 2 ^ 31 ≤ i * i then .inr none
  else if i * i ≤ n then
    if n.tmod i = 0 ∨ n.tmod (i + 2) = 0 then .inr (some false) else .inl (i + 6)
  else .inr (some true)

/-- The index exceeds `n` before the rounds run out. -/
def isPrime (n : Int) : Option Bool :=
  if n = 2 ∨ n = 3 then some true else (loop (isPrimeRound n) (n.toNat + 1) 5).join

/-- The number and the step that `prevPrime` starts with. -/
def prevPrimeStart (n : Int) : Int × Int :=
  let n := if n.tmod 2 = 0 then n - 1 else n
  let decr := n.tmod 3
  if decr = 0 then (n - 2, 2) else if decr = 1 then (n, 4) else (n, decr)

def prevPrimeRound (s : Int × Int) : (Int × Int) ⊕ Option Int :=
  match isPrime s.1 with
  | none => .inr none
  | some true => .inr (some s.1)
  | some false => .inl (s.1 - s.2, 6 - s.2)

/-- `prevPrime` returns `p`. -/
def PrevPrime (n p : Int) : Prop := Returns prevPrimeRound (prevPrimeStart n) (some p)

/-- Some divisor that `isPrime` tries from `i` on divides `n`. -/
def Divided (n i : Nat) : Prop :=
  ∃ j, i ≤ j ∧ j % 6 = 5 ∧ j * j ≤ n ∧ (j ∣ n ∨ j + 2 ∣ n)

/-- `46337` is the last index whose square is an `int`. -/
def noOverflow : Nat := 46337 ^ 2

section Test

variable {n i : Nat}

theorem isPrimeRound_natCast (n i : Nat) : isPrimeRound n i =
    if 2 ^ 31 ≤ i * i then .inr none
    else if i * i ≤ n then
      if i ∣ n ∨ i + 2 ∣ n then .inr (some false) else .inl ((i + 6 : Nat) : Int)
    else .inr (some true) := by
  have first : (n : Int).tmod i = 0 ↔ i ∣ n := by
    rw [← Int.dvd_iff_tmod_eq_zero, Int.natCast_dvd_natCast]
  have second : (n : Int).tmod (i + 2) = 0 ↔ i + 2 ∣ n := by
    rw [← Int.dvd_iff_tmod_eq_zero, ← Int.natCast_dvd_natCast]
    rfl
  have square : (i : Int) * i = ((i * i : Nat) : Int) := rfl
  rw [isPrimeRound, square]
  simp only [first, second]
  congr 1
  · exact propext (by omega)
  · congr 1
    exact propext (by omega)

theorem loop_divided {fuel : Nat} (small : n < 2 ^ 31) (kind : i % 6 = 5)
    (enough : n < i + 6 * fuel) (divided : Divided n i) :
    loop (isPrimeRound n) fuel i = some (some false) := by
  obtain ⟨j, le, residue, square, divides⟩ := divided
  induction fuel generalizing i with
  | zero =>
    have : j ≤ j * j := Nat.le_mul_self j
    omega
  | succ fuel ih =>
    have below : i * i ≤ j * j := Nat.mul_le_mul le le
    rw [loop, isPrimeRound_natCast, if_neg (by omega), if_pos (by omega)]
    by_cases found : i ∣ n ∨ i + 2 ∣ n
    · rw [if_pos found]
    · rw [if_neg found]
      have other : i ≠ j := by grind
      exact ih (by omega) (by omega) (by omega)

theorem loop_not_divided {fuel : Nat} (kind : i % 6 = 5) (enough : n < i + 6 * fuel)
    (positive : 0 < fuel) (free : ¬Divided n i) (low : i ≤ 46337 ∨ i = 46343 ∧ noOverflow ≤ n) :
    loop (isPrimeRound n) fuel i = some (if n < noOverflow then some true else none) := by
  induction fuel generalizing i with
  | zero => omega
  | succ fuel ih =>
    rw [loop, isPrimeRound_natCast]
    rcases low with low | ⟨rfl, large⟩
    · have square : i * i ≤ noOverflow := Nat.mul_le_mul low low
      have fits : noOverflow < 2 ^ 31 := by decide
      rw [if_neg (by omega)]
      by_cases more : i * i ≤ n
      · have missed : ¬(i ∣ n ∨ i + 2 ∣ n) := fun divides =>
          free ⟨i, Nat.le_refl i, kind, more, divides⟩
        rw [if_pos more, if_neg missed]
        have five : 5 * i ≤ i * i := Nat.mul_le_mul (by omega) (Nat.le_refl i)
        refine ih (by omega) (by omega) (by omega) ?_ ?_
        · rintro ⟨j, le, found⟩
          exact free ⟨j, by omega, found⟩
        · rcases Nat.eq_or_lt_of_le low with rfl | less
          · exact .inr ⟨rfl, more⟩
          · exact .inl (by omega)
      · rw [if_neg more, if_pos (by omega)]
    · rw [if_pos (by decide), if_neg (by omega)]

/-- The test rejects what one of its divisors divides, and accepts the rest as far as the squares
are numbers of the type. -/
theorem isPrime_natCast (small : n < 2 ^ 31) (large : 5 ≤ n) : isPrime n =
    open Classical in
    if Divided n 5 then some false else if n < noOverflow then some true else none := by
  rw [isPrime, if_neg (by omega)]
  by_cases divided : Divided n 5
  · rw [if_pos divided]
    exact congrArg Option.join (loop_divided small rfl (by omega) divided)
  · rw [if_neg divided]
    exact congrArg Option.join (loop_not_divided rfl (by omega) (by omega) divided (.inl (by decide)))

theorem not_prime_of_divided (divided : Divided n 5) : ¬n.Prime := by
  obtain ⟨j, le, -, square, divides⟩ := divided
  have five : 5 * j ≤ j * j := Nat.mul_le_mul le (Nat.le_refl j)
  rcases divides with divides | divides
  · exact Nat.not_prime_of_dvd_of_lt divides (by omega) (by omega)
  · exact Nat.not_prime_of_dvd_of_lt divides (by omega) (by omega)

theorem prime_of_not_divided (large : 5 ≤ n) (odd : n % 2 = 1) (three : n % 3 ≠ 0)
    (free : ¬Divided n 5) : n.Prime := by
  by_contra composite
  have prime : n.minFac.Prime := Nat.minFac_prime (by omega)
  have divides : n.minFac ∣ n := Nat.minFac_dvd n
  have square : n.minFac * n.minFac ≤ n := by grind [Nat.minFac_sq_le_self, Nat.pow_two]
  generalize n.minFac = d at prime divides square
  have not2 : ¬2 ∣ d := fun even => by
    have := Nat.dvd_trans even divides
    omega
  have not3 : ¬3 ∣ d := fun triple => by
    have := Nat.dvd_trans triple divides
    omega
  have two_le := prime.two_le
  rcases show d % 6 = 5 ∨ d % 6 = 1 by omega with residue | residue
  · exact free ⟨d, by omega, residue, square, .inl divides⟩
  · have less : (d - 2) * (d - 2) ≤ d * d := Nat.mul_le_mul (by omega) (by omega)
    refine free ⟨d - 2, by omega, by omega, by omega, .inr ?_⟩
    rwa [Nat.sub_add_cancel two_le]

theorem isPrime_composite (small : n < 2 ^ 31) (large : 5 ≤ n) (odd : n % 2 = 1)
    (three : n % 3 ≠ 0) (composite : ¬n.Prime) : isPrime n = some false := by
  rw [isPrime_natCast small large, if_pos]
  by_contra free
  exact composite (prime_of_not_divided large odd three free)

theorem isPrime_prime (small : n < 2 ^ 31) (large : 5 ≤ n) (prime : n.Prime) :
    isPrime n = if n < noOverflow then some true else none := by
  rw [isPrime_natCast small large, if_neg fun divided => not_prime_of_divided divided prime]

theorem Divided.large (divided : Divided n 5) : 25 ≤ n := by
  obtain ⟨j, le, -, square, -⟩ := divided
  exact (Nat.mul_le_mul le le).trans square

end Test

section Descent

variable {n k d p r : Nat}

/-- The primes not above `n`. -/
def primesTo (n : Nat) : Set Nat := {q | q.Prime ∧ q ≤ n}

/-- The first odd number that is looked at. -/
def lastOdd (n : Nat) : Nat := if n % 2 = 0 then n - 1 else n

theorem five_le_greatest (lo : 5 ≤ n) (greatest : IsGreatest (primesTo n) p) : 5 ≤ p :=
  greatest.2 ⟨by decide, lo⟩

theorem prime_residue (prime : p.Prime) (large : 5 ≤ p) : p % 6 = 1 ∨ p % 6 = 5 := by
  have not2 : ¬2 ∣ p := fun even => by
    have := (Nat.prime_dvd_prime_iff_eq Nat.prime_two prime).mp even
    omega
  have not3 : ¬3 ∣ p := fun triple => by
    have := (Nat.prime_dvd_prime_iff_eq Nat.prime_three prime).mp triple
    omega
  omega

theorem prevPrimeRound_rejected (less : d ≤ k) (step : d ≤ 6) (rejected : isPrime k = some false) :
    prevPrimeRound (k, d) = .inl (((k - d : Nat) : Int), ((6 - d : Nat) : Int)) := by
  rw [prevPrimeRound, rejected]
  rw [Int.ofNat_sub less, Int.ofNat_sub step]
  rfl

theorem returns_prime (prime : p.Prime) (large : 5 ≤ p) (small : p < 2 ^ 31) {s : Int}
    {result : Option Int} : Returns prevPrimeRound (p, s) result ↔
      result = if p < noOverflow then some (p : Int) else none := by
  by_cases fits : p < noOverflow
  · rw [if_pos fits]
    apply returns_exit_iff
    rw [prevPrimeRound, isPrime_prime small large prime, if_pos fits]
  · rw [if_neg fits]
    apply returns_exit_iff
    rw [prevPrimeRound, isPrime_prime small large prime, if_neg fits]

theorem returns_aligned (small : k < 2 ^ 31) (prime : p.Prime) (large : 5 ≤ p) (le : p ≤ k)
    (none_between : ∀ q, p < q → q ≤ k → ¬q.Prime)
    (aligned : k % 6 = 1 ∧ d = 2 ∨ k % 6 = 5 ∧ d = 4) {result : Option Int} :
    Returns prevPrimeRound (k, d) result ↔
      result = if p < noOverflow then some (p : Int) else none := by
  induction k using Nat.strongRecOn generalizing d with
  | ind k ih =>
    rcases Nat.eq_or_lt_of_le le with rfl | less
    · exact returns_prime prime large small
    · have residue := prime_residue prime large
      have rejected : isPrime k = some false :=
        isPrime_composite small (by omega) (by omega) (by omega) (none_between k less (Nat.le_refl k))
      rw [returns_continue_iff (prevPrimeRound_rejected (by omega) (by omega) rejected)]
      exact ih (k - d) (by omega) (by omega) (by omega)
        (fun q above below => none_between q above (by omega)) (by omega)

/-- The place of a descent that meets the multiples of 3: `r` is the residue modulo 6 of the other
numbers it meets. -/
def Skewed (r k d : Nat) : Prop :=
  r = 1 ∧ (k % 6 = 1 ∧ d = 4 ∨ k % 6 = 3 ∧ d = 2) ∨ r = 5 ∧ (k % 6 = 5 ∧ d = 2 ∨ k % 6 = 3 ∧ d = 4)

theorem skewed_start (odd : k % 2 = 1) (triple : k % 3 ≠ 0) : ∃ d : Nat,
    (if k % 3 = 1 then ((k : Int), (4 : Int)) else ((k : Int), 2)) = ((k : Int), (d : Int)) ∧
      Skewed (k % 6) k d := by
  by_cases one : k % 3 = 1
  · refine ⟨4, if_pos one, .inl ⟨by omega, .inl ⟨by omega, rfl⟩⟩⟩
  · refine ⟨2, if_neg one, .inr ⟨by omega, .inl ⟨by omega, rfl⟩⟩⟩

theorem Skewed.step_le (skewed : Skewed r k d) : d ≤ 4 := by
  rw [Skewed] at skewed
  omega

theorem Skewed.next (skewed : Skewed r k d) (far : d ≤ k) : Skewed r (k - d) (6 - d) := by
  rcases skewed with ⟨rfl, ⟨residue, rfl⟩ | ⟨residue, rfl⟩⟩ | ⟨rfl, ⟨residue, rfl⟩ | ⟨residue, rfl⟩⟩
  · exact .inl ⟨rfl, .inr ⟨by omega, rfl⟩⟩
  · exact .inl ⟨rfl, .inl ⟨by omega, rfl⟩⟩
  · exact .inr ⟨rfl, .inr ⟨by omega, rfl⟩⟩
  · exact .inr ⟨rfl, .inl ⟨by omega, rfl⟩⟩

theorem returns_skewed (small : k < 2 ^ 31) (prime : p.Prime) (large : 5 ≤ p) (le : p ≤ k)
    (none_between : ∀ q, p < q → q ≤ k → ¬q.Prime) (skewed : Skewed r k d) (met : p % 6 = r)
    (fits : p < noOverflow) (triples : ∀ j, p < j → j ≤ k → j % 6 = 3 → Divided j 5) :
    Returns prevPrimeRound (k, d) (some (p : Int)) := by
  induction k using Nat.strongRecOn generalizing d with
  | ind k ih =>
    rcases Nat.eq_or_lt_of_le le with rfl | less
    · rw [returns_prime prime large small, if_pos fits]
    · have rejected : isPrime k = some false := by
        by_cases triple : k % 6 = 3
        · rw [isPrime_natCast small (by omega), if_pos (triples k less (Nat.le_refl k) triple)]
        · rw [Skewed] at skewed
          exact isPrime_composite small (by omega) (by omega) (by omega)
            (none_between k less (Nat.le_refl k))
      have next := skewed.next (Nat.le_trans skewed.step_le (by omega))
      rw [Skewed] at skewed
      rw [returns_continue_iff (prevPrimeRound_rejected (by omega) (by omega) rejected)]
      exact ih (k - d) (by omega) (by omega) (by omega)
        (fun q above below => none_between q above (by omega)) next
        (fun j above below => triples j above (by omega))

theorem of_returns_skewed (small : k < 2 ^ 31) (low : 5 ≤ k) (prime : p.Prime) (large : 5 ≤ p)
    (skewed : Skewed r k d) (ends : Returns prevPrimeRound (k, d) (some (p : Int))) :
    p % 6 = r ∧ p < noOverflow ∧ ∀ j, p < j → j ≤ k → j % 6 = 3 → Divided j 5 := by
  induction k using Nat.strongRecOn generalizing d with
  | ind k ih =>
    by_cases divided : Divided k 5
    · have far := divided.large
      have rejected : isPrime k = some false := by
        rw [isPrime_natCast small low, if_pos divided]
      have next := skewed.next (Nat.le_trans skewed.step_le (by omega))
      rw [Skewed] at skewed
      rw [returns_continue_iff (prevPrimeRound_rejected (by omega) (by omega) rejected)] at ends
      obtain ⟨met, fits, triples⟩ := ih (k - d) (by omega) (by omega) (by omega) next ends
      refine ⟨met, fits, fun j above below triple => ?_⟩
      rcases Nat.eq_or_lt_of_le below with rfl | less
      · exact divided
      · exact triples j above (by omega) triple
    · have verdict := isPrime_natCast small low
      rw [if_neg divided] at verdict
      by_cases fits : k < noOverflow
      · rw [if_pos fits] at verdict
        have exit : prevPrimeRound (k, d) = .inr (some (k : Int)) := by
          rw [prevPrimeRound, verdict]
        have same := Option.some.inj ((returns_exit_iff exit).mp ends)
        obtain rfl : p = k := by omega
        have residue := prime_residue prime large
        rw [Skewed] at skewed
        exact ⟨by omega, fits, fun j above below => by omega⟩
      · rw [if_neg fits] at verdict
        have exit : prevPrimeRound (k, d) = .inr none := by
          rw [prevPrimeRound, verdict]
        cases (returns_exit_iff exit).mp ends

theorem prevPrimeStart_natCast (lo : 5 ≤ n) : prevPrimeStart n =
    if lastOdd n % 3 = 0 then (((lastOdd n - 2 : Nat) : Int), 2)
    else if lastOdd n % 3 = 1 then ((lastOdd n : Int), 4) else ((lastOdd n : Int), 2) := by
  have odd : (if (n : Int).tmod 2 = 0 then (n : Int) - 1 else n) = (lastOdd n : Int) := by
    have cast : (n : Int).tmod 2 = ((n % 2 : Nat) : Int) := Int.ofNat_tmod n 2
    rw [cast, lastOdd]
    split <;> split <;> omega
  rw [prevPrimeStart, odd]
  have cast : (lastOdd n : Int).tmod 3 = ((lastOdd n % 3 : Nat) : Int) := Int.ofNat_tmod _ 3
  rw [cast]
  have third : lastOdd n % 3 = 0 ∨ lastOdd n % 3 = 1 ∨ lastOdd n % 3 = 2 := by omega
  rcases third with residue | residue | residue
  · grind
  · rw [residue]
    rfl
  · rw [residue]
    rfl

theorem returns_some (low : 5 ≤ k) (fits : k < noOverflow) (step : 0 < d ∧ d < 6) :
    ∃ q : Nat, Returns prevPrimeRound (k, d) (some (q : Int)) := by
  induction k using Nat.strongRecOn generalizing d with
  | ind k ih =>
    have small : k < 2 ^ 31 := fits.trans (by decide)
    have verdict := isPrime_natCast small low
    by_cases divided : Divided k 5
    · have far := divided.large
      rw [if_pos divided] at verdict
      obtain ⟨q, ends⟩ := ih (k - d) (by omega) (d := 6 - d) (by omega) (by omega) (by omega)
      exact ⟨q, (returns_continue_iff
        (prevPrimeRound_rejected (by omega) (by omega) verdict)).mpr ends⟩
    · rw [if_neg divided, if_pos fits] at verdict
      refine ⟨k, returns_of_exit ?_⟩
      rw [prevPrimeRound, verdict]

end Descent

theorem lastOdd_bounds {n : Nat} (lo : 5 ≤ n) :
    lastOdd n ≤ n ∧ n ≤ lastOdd n + 1 ∧ lastOdd n % 2 = 1 ∧ 5 ≤ lastOdd n := by
  rw [lastOdd]
  split <;> omega

/-- No square overflows below `noOverflow`, and `prevPrime` ends. -/
theorem prevPrime_returns {n : Nat} (lo : 5 ≤ n) (hi : n < noOverflow) :
    ∃ q : Nat, PrevPrime n q := by
  obtain ⟨below, -, odd, low⟩ := lastOdd_bounds lo
  have start := prevPrimeStart_natCast lo
  by_cases triple : lastOdd n % 3 = 0
  · rw [if_pos triple] at start
    simp only [PrevPrime, start]
    exact returns_some (d := 2) (by omega) (by omega) (by decide)
  · rw [if_neg triple] at start
    by_cases one : lastOdd n % 3 = 1
    · rw [if_pos one] at start
      simp only [PrevPrime, start]
      exact returns_some (d := 4) low (by omega) (by decide)
    · rw [if_neg one] at start
      simp only [PrevPrime, start]
      exact returns_some (d := 2) low (by omega) (by decide)

/-- The greatest prime not above `n` has a square root that `isPrime` can reach, and, unless the
first odd number is a multiple of 3, the descent meets the prime and rejects every multiple of 3
before it. -/
def Met (n : Nat) : Prop :=
  ∃ p, IsGreatest (primesTo n) p ∧ p < noOverflow ∧ (lastOdd n % 3 = 0 ∨
    p % 6 = lastOdd n % 6 ∧ ∀ k, p < k → k ≤ lastOdd n → k % 6 = 3 → Divided k 5)

/-- `prevPrime` returns the greatest prime exactly when it is met. -/
theorem prevPrime_iff (n : Nat) (lo : 5 ≤ n) (hi : n < 2 ^ 31) :
    (∃ p : Nat, PrevPrime n p ∧ IsGreatest (primesTo n) p) ↔ Met n := by
  have odd := lastOdd_bounds lo
  have fixed : ∀ p, IsGreatest (primesTo n) p → (PrevPrime n p ↔ p < noOverflow ∧
      (lastOdd n % 3 = 0 ∨ p % 6 = lastOdd n % 6 ∧
        ∀ k, p < k → k ≤ lastOdd n → k % 6 = 3 → Divided k 5)) := by
    intro p greatest
    have prime := greatest.1.1
    have below := greatest.1.2
    have large := five_le_greatest lo greatest
    have residue := prime_residue prime large
    have between : ∀ q, p < q → q ≤ lastOdd n → ¬q.Prime := fun q above under is_prime =>
      absurd (greatest.2 ⟨is_prime, under.trans odd.1⟩) (Nat.not_le.mpr above)
    rw [PrevPrime, prevPrimeStart_natCast lo]
    by_cases triple : lastOdd n % 3 = 0
    · rw [if_pos triple, show (2 : Int) = ((2 : Nat) : Int) from rfl,
        returns_aligned (by omega) prime large (by omega)
          (fun q above under => between q above (by omega)) (by omega)]
      by_cases fits : p < noOverflow
      · rw [if_pos fits]
        exact iff_of_true rfl ⟨fits, .inl triple⟩
      · rw [if_neg fits]
        exact iff_of_false (fun h => nomatch h) fun h => fits h.1
    · obtain ⟨d, start, skewed⟩ := skewed_start odd.2.2.1 triple
      rw [if_neg triple, start]
      constructor
      · intro ends
        obtain ⟨met, fits, triples⟩ :=
          of_returns_skewed (by omega) odd.2.2.2 prime large skewed ends
        exact ⟨fits, .inr ⟨met, triples⟩⟩
      · rintro ⟨fits, triple' | ⟨met, triples⟩⟩
        · exact absurd triple' triple
        · exact returns_skewed (by omega) prime large (by omega) between skewed met fits triples
  constructor
  · rintro ⟨p, ends, greatest⟩
    exact ⟨p, greatest, (fixed p greatest).mp ends⟩
  · rintro ⟨p, greatest, rest⟩
    exact ⟨p, (fixed p greatest).mpr rest, greatest⟩

theorem prevPrime_iff_twenty_five :
    (∃ p : Nat, PrevPrime (25 : Nat) p ∧ IsGreatest (primesTo 25) p) ↔ Met 25 :=
  prevPrime_iff 25 (by decide) (by decide)

/-- From 25 the descent goes to 21, which `isPrime` accepts. -/
theorem prevPrime_twenty_five : ¬∃ p : Nat, PrevPrime (25 : Nat) p ∧ IsGreatest (primesTo 25) p := by
  rintro ⟨p, ends, prime, -⟩
  have returned : PrevPrime (25 : Nat) (21 : Nat) := ⟨2, by decide⟩
  have same := Option.some.inj (ends.unique returned)
  obtain rfl : p = 21 := by omega
  exact absurd prime.1 (by decide)

end Gem5.Base
