import Gem5.Lib.Loops
import Mathlib.Data.List.Sort
import Mathlib.Logic.Function.Basic

/-!
# Second-chance replacement

The queue of the entries is kept as the ticks of their insertion. An entry that uses its second chance
gets the current tick, so that the entries which do so in one search cannot be told apart.
-/

namespace Gem5.Cache

open Loops List

namespace ChanceQueue

universe u

variable {α : Type u} {e : α}

/-- The oldest entry is evicted, or loses its chance and becomes the youngest. -/
def round : List (α × Bool) → List (α × Bool) ⊕ Option α
  | [] => .inr none
  | (e, true) :: rest => .inl (rest ++ [(e, false)])
  | (e, false) :: _ => .inr (some e)

theorem round_chance (e : α) (rest : List (α × Bool)) :
    round ((e, true) :: rest) = .inl (rest ++ [(e, false)]) := rfl

theorem evicts_first (older : List α) (rest : List (α × Bool)) :
    Returns round (older.map (·, true) ++ (e, false) :: rest) (some e) := by
  induction older generalizing rest with
  | nil => exact returns_of_exit rfl
  | cons x older ih =>
    refine (returns_continue_iff (round_chance x _)).mpr ?_
    have later := ih (rest ++ [(x, false)])
    rw [← List.cons_append, ← List.append_assoc] at later
    exact later

theorem evicts_oldest (todo done : List α) :
    Returns round (todo.map (·, true) ++ done.map (·, false)) (done ++ todo).head? := by
  induction todo generalizing done with
  | nil =>
    cases done with
    | nil | cons => exact returns_of_exit rfl
  | cons x todo ih =>
    refine (returns_continue_iff (round_chance x _)).mpr ?_
    have rest := ih (done ++ [x])
    rw [map_append, List.append_assoc, singleton_append, ← List.append_assoc] at rest
    exact rest

end ChanceQueue

structure SecondChanceReplData where
  tickInserted : Nat
  hasSecondChance : Bool

/-- Entries are named by numbers. -/
structure SecondChanceRP where
  curTick : Nat
  replacementData : Nat → SecondChanceReplData

namespace SecondChanceRP

variable (p : SecondChanceRP)

def tickInserted (entry : Nat) : Nat := (p.replacementData entry).tickInserted

def hasSecondChance (entry : Nat) : Bool := (p.replacementData entry).hasSecondChance

def setData (entry : Nat) (data : SecondChanceReplData) : SecondChanceRP :=
  { p with replacementData := Function.update p.replacementData entry data }

/-- `FIFORP::reset`. -/
def fifoReset (entry : Nat) : SecondChanceRP :=
  p.setData entry { p.replacementData entry with tickInserted := p.curTick }

def useSecondChance (entry : Nat) : SecondChanceRP :=
  let p := p.fifoReset entry
  p.setData entry { p.replacementData entry with hasSecondChance := false }

/-- `FIFORP::getVictim`, whose search starts with the first of the candidates. -/
def fifoGetVictim (first : Nat) (candidates : List Nat) : Nat :=
  candidates.foldl (fun victim candidate =>
    if p.tickInserted candidate < p.tickInserted victim then candidate else victim) first

/-- The body of the loop of `getVictim`. -/
def round (first : Nat) (candidates : List Nat) (p : SecondChanceRP) :
    SecondChanceRP ⊕ (SecondChanceRP × Nat) :=
  let victim := p.fifoGetVictim first candidates
  if p.hasSecondChance victim then .inl (p.useSecondChance victim) else .inr (p, victim)

/-- Fails where there is no candidate, or without fuel. -/
def getVictim (fuel : Nat) (candidates : List Nat) : Option (SecondChanceRP × Nat) :=
  match candidates with
  | [] => none
  | first :: _ =>
    match candidates.find? fun c => p.tickInserted c = 0 && ! p.hasSecondChance c with
    | some candidate => some (p, candidate)
    | none => loop (round first candidates) fuel p

/-- The candidates in the order of their insertion. -/
def queue (candidates : List Nat) : List Nat :=
  candidates.insertionSort fun a b => p.tickInserted a ≤ p.tickInserted b

/-- All were inserted at times of their own, before now. -/
structure Inserted (candidates : List Nat) : Prop where
  some_ : candidates ≠ []
  apart : candidates.Pairwise fun a b => p.tickInserted a ≠ p.tickInserted b
  before : ∀ c ∈ candidates, 0 < p.tickInserted c ∧ p.tickInserted c < p.curTick

variable {p} {p' : SecondChanceRP} {first v x : Nat} {candidates l done todo : List Nat}

theorem fifoGetVictim_le (p : SecondChanceRP) (first : Nat) (l : List Nat) :
    p.fifoGetVictim first l ∈ first :: l ∧
      ∀ c ∈ first :: l, p.tickInserted (p.fifoGetVictim first l) ≤ p.tickInserted c := by
  induction l generalizing first with
  | nil => aesop
  | cons d l ih =>
    rw [fifoGetVictim, List.foldl_cons, ← fifoGetVictim]
    split
    case isTrue older =>
      obtain ⟨mem, least⟩ := ih d
      refine ⟨List.mem_cons_of_mem first mem, fun c mem' => ?_⟩
      rcases List.mem_cons.mp mem' with rfl | mem'
      · exact Nat.le_trans (least d List.mem_cons_self) (Nat.le_of_lt older)
      · exact least c mem'
    case isFalse younger =>
      obtain ⟨mem, least⟩ := ih first
      refine ⟨?_, fun c mem' => ?_⟩
      · grind
      · grind

theorem fifoGetVictim_tied (tied : ∀ c ∈ l, p.tickInserted c = p.tickInserted first) :
    p.fifoGetVictim first l = first := by
  induction l with
  | nil => rfl
  | cons d l ih => grind [fifoGetVictim]

/-- The first part of the queue has used its chances, the other part not yet. -/
structure Queued (p : SecondChanceRP) (candidates done todo : List Nat) : Prop where
  all : (done ++ todo).Perm candidates
  once : (done ++ todo).Nodup
  used : ∀ c ∈ done, p.tickInserted c = p.curTick ∧ p.hasSecondChance c = false
  sorted : todo.Pairwise fun a b => p.tickInserted a < p.tickInserted b
  before : ∀ c ∈ todo, p.tickInserted c < p.curTick

theorem useSecondChance_own (p : SecondChanceRP) (x : Nat) :
    (p.useSecondChance x).tickInserted x = p.curTick ∧
      (p.useSecondChance x).hasSecondChance x = false := by
  simp [useSecondChance, fifoReset, setData, tickInserted, hasSecondChance]

theorem useSecondChance_other (p : SecondChanceRP) {c : Nat} (other : c ≠ x) :
    (p.useSecondChance x).tickInserted c = p.tickInserted c ∧
      (p.useSecondChance x).hasSecondChance c = p.hasSecondChance c := by
  simp [useSecondChance, fifoReset, setData, tickInserted, hasSecondChance, other]

theorem Queued.victim (queued : Queued p candidates done (x :: todo)) (mem : first ∈ candidates) :
    p.fifoGetVictim first candidates = x := by
  obtain ⟨found, least⟩ := fifoGetVictim_le p first candidates
  have here : p.fifoGetVictim first candidates ∈ candidates := by grind
  have x_ : x ∈ candidates :=
    queued.all.mem_iff.mp (mem_append_right done List.mem_cons_self)
  have le := least x (List.mem_cons_of_mem first x_)
  have low := queued.before x List.mem_cons_self
  rcases List.mem_append.mp (queued.all.mem_iff.mpr here) with mem' | mem'
  · have tick := (queued.used _ mem').1
    omega
  · rcases List.mem_cons.mp mem' with same | mem'
    · exact same
    · have less := (List.pairwise_cons.mp queued.sorted).1 _ mem'
      omega

theorem Queued.round_chance (queued : Queued p candidates done (x :: todo))
    (mem : first ∈ candidates) (chance : p.hasSecondChance x = true) :
    round first candidates p = .inl (p.useSecondChance x) ∧
      Queued (p.useSecondChance x) candidates (done ++ [x]) todo ∧
      ∀ c ∈ todo, (p.useSecondChance x).hasSecondChance c = p.hasSecondChance c := by
  have order : done ++ [x] ++ todo = done ++ x :: todo := by
    rw [List.append_assoc, singleton_append]
  have once := queued.once
  obtain ⟨-, tail, apart⟩ := List.nodup_append.mp once
  have notDone : ∀ c ∈ done, c ≠ x := fun c mem' => apart c mem' x List.mem_cons_self
  have notTodo : ∀ c ∈ todo, c ≠ x := fun c mem' same =>
    (List.nodup_cons.mp tail).1 (same ▸ mem')
  refine ⟨?_, ⟨order ▸ queued.all, order ▸ once, fun c mem' => ?_, ?_, fun c mem' => ?_⟩,
    fun c mem' => (useSecondChance_other p (notTodo c mem')).2⟩
  · rw [round, queued.victim mem]
    exact if_pos chance
  · rcases List.mem_append.mp mem' with old | new_
    · obtain ⟨tick, flag⟩ := useSecondChance_other p (notDone c old)
      rw [tick, flag]
      exact queued.used c old
    · rw [List.mem_singleton.mp new_]
      exact useSecondChance_own p x
  · refine (List.pairwise_cons.mp queued.sorted).2.imp_of_mem fun memA memB less => ?_
    rw [(useSecondChance_other p (notTodo _ memA)).1, (useSecondChance_other p (notTodo _ memB)).1]
    exact less
  · rw [(useSecondChance_other p (notTodo c mem')).1]
    exact queued.before c (List.mem_cons_of_mem x mem')

theorem Queued.round_none (queued : Queued p candidates done (x :: todo)) (mem : first ∈ candidates)
    (chance : p.hasSecondChance x = false) : round first candidates p = .inr (p, x) := by
  rw [round, queued.victim mem]
  exact if_neg (by rw [chance]; exact Bool.false_ne_true)

theorem Queued.round_tied (queued : Queued p candidates done []) (mem : first ∈ candidates) :
    round first candidates p = .inr (p, first) := by
  have all : ∀ c ∈ candidates, c ∈ done := fun c mem' => by
    have mem' := queued.all.mem_iff.mpr mem'
    rwa [append_nil] at mem'
  have tied : p.fifoGetVictim first candidates = first := fifoGetVictim_tied fun c mem' => by
    rw [(queued.used c (all c mem')).1, (queued.used first (all first mem)).1]
  rw [round, tied]
  exact if_neg (by rw [(queued.used first (all first mem)).2]; exact Bool.false_ne_true)

theorem Queued.returns_first {older : List Nat}
    (queued : Queued p candidates done (older ++ x :: todo)) (mem : first ∈ candidates)
    (chances : ∀ c ∈ older, p.hasSecondChance c = true) (chance : p.hasSecondChance x = false) :
    ∃ p', Returns (round first candidates) p (p', x) := by
  induction older generalizing p done with
  | nil => exact ⟨p, returns_of_exit (queued.round_none mem chance)⟩
  | cons y older ih =>
    obtain ⟨goes, queued', flags⟩ := queued.round_chance mem (chances y List.mem_cons_self)
    obtain ⟨p', rest⟩ := ih queued'
      (fun c mem' => by
        rw [flags c (mem_append_left _ mem')]
        exact chances c (List.mem_cons_of_mem y mem'))
      (by rw [flags x (mem_append_right older List.mem_cons_self)]; exact chance)
    exact ⟨p', (returns_continue_iff goes).mpr rest⟩

theorem Queued.returns_tied (queued : Queued p candidates done todo) (mem : first ∈ candidates)
    (chances : ∀ c ∈ todo, p.hasSecondChance c = true) :
    ∃ p', Returns (round first candidates) p (p', first) := by
  induction todo generalizing p done with
  | nil => exact ⟨p, returns_of_exit (queued.round_tied mem)⟩
  | cons y todo ih =>
    obtain ⟨goes, queued', flags⟩ := queued.round_chance mem (chances y List.mem_cons_self)
    obtain ⟨p', rest⟩ := ih queued' fun c mem' => by
      rw [flags c mem']
      exact chances c (List.mem_cons_of_mem y mem')
    exact ⟨p', (returns_continue_iff goes).mpr rest⟩

theorem Inserted.queued (inserted : p.Inserted candidates) :
    Queued p candidates [] (p.queue candidates) := by
  have perm : (p.queue candidates).Perm candidates := perm_insertionSort _ _
  have apart : (p.queue candidates).Pairwise fun a b => p.tickInserted a ≠ p.tickInserted b :=
    (perm.pairwise_iff fun differ => Ne.symm differ).mpr inserted.apart
  have ordered : (p.queue candidates).Pairwise fun a b => p.tickInserted a ≤ p.tickInserted b := by
    exact pairwise_insertionSort _ candidates
  refine ⟨perm, apart.imp fun differ same => differ (congrArg _ same), fun c none => ?_,
    ordered.imp₂ (fun _ _ le differ => Nat.lt_of_le_of_ne le differ) apart, fun c mem => ?_⟩
  · cases none
  · exact (inserted.before c (perm.mem_iff.mp mem)).2

theorem Inserted.getVictim_eq (inserted : p.Inserted (first :: l)) (fuel : Nat) :
    p.getVictim fuel (first :: l) = loop (round first (first :: l)) fuel p := by
  have valid : (first :: l).find? (fun c => p.tickInserted c = 0 && ! p.hasSecondChance c)
      = none := by
    refine List.find?_eq_none.mpr fun c mem => ?_
    have positive := (inserted.before c mem).1
    simp only [Bool.and_eq_true, decide_eq_true_eq]
    omega
  rw [getVictim, valid]

theorem evicts_head (chances : ∀ c ∈ x :: l, p.hasSecondChance c = true) :
    Returns ChanceQueue.round ((x :: l).map fun c => (c, p.hasSecondChance c)) (some x) := by
  have evicted := ChanceQueue.evicts_oldest (x :: l) []
  rw [map_nil, append_nil, nil_append, List.head?_cons,
    map_congr_left fun c mem => by rw [← chances c mem]] at evicted
  exact evicted

theorem evicts_chanceless {older : List Nat} (chances : ∀ c ∈ older, p.hasSecondChance c = true)
    (chance : p.hasSecondChance x = false) :
    Returns ChanceQueue.round ((older ++ x :: todo).map fun c => (c, p.hasSecondChance c))
      (some x) := by
  have evicted := ChanceQueue.evicts_first (e := x) older
    (todo.map fun c => (c, p.hasSecondChance c))
  rw [map_congr_left fun c mem => by rw [← chances c mem], ← chance] at evicted
  rw [map_append, List.map_cons]
  exact evicted

/-- The search ends, and its victim is that of the queue exactly if some candidate has no second
chance or the first candidate is the oldest. -/
theorem victim_evicted_iff (inserted : p.Inserted candidates) :
    ∃ p' v e, (∃ fuel, p.getVictim fuel candidates = some (p', v)) ∧
      Returns ChanceQueue.round ((p.queue candidates).map fun c => (c, p.hasSecondChance c))
        (some e) ∧
      (v = e ↔ (∃ c ∈ candidates, p.hasSecondChance c = false) ∨
        candidates.head? = (p.queue candidates).head?) := by
  obtain ⟨first, rest, rfl⟩ := List.exists_cons_of_ne_nil inserted.some_
  have mem : first ∈ first :: rest := List.mem_cons_self
  have search := inserted.getVictim_eq
  have queued := inserted.queued
  have perm := queued.all
  rw [List.nil_append] at perm
  generalize p.queue (first :: rest) = order at queued perm ⊢
  by_cases chances : ∀ c ∈ order, p.hasSecondChance c = true
  · obtain ⟨p', fuel, ends⟩ := queued.returns_tied mem chances
    obtain ⟨e, younger, rfl⟩ := List.exists_cons_of_ne_nil (l := order) fun none => by
      rw [none] at perm
      exact absurd perm.length_eq (by simp)
    refine ⟨p', first, e, ⟨fuel, (search fuel).trans ends⟩, evicts_head chances, ?_⟩
    rw [List.head?_cons, List.head?_cons, Option.some.injEq]
    refine (or_iff_right ?_).symm
    rintro ⟨c, mem', flag⟩
    rw [chances c (perm.mem_iff.mpr mem')] at flag
    cases flag
  · -- The oldest entry without a chance is found before any tie.
    have some_ : (order.find? fun c => ! p.hasSecondChance c).isSome := by
      rw [List.find?_isSome]
      simpa using chances
    obtain ⟨x, found⟩ := Option.isSome_iff_exists.mp some_
    obtain ⟨flag, older, todo, rfl, flags⟩ := List.find?_eq_some_iff_append.mp found
    have none : p.hasSecondChance x = false := by simpa using flag
    have old : ∀ c ∈ older, p.hasSecondChance c = true := fun c mem' => by simpa using flags c mem'
    obtain ⟨p', fuel, ends⟩ := queued.returns_first mem old none
    refine ⟨p', x, x, ⟨fuel, (search fuel).trans ends⟩, evicts_chanceless old none,
      iff_of_true rfl (.inl ?_)⟩
    exact ⟨x, perm.mem_iff.mp (List.mem_append_right older List.mem_cons_self), none⟩

/-- Two entries of which the older one has a chance. -/
def older_spared : SecondChanceRP where
  curTick := 5
  replacementData entry := if entry = 0 then ⟨1, true⟩ else ⟨2, false⟩

theorem victim_evicted_iff_spared : ∃ p' v e,
    (∃ fuel, older_spared.getVictim fuel [0, 1] = some (p', v)) ∧
      Returns ChanceQueue.round
        ((older_spared.queue [0, 1]).map fun c => (c, older_spared.hasSecondChance c)) (some e) ∧
      (v = e ↔ (∃ c ∈ [0, 1], older_spared.hasSecondChance c = false) ∨
        [0, 1].head? = (older_spared.queue [0, 1]).head?) :=
  victim_evicted_iff ⟨by decide, by decide, by decide⟩

/-- Two entries with a chance, the second of which is the older one. -/
def both_chances : SecondChanceRP where
  curTick := 3
  replacementData entry := if entry = 0 then ⟨2, true⟩ else ⟨1, true⟩

/-- Both are moved at one tick, and the younger one is the victim. -/
theorem younger_evicted : both_chances.Inserted [0, 1] ∧
    (both_chances.getVictim 3 [0, 1]).map Prod.snd = some 0 ∧
      loop ChanceQueue.round 3
        ((both_chances.queue [0, 1]).map fun c => (c, both_chances.hasSecondChance c))
          = some (some 1) :=
  ⟨⟨by decide, by decide, by decide⟩, by decide, by decide⟩

end SecondChanceRP

end Gem5.Cache
