import Mathlib.Data.List.Basic
import Mathlib.Data.List.Nodup
import Mathlib.Data.List.Perm.Basic
import Mathlib.Logic.Function.Basic

/-!
# Futexes

A hash map from futexes to their waiters. An entry is made for the first waiter and erased with
the last one. An iterator of the map stands for its key, and `end()` for a key that is not there:
it may not be followed.
-/

namespace Gem5.Sim

open List Function Option

universe u

structure FutexKey where
  addr : BitVec 64
  tgid : BitVec 64
deriving DecidableEq

structure WaiterState (Tc : Type u) where
  tc : Tc
  bitmask : BitVec 32

namespace FutexMap

variable {Tc : Type u}

/-- Whether the waiter has a bit of the mask. -/
def checkMask (w : WaiterState Tc) (wakeup_bitmask : BitVec 32) : Bool :=
  w.bitmask &&& wakeup_bitmask != 0

section Model

variable [DecidableEq Tc]

/-- The suspended thread contexts, and the activations in their order. -/
structure Threads (Tc : Type u) where
  suspended : Tc → Bool
  activated : List Tc

def Threads.suspend (t : Threads Tc) (tc : Tc) : Threads Tc :=
  { t with suspended := Function.update t.suspended tc true }

def Threads.activate (t : Threads Tc) (tc : Tc) : Threads Tc :=
  ⟨Function.update t.suspended tc false, t.activated ++ [tc]⟩

abbrev Futexes (Tc : Type u) := FutexKey → Option (List (WaiterState Tc))

structure State (Tc : Type u) where
  futexes : Futexes Tc
  threads : Threads Tc

def put (m : Futexes Tc) (key : FutexKey) (l : List (WaiterState Tc)) : Futexes Tc :=
  Function.update m key (some l)

/-- The end of an operation on a list: its entry goes if it has become empty. -/
def eraseEmpty (m : Futexes Tc) (key : FutexKey) : Futexes Tc :=
  match m key with
  | some [] => Function.update m key none
  | _ => m

/-- The body of `suspend` and `suspend_bitset`. -/
def suspendWaiter (s : State Tc) (key : FutexKey) (w : WaiterState Tc) : State Tc :=
  { futexes :=
      match s.futexes key with
      | none => put s.futexes key [w]
      | some l => put s.futexes key (l ++ [w])
    threads := s.threads.suspend w.tc }

def suspend (s : State Tc) (addr tgid : BitVec 64) (tc : Tc) : State Tc :=
  suspendWaiter s ⟨addr, tgid⟩ ⟨tc, 0xffffffff⟩

def suspend_bitset (s : State Tc) (addr tgid : BitVec 64) (tc : Tc) (bitmask : BitVec 32) :
    State Tc :=
  suspendWaiter s ⟨addr, tgid⟩ ⟨tc, bitmask⟩

/-- Activates waiters from the front while fewer than `count` have been. -/
def wakeLoop (count : Nat) : List (WaiterState Tc) → Nat → Threads Tc →
    List (WaiterState Tc) × Nat × Threads Tc
  | [], woken_up, t => ([], woken_up, t)
  | w :: rest, woken_up, t =>
    if woken_up < count then wakeLoop count rest (woken_up + 1) (t.activate w.tc)
    else (w :: rest, woken_up, t)

/-- Moves waiters from the front to `tmpList` while fewer than `count2` have been. -/
def moveLoop (count2 : Nat) : List (WaiterState Tc) → List (WaiterState Tc) → Nat →
    List (WaiterState Tc) × List (WaiterState Tc) × Nat
  | [], tmpList, requeued => ([], tmpList, requeued)
  | w :: rest, tmpList, requeued =>
    if requeued < count2 then moveLoop count2 rest (tmpList ++ [w]) (requeued + 1)
    else (w :: rest, tmpList, requeued)

/-- Activates the waiters that have a bit of the mask; the others stay in `passed`. -/
def maskLoop (bitmask : BitVec 32) : List (WaiterState Tc) → List (WaiterState Tc) → Nat →
    Threads Tc → List (WaiterState Tc) × Nat × Threads Tc
  | [], passed, woken_up, t => (passed, woken_up, t)
  | w :: rest, passed, woken_up, t =>
    if checkMask w bitmask then maskLoop bitmask rest passed (woken_up + 1) (t.activate w.tc)
    else maskLoop bitmask rest (passed ++ [w]) woken_up t

def wakeup (s : State Tc) (addr tgid : BitVec 64) (count : Nat) : State Tc × Nat :=
  let key : FutexKey := ⟨addr, tgid⟩
  match s.futexes key with
  | none => (s, 0)
  | some waiterList =>
    let (l, woken_up, t) := wakeLoop count waiterList 0 s.threads
    (⟨eraseEmpty (put s.futexes key l) key, t⟩, woken_up)

def wakeup_bitset (s : State Tc) (addr tgid : BitVec 64) (bitmask : BitVec 32) : State Tc × Nat :=
  let key : FutexKey := ⟨addr, tgid⟩
  match s.futexes key with
  | none => (s, 0)
  | some waiterList =>
    let (l, woken_up, t) := maskLoop bitmask waiterList [] 0 s.threads
    (⟨eraseEmpty (put s.futexes key l) key, t⟩, woken_up)

/-- `none` where the iterator of the second futex is followed and is `end()`. -/
def requeue (s : State Tc) (addr1 tgid : BitVec 64) (count count2 : Nat) (addr2 : BitVec 64) :
    Option (State Tc × Nat) :=
  let key1 : FutexKey := ⟨addr1, tgid⟩
  match s.futexes key1 with
  | none => some (s, 0)
  | some waiterList1 =>
    let (l, woken_up, t) := wakeLoop count waiterList1 0 s.threads
    let (l, tmpList, requeued) := moveLoop count2 l [] 0
    let m := put s.futexes key1 l
    let key2 : FutexKey := ⟨addr2, tgid⟩
    match m key2 with
    | none =>
      if 0 < requeued then
        some (⟨eraseEmpty (put m key2 tmpList) key1, t⟩, woken_up + requeued)
      else none
    | some waiterList2 =>
      some (⟨eraseEmpty (put m key2 (waiterList2 ++ tmpList)) key1, t⟩, woken_up + requeued)

inductive Op (Tc : Type u) where
  | suspend (addr tgid : BitVec 64) (tc : Tc)
  | suspend_bitset (addr tgid : BitVec 64) (tc : Tc) (bitmask : BitVec 32)
  | wakeup (addr tgid : BitVec 64) (count : Nat)
  | wakeup_bitset (addr tgid : BitVec 64) (bitmask : BitVec 32)
  | requeue (addr1 tgid : BitVec 64) (count count2 : Nat) (addr2 : BitVec 64)

/-- A call and its return value; the calls that return nothing count as 0. -/
def step (s : State Tc) : Op Tc → Option (State Tc × Nat)
  | .suspend addr tgid tc => some (suspend s addr tgid tc, 0)
  | .suspend_bitset addr tgid tc bitmask => some (suspend_bitset s addr tgid tc bitmask, 0)
  | .wakeup addr tgid count => some (wakeup s addr tgid count)
  | .wakeup_bitset addr tgid bitmask => some (wakeup_bitset s addr tgid bitmask)
  | .requeue addr1 tgid count count2 addr2 => requeue s addr1 tgid count count2 addr2

def start : State Tc := ⟨fun _ => none, ⟨fun _ => false, []⟩⟩

end Model

abbrev Queues (Tc : Type u) := FutexKey → List (WaiterState Tc)

/-- What a call does to the queues: the new queues, the waiters it wakes in their order, and its
return value. -/
structure Outcome (Tc : Type u) where
  queues : Queues Tc
  woken : List (WaiterState Tc)
  value : Nat

/-- Waiters at the front of one queue go behind those of another. -/
def move (q : Queues Tc) (key1 key2 : FutexKey) (moved rest : List (WaiterState Tc)) : Queues Tc :=
  let q := Function.update q key1 rest
  Function.update q key2 (q key2 ++ moved)

def queueStep (q : Queues Tc) : Op Tc → Outcome Tc
  | .suspend addr tgid tc =>
    ⟨Function.update q ⟨addr, tgid⟩ (q ⟨addr, tgid⟩ ++ [⟨tc, 0xffffffff⟩]), [], 0⟩
  | .suspend_bitset addr tgid tc bitmask =>
    ⟨Function.update q ⟨addr, tgid⟩ (q ⟨addr, tgid⟩ ++ [⟨tc, bitmask⟩]), [], 0⟩
  | .wakeup addr tgid count =>
    let woken := (q ⟨addr, tgid⟩).take count
    ⟨Function.update q ⟨addr, tgid⟩ ((q ⟨addr, tgid⟩).drop count), woken, woken.length⟩
  | .wakeup_bitset addr tgid bitmask =>
    let woken := (q ⟨addr, tgid⟩).filter fun w => checkMask w bitmask
    ⟨Function.update q ⟨addr, tgid⟩ ((q ⟨addr, tgid⟩).filter fun w => !checkMask w bitmask),
      woken, woken.length⟩
  | .requeue addr1 tgid count count2 addr2 =>
    let woken := (q ⟨addr1, tgid⟩).take count
    let left := (q ⟨addr1, tgid⟩).drop count
    ⟨move q ⟨addr1, tgid⟩ ⟨addr2, tgid⟩ (left.take count2) (left.drop count2), woken,
      woken.length + (left.take count2).length⟩

/-- No thread is suspended that already is. -/
def Admissible (s : State Tc) : Op Tc → Prop
  | .suspend _ _ tc => s.threads.suspended tc = false
  | .suspend_bitset _ _ tc _ => s.threads.suspended tc = false
  | _ => True

/-- A requeue from a futex with waiters to one without finds a waiter to move. -/
def Meets (s : State Tc) : Op Tc → Prop
  | .requeue addr1 tgid count count2 addr2 =>
    ∀ l, s.futexes ⟨addr1, tgid⟩ = some l → s.futexes ⟨addr2, tgid⟩ = none →
      count < l.length ∧ 0 < count2
  | _ => True

/-- A run of the map and of the queues beside it. -/
inductive Run [DecidableEq Tc] : State Tc → Queues Tc → List (WaiterState Tc) → Prop where
  | start : Run start (fun _ => []) []
  | step {s s' : State Tc} {q : Queues Tc} {woken : List (WaiterState Tc)} {value : Nat}
      (op : Op Tc) : Run s q woken → Admissible s op → Meets s op → step s op = some (s', value) →
      Run s' (queueStep q op).queues (woken ++ (queueStep q op).woken)

/-- The map shows the queues, and the waiters are the suspended threads. -/
structure Agrees (s : State Tc) (q : Queues Tc) (woken : List (WaiterState Tc)) : Prop where
  queues : ∀ key, (s.futexes key).getD [] = q key
  nonempty : ∀ key, s.futexes key ≠ some []
  waits : ∀ tc, s.threads.suspended tc = true ↔ ∃ key, tc ∈ (q key).map WaiterState.tc
  once : ∀ key, ((q key).map WaiterState.tc).Nodup
  apart : ∀ key key' tc, tc ∈ (q key).map WaiterState.tc → tc ∈ (q key').map WaiterState.tc →
    key = key'
  order : s.threads.activated = woken.map WaiterState.tc

section Entries

variable {t : Threads Tc} {q : Queues Tc} {m : Futexes Tc} {key key1 key2 : FutexKey}

theorem moveLoop_eq (count2 : Nat) (l tmpList : List (WaiterState Tc)) (requeued : Nat) :
    moveLoop count2 l tmpList requeued = (l.drop (count2 - requeued),
      tmpList ++ l.take (count2 - requeued),
      requeued + (l.take (count2 - requeued)).length) := by
  induction l generalizing tmpList requeued with
  | nil => simp [moveLoop]
  | cons w rest ih =>
    rw [moveLoop]
    by_cases more : requeued < count2
    · obtain ⟨left, eq⟩ : ∃ left, count2 - requeued = left + 1 := ⟨count2 - requeued - 1, by omega⟩
      rw [if_pos more, ih, show count2 - (requeued + 1) = left by omega, eq, drop_succ_cons,
        take_succ_cons, length_cons, List.append_assoc, Nat.add_assoc, Nat.add_comm 1]
      rfl
    · simp_all

/-- The map has an entry for each queue that is not empty. -/
structure Shows (m : Futexes Tc) (q : Queues Tc) : Prop where
  queues : ∀ key, (m key).getD [] = q key
  nonempty : ∀ key, m key ≠ some []

theorem Shows.of_none (shows_ : Shows m q) (absent : m key = none) : q key = [] := by
  rw [← shows_.queues, absent]
  rfl

theorem Shows.of_some (shows_ : Shows m q) {l : List (WaiterState Tc)} (entry : m key = some l) :
    q key = l := by
  rw [← shows_.queues, entry]
  rfl

theorem put_getD {l : List (WaiterState Tc)} (queues : ∀ k, (m k).getD [] = q k) (k : FutexKey) :
    (put m key l k).getD [] = Function.update q key l k := by
  by_cases same : k = key
  · subst same
    rw [put, update_self, update_self]
    rfl
  · rw [put, update_of_ne same, update_of_ne same]
    exact queues k

theorem put_nonempty {l : List (WaiterState Tc)} (others : ∀ k, k ≠ key2 → m k ≠ some [])
    (filled : key = key2 ∨ l ≠ []) (k : FutexKey) (other : k ≠ key2) : put m key l k ≠ some [] := by
  by_cases same : k = key
  · subst same
    rw [put, update_self]
    intro eq
    exact filled.elim other fun nonempty => nonempty (Option.some.inj eq)
  · rw [put, update_of_ne same]
    exact others k other

theorem shows_eraseEmpty (queues : ∀ k, (m k).getD [] = q k)
    (others : ∀ k, k ≠ key → m k ≠ some []) : Shows (eraseEmpty m key) q := by
  by_cases empty : m key = some []
  · have erased : eraseEmpty m key = Function.update m key none := by
      rw [eraseEmpty, empty]
    rw [erased]
    constructor
    · grind
    · grind
  · have kept : eraseEmpty m key = m := by
      rw [eraseEmpty]
      split
      · contradiction
      · rfl
    rw [kept]
    refine ⟨queues, fun k => ?_⟩
    by_cases same : k = key
    · rw [same]
      exact empty
    · exact others k same

theorem Shows.written (shows_ : Shows m q) (key : FutexKey) (l : List (WaiterState Tc)) :
    Shows (eraseEmpty (put m key l) key) (Function.update q key l) :=
  shows_eraseEmpty (put_getD shows_.queues)
    (put_nonempty (fun k _ => shows_.nonempty k) (.inl rfl))

def names (l : List (WaiterState Tc)) : List Tc := l.map WaiterState.tc

/-- Each suspended thread waits once, in one queue. -/
structure Waits (t : Threads Tc) (q : Queues Tc) : Prop where
  waits : ∀ tc, t.suspended tc = true ↔ ∃ key, tc ∈ names (q key)
  once : ∀ key, (names (q key)).Nodup
  apart : ∀ key key' tc, tc ∈ names (q key) → tc ∈ names (q key') → key = key'

theorem mem_update_names {l : List (WaiterState Tc)} {k : FutexKey} {tc : Tc} :
    tc ∈ names (Function.update q key l k) ↔ k = key ∧ tc ∈ names l ∨ k ≠ key ∧ tc ∈ names (q k) := by
  by_cases same : k = key
  · subst same
    simp
  · simp [same]

theorem moved_pos {l : List (WaiterState Tc)} {count count2 : Nat} :
    0 < ((l.drop count).take count2).length ↔ count < l.length ∧ 0 < count2 := by
  rw [length_take, length_drop]
  omega

end Entries

section Loops

variable [DecidableEq Tc] {t : Threads Tc} {q : Queues Tc}

def activateAll (t : Threads Tc) (woken : List (WaiterState Tc)) : Threads Tc :=
  woken.foldl (fun t w => t.activate w.tc) t

theorem wakeLoop_eq (count : Nat) (l : List (WaiterState Tc)) (woken_up : Nat) (t : Threads Tc) :
    wakeLoop count l woken_up t = (l.drop (count - woken_up),
      woken_up + (l.take (count - woken_up)).length,
      activateAll t (l.take (count - woken_up))) := by
  induction l generalizing woken_up t with
  | nil => simp [wakeLoop, activateAll]
  | cons w rest ih =>
    rw [wakeLoop]
    by_cases more : woken_up < count
    · obtain ⟨left, eq⟩ : ∃ left, count - woken_up = left + 1 := ⟨count - woken_up - 1, by omega⟩
      rw [if_pos more, ih, show count - (woken_up + 1) = left by omega, eq, drop_succ_cons,
        take_succ_cons, length_cons, Nat.add_assoc, Nat.add_comm 1]
      rfl
    · rw [if_neg more, show count - woken_up = 0 by omega]
      rfl

theorem maskLoop_eq (bitmask : BitVec 32) (l passed : List (WaiterState Tc)) (woken_up : Nat)
    (t : Threads Tc) : maskLoop bitmask l passed woken_up t =
      (passed ++ l.filter (fun w => !checkMask w bitmask),
        woken_up + (l.filter fun w => checkMask w bitmask).length,
        activateAll t (l.filter fun w => checkMask w bitmask)) := by
  induction l generalizing passed woken_up t with
  | nil => simp [maskLoop, activateAll]
  | cons w rest ih =>
    rw [maskLoop]
    by_cases has : checkMask w bitmask = true
    · have yes := List.filter_cons_of_pos (p := fun w => checkMask w bitmask) (l := rest) has
      have no := List.filter_cons_of_neg (p := fun w => !checkMask w bitmask) (l := rest) (a := w)
        (by simp [has])
      rw [if_pos has, ih, yes, no, length_cons, Nat.add_assoc, Nat.add_comm 1]
      rfl
    · grind

theorem activateAll_suspended (woken : List (WaiterState Tc)) (t : Threads Tc) (tc : Tc) :
    (activateAll t woken).suspended tc = true ↔ t.suspended tc = true ∧ tc ∉ names woken := by
  induction woken generalizing t with
  | nil => simp [activateAll, names]
  | cons w rest ih =>
    have first : (t.activate w.tc).suspended tc = true ↔ t.suspended tc = true ∧ tc ≠ w.tc := by
      by_cases same : tc = w.tc
      · simp [Threads.activate, same]
      · simp [Threads.activate, same]
    change (activateAll (t.activate w.tc) rest).suspended tc = true ↔ _
    rw [ih, first, names, names, List.map_cons, List.mem_cons, not_or, and_assoc]

theorem activateAll_activated (woken : List (WaiterState Tc)) (t : Threads Tc) :
    (activateAll t woken).activated = t.activated ++ names woken := by
  induction woken generalizing t with
  | nil => simp [activateAll, names]
  | cons w rest ih =>
    change (activateAll (t.activate w.tc) rest).activated = _
    rw [ih, Threads.activate, List.append_assoc]
    rfl

theorem Shows.suspended {s : State Tc} (shows_ : Shows s.futexes q) (key : FutexKey)
    (w : WaiterState Tc) :
    Shows (suspendWaiter s key w).futexes (Function.update q key (q key ++ [w])) := by
  have added : (suspendWaiter s key w).futexes = put s.futexes key (q key ++ [w]) := by
    rw [suspendWaiter]
    cases entry : s.futexes key with
    | none => rw [shows_.of_none entry, nil_append]
    | some => rw [shows_.of_some entry]
  rw [added]
  refine ⟨put_getD shows_.queues, fun k => ?_⟩
  by_cases same : k = key
  · subst same
    rw [put, update_self]
    exact fun eq => by simpa using Option.some.inj eq
  · rw [put, update_of_ne same]
    exact shows_.nonempty k

theorem Waits.suspend (waits : Waits t q) {w : WaiterState Tc} (awake : t.suspended w.tc = false)
    (key : FutexKey) : Waits (t.suspend w.tc) (Function.update q key (q key ++ [w])) := by
  have fresh : ∀ k, w.tc ∉ names (q k) := fun k waiting =>
    Bool.false_ne_true (awake.symm.trans ((waits.waits w.tc).mpr ⟨k, waiting⟩))
  have added : ∀ tc, tc ∈ names (q key ++ [w]) ↔ tc ∈ names (q key) ∨ tc = w.tc := by
    intro tc
    rw [names, map_append, mem_append, List.map_singleton, List.mem_singleton]
    rfl
  refine ⟨fun tc => ?_, fun k => ?_, fun k k' tc mem mem' => ?_⟩
  · by_cases same : tc = w.tc
    · subst same
      refine iff_of_true (update_self ..) ⟨key, ?_⟩
      rw [update_self, added]
      exact .inr rfl
    · have status : (t.suspend w.tc).suspended tc = t.suspended tc := update_of_ne same _ _
      rw [status, waits.waits tc]
      apply exists_congr
      intro k
      rw [mem_update_names, added]
      by_cases here : k = key
      · subst here
        simp [same]
      · simp [here]
  · by_cases here : k = key
    · subst here
      rw [update_self, names, map_append, List.map_singleton]
      have longer := (waits.once k).concat (fresh k)
      rwa [concat_eq_append] at longer
    · rw [update_of_ne here]
      exact waits.once k
  · rw [mem_update_names, added] at mem mem'
    by_cases same : tc = w.tc
    · grind
    · have old : ∀ k, (k = key ∧ (tc ∈ names (q key) ∨ tc = w.tc) ∨ k ≠ key ∧ tc ∈ names (q k)) →
          tc ∈ names (q k) := by
        rintro k (⟨rfl, mem | same'⟩ | ⟨-, mem⟩)
        · exact mem
        · exact absurd same' same
        · exact mem
      exact waits.apart k k' tc (old k mem) (old k' mem')

theorem Waits.remove (waits : Waits t q) {key : FutexKey} {kept woken : List (WaiterState Tc)}
    (parts : (q key).Perm (kept ++ woken)) :
    Waits (activateAll t woken) (Function.update q key kept) := by
  have split : (names (q key)).Perm (names kept ++ names woken) := by grind [names]
  have both := (split.nodup_iff.mp (waits.once key))
  obtain ⟨kept_once, -, disjoint⟩ := List.nodup_append.mp both
  have old : ∀ k tc, (k = key ∧ tc ∈ names kept ∨ k ≠ key ∧ tc ∈ names (q k)) → tc ∈ names (q k) := by
    rintro k tc (⟨rfl, mem⟩ | ⟨-, mem⟩)
    · exact split.mem_iff.mpr (mem_append_left _ mem)
    · exact mem
  refine ⟨fun tc => ?_, fun k => ?_, fun k k' tc mem mem' => ?_⟩
  · rw [activateAll_suspended, waits.waits tc]
    constructor
    · rintro ⟨⟨k, mem⟩, awake⟩
      refine ⟨k, mem_update_names.mpr ?_⟩
      by_cases here : k = key
      · grind
      · exact .inr ⟨here, mem⟩
    · rintro ⟨k, mem⟩
      rw [mem_update_names] at mem
      refine ⟨⟨k, old k tc mem⟩, fun gone => ?_⟩
      have there : tc ∈ names (q key) := split.mem_iff.mpr (mem_append_right _ gone)
      rcases mem with ⟨-, mem⟩ | ⟨other, mem⟩
      · exact disjoint tc mem tc gone rfl
      · exact other (waits.apart k key tc mem there)
  · by_cases here : k = key
    · grind
    · rw [update_of_ne here]
      exact waits.once k
  · rw [mem_update_names] at mem mem'
    exact waits.apart k k' tc (old k tc mem) (old k' tc mem')

theorem Waits.move (waits : Waits t q) {key1 key2 : FutexKey} {moved rest : List (WaiterState Tc)}
    (parts : q key1 = moved ++ rest) : Waits t (move q key1 key2 moved rest) := by
  have split : names (q key1) = names moved ++ names rest := by
    rw [parts, names, map_append]
    rfl
  obtain ⟨moved_once, rest_once, disjoint⟩ := List.nodup_append.mp (split ▸ waits.once key1)
  have left : ∀ tc, tc ∈ names moved → tc ∈ names (q key1) := fun tc mem =>
    split ▸ mem_append_left _ mem
  have target : FutexMap.move q key1 key2 moved rest key2
      = Function.update q key1 rest key2 ++ moved := update_self ..
  have others : ∀ k, k ≠ key2 → FutexMap.move q key1 key2 moved rest k
      = Function.update q key1 rest k := fun k other => update_of_ne other _ _
  have mem_target : ∀ tc, tc ∈ names (FutexMap.move q key1 key2 moved rest key2) ↔
      tc ∈ names (Function.update q key1 rest key2) ∨ tc ∈ names moved := by
    intro tc
    rw [target, names, map_append, mem_append]
    rfl
  -- A moved waiter is in the second queue only, and any other one is where it was.
  have mem_moved : ∀ tc k, tc ∈ names moved →
      (tc ∈ names (FutexMap.move q key1 key2 moved rest k) ↔ k = key2) := by
    intro tc k gone
    by_cases here : k = key2
    · grind
    · refine iff_of_false (fun mem => ?_) here
      rw [others k here, mem_update_names] at mem
      rcases mem with ⟨-, mem⟩ | ⟨other, mem⟩
      · exact disjoint tc gone tc mem rfl
      · exact other (waits.apart k key1 tc mem (left tc gone))
  have mem_kept : ∀ tc k, tc ∉ names moved →
      (tc ∈ names (FutexMap.move q key1 key2 moved rest k) ↔ tc ∈ names (q k)) := by
    intro tc k stays
    have first : tc ∈ names (Function.update q key1 rest k) ↔ tc ∈ names (q k) := by grind
    by_cases here : k = key2
    · grind
    · rw [others k here, first]
  refine ⟨fun tc => ?_, fun k => ?_, fun k k' tc mem mem' => ?_⟩
  · rw [waits.waits tc]
    by_cases gone : tc ∈ names moved
    · exact iff_of_true ⟨key1, left tc gone⟩ ⟨key2, (mem_moved tc key2 gone).mpr rfl⟩
    · exact exists_congr fun k => (mem_kept tc k gone).symm
  · have kept_once : (names (Function.update q key1 rest k)).Nodup := by
      by_cases here : k = key1
      · grind
      · rw [update_of_ne here]
        exact waits.once k
    by_cases here : k = key2
    · subst here
      rw [target, names, map_append]
      refine kept_once.append moved_once fun tc mem gone => ?_
      rcases mem_update_names.mp mem with ⟨-, mem⟩ | ⟨other, mem⟩
      · exact disjoint tc gone tc mem rfl
      · exact other (waits.apart k key1 tc mem (left tc gone))
    · rw [others k here]
      exact kept_once
  · by_cases gone : tc ∈ names moved
    · grind
    · rw [mem_kept tc _ gone] at mem mem'
      exact waits.apart k k' tc mem mem'

/-- The map shows the queues, the waiters are the suspended threads, and the activations are those
of the waiters that were woken. -/
structure Holds (s : State Tc) (q : Queues Tc) (woken : List (WaiterState Tc)) : Prop where
  entries : Shows s.futexes q
  waits : Waits s.threads q
  order : s.threads.activated = names woken

variable {s : State Tc} {woken : List (WaiterState Tc)}

theorem Holds.suspendWaiter (holds : Holds s q woken) (key : FutexKey) (w : WaiterState Tc)
    (awake : s.threads.suspended w.tc = false) :
    Holds (suspendWaiter s key w) (Function.update q key (q key ++ [w])) (woken ++ []) := by
  refine ⟨holds.entries.suspended key w, holds.waits.suspend awake key, ?_⟩
  rw [append_nil]
  exact holds.order

theorem Holds.remove (holds : Holds s q woken) (key : FutexKey) {kept gone : List (WaiterState Tc)}
    (parts : (q key).Perm (kept ++ gone)) :
    Holds ⟨eraseEmpty (put s.futexes key kept) key, activateAll s.threads gone⟩
      (Function.update q key kept) (woken ++ gone) := by
  refine ⟨holds.entries.written key kept, holds.waits.remove parts, ?_⟩
  rw [activateAll_activated, holds.order, names, names, names, map_append]

theorem Holds.wakeup (holds : Holds s q woken) (addr tgid : BitVec 64) (count : Nat) :
    ∃ s', wakeup s addr tgid count = (s', (queueStep q (.wakeup addr tgid count)).value) ∧
      Holds s' (queueStep q (.wakeup addr tgid count)).queues
        (woken ++ (queueStep q (.wakeup addr tgid count)).woken) := by
  rw [FutexMap.wakeup, queueStep]
  cases entry : s.futexes ⟨addr, tgid⟩ with
  | none =>
    have empty := holds.entries.of_none entry
    refine ⟨s, ?_, ?_⟩
    · rw [empty, take_nil]
      rfl
    · grind [update_eq_self]
  | some =>
    have list := holds.entries.of_some entry
    dsimp only
    rw [wakeLoop_eq, Nat.sub_zero, Nat.zero_add, list]
    refine ⟨_, rfl, holds.remove _ ?_⟩
    rw [list]
    exact (List.perm_append_comm.trans (by rw [take_append_drop])).symm

theorem Holds.wakeup_bitset (holds : Holds s q woken) (addr tgid : BitVec 64)
    (bitmask : BitVec 32) : ∃ s', wakeup_bitset s addr tgid bitmask
        = (s', (queueStep q (.wakeup_bitset addr tgid bitmask)).value) ∧
      Holds s' (queueStep q (.wakeup_bitset addr tgid bitmask)).queues
        (woken ++ (queueStep q (.wakeup_bitset addr tgid bitmask)).woken) := by
  rw [FutexMap.wakeup_bitset, queueStep]
  cases entry : s.futexes ⟨addr, tgid⟩ with
  | none =>
    have empty := holds.entries.of_none entry
    refine ⟨s, ?_, ?_⟩
    · rw [empty, filter_nil]
      rfl
    · grind [update_eq_self]
  | some =>
    have list := holds.entries.of_some entry
    dsimp only
    rw [maskLoop_eq, Nat.zero_add, nil_append, list]
    refine ⟨_, rfl, holds.remove _ ?_⟩
    rw [list]
    exact (List.perm_append_comm.trans (filter_append_perm _ _)).symm


theorem Holds.requeue (holds : Holds s q woken) (addr1 tgid : BitVec 64) (count count2 : Nat)
    (addr2 : BitVec 64) (meets : Meets s (.requeue addr1 tgid count count2 addr2)) :
    ∃ s', requeue s addr1 tgid count count2 addr2
        = some (s', (queueStep q (.requeue addr1 tgid count count2 addr2)).value) ∧
      Holds s' (queueStep q (.requeue addr1 tgid count count2 addr2)).queues
        (woken ++ (queueStep q (.requeue addr1 tgid count count2 addr2)).woken) := by
  rw [FutexMap.requeue, queueStep]
  rw [Meets] at meets
  generalize (⟨addr1, tgid⟩ : FutexKey) = key1 at meets ⊢
  generalize (⟨addr2, tgid⟩ : FutexKey) = key2 at meets ⊢
  cases entry : s.futexes key1 with
  | none =>
    have empty := holds.entries.of_none entry
    refine ⟨s, ?_, ?_⟩
    · grind
    · grind [FutexMap.move, update_eq_self]
  | some l =>
    have list := holds.entries.of_some entry
    dsimp only
    rw [wakeLoop_eq, Nat.sub_zero, Nat.zero_add]
    rw [moveLoop_eq, Nat.sub_zero, Nat.zero_add, nil_append, list]
    have waits : Waits (activateAll s.threads (l.take count))
        (FutexMap.move q key1 key2 ((l.drop count).take count2) ((l.drop count).drop count2)) := by
      have parts : (q key1).Perm (l.drop count ++ l.take count) := by
        rw [list]
        exact (List.perm_append_comm.trans (by rw [take_append_drop])).symm
      have awake := holds.waits.remove parts
      have front : Function.update q key1 (l.drop count) key1
          = (l.drop count).take count2 ++ (l.drop count).drop count2 := by
        rw [update_self, take_append_drop]
      have moved : Waits _ (FutexMap.move _ key1 key2 _ _) := awake.move front
      rwa [FutexMap.move, update_idem] at moved
    have order : (activateAll s.threads (l.take count)).activated
        = names (woken ++ l.take count) := by
      rw [activateAll_activated, holds.order, names, names, names, map_append]
    generalize (l.drop count).drop count2 = rest at waits ⊢
    have shown : ∀ k, (put s.futexes key1 rest k).getD [] = Function.update q key1 rest k :=
      put_getD holds.entries.queues
    have filled : ∀ k, k ≠ key1 → put s.futexes key1 rest k ≠ some [] :=
      put_nonempty (fun k _ => holds.entries.nonempty k) (.inl rfl)
    cases entry2 : put s.futexes key1 rest key2 with
    | none =>
      have other : key2 ≠ key1 := by
        rintro rfl
        rw [put, update_self] at entry2
        cases entry2
      have absent : s.futexes key2 = none := by
        rwa [put, update_of_ne other] at entry2
      have some_ := moved_pos.mpr (meets l entry absent)
      have target : FutexMap.move q key1 key2 ((l.drop count).take count2) rest
          = Function.update (Function.update q key1 rest) key2 ((l.drop count).take count2) := by
        rw [FutexMap.move, ← shown key2, entry2, getD_none, nil_append]
      rw [if_pos some_]
      refine ⟨_, rfl, ?_, waits, order⟩
      rw [target]
      exact shows_eraseEmpty (put_getD shown)
        (put_nonempty filled (.inr (List.length_pos_iff.mp some_)))
    | some l2 =>
      have target : FutexMap.move q key1 key2 ((l.drop count).take count2) rest
          = Function.update (Function.update q key1 rest) key2
            (l2 ++ (l.drop count).take count2) := by
        rw [FutexMap.move, ← shown key2, entry2, getD_some]
      refine ⟨_, rfl, ?_, waits, order⟩
      rw [target]
      refine shows_eraseEmpty (put_getD shown) (put_nonempty filled ?_)
      by_cases same : key2 = key1
      · exact .inl same
      · aesop

theorem requeue_none {addr1 tgid : BitVec 64} {count count2 : Nat} {addr2 : BitVec 64}
    {l : List (WaiterState Tc)} (entry : s.futexes ⟨addr1, tgid⟩ = some l)
    (absent : s.futexes ⟨addr2, tgid⟩ = none) (few : ¬(count < l.length ∧ 0 < count2)) :
    requeue s addr1 tgid count count2 addr2 = none := by
  have other : (⟨addr2, tgid⟩ : FutexKey) ≠ ⟨addr1, tgid⟩ := by grind
  have missing : put s.futexes ⟨addr1, tgid⟩ ((l.drop count).drop count2) ⟨addr2, tgid⟩ = none := by
    rwa [put, update_of_ne other]
  rw [FutexMap.requeue]
  rw [entry]
  dsimp only
  rw [wakeLoop_eq, Nat.sub_zero]
  dsimp only
  rw [moveLoop_eq, Nat.sub_zero, Nat.zero_add]
  rw [missing]
  exact if_neg fun some_ => few (moved_pos.mp some_)

theorem Holds.step (holds : Holds s q woken) (op : Op Tc) (admissible : Admissible s op)
    (meets : Meets s op) : ∃ s', step s op = some (s', (queueStep q op).value) ∧
      Holds s' (queueStep q op).queues (woken ++ (queueStep q op).woken) := by
  cases op with
  | suspend | suspend_bitset => exact ⟨_, rfl, holds.suspendWaiter _ _ admissible⟩
  | wakeup addr tgid count =>
    obtain ⟨s', eq, kept⟩ := holds.wakeup addr tgid count
    exact ⟨s', congrArg some eq, kept⟩
  | wakeup_bitset addr tgid bitmask =>
    obtain ⟨s', eq, kept⟩ := holds.wakeup_bitset addr tgid bitmask
    exact ⟨s', congrArg some eq, kept⟩
  | requeue addr1 tgid count count2 addr2 => exact holds.requeue addr1 tgid count count2 addr2 meets

theorem meets_of_step {op : Op Tc} {s' : State Tc} {value : Nat}
    (eq : step s op = some (s', value)) : Meets s op := by
  cases op with
  | suspend | suspend_bitset | wakeup | wakeup_bitset => trivial
  | requeue =>
    intro l entry absent
    by_contra few
    cases (requeue_none entry absent few).symm.trans eq

theorem Run.holds (run : Run s q woken) : Holds s q woken := by
  induction run with
  | start =>
    refine ⟨⟨fun _ => rfl, fun key eq => nomatch eq⟩, ⟨fun tc => ?_, fun _ => nodup_nil, ?_⟩, rfl⟩
    · exact iff_of_false Bool.false_ne_true fun ⟨_, mem⟩ => nomatch mem
    · exact fun _ _ _ mem => nomatch mem
  | step op _ admissible meets eq ih =>
    obtain ⟨s', eq', kept⟩ := ih.step op admissible meets
    cases eq.symm.trans eq'
    exact kept

/-- In every run whose requeues find a waiter to move the map is a queue for each futex, and the
next call succeeds exactly within its condition, with the value of the queues. -/
theorem futexes_agree (s : State Tc) (q : Queues Tc) (woken : List (WaiterState Tc))
    (run : Run s q woken) : Agrees s q woken ∧ ∀ op, Admissible s op →
      ((∃ s', step s op = some (s', (queueStep q op).value)) ↔ Meets s op) := by
  have holds := run.holds
  refine ⟨⟨holds.entries.queues, holds.entries.nonempty, holds.waits.waits, holds.waits.once,
    holds.waits.apart, holds.order⟩, fun op admissible => ?_⟩
  constructor
  · rintro ⟨s', eq⟩
    exact meets_of_step eq
  · intro meets
    obtain ⟨s', eq, -⟩ := holds.step op admissible meets
    exact ⟨s', eq⟩

end Loops

/-- One thread waits. -/
theorem futexes_agree_suspended :
    Agrees (suspend start 8 1 true) (queueStep (fun _ => []) (.suspend 8 1 true)).queues [] ∧
      ∀ op, Admissible (suspend start 8 1 true) op →
        ((∃ s', step (suspend start 8 1 true) op = some (s',
          (queueStep (queueStep (fun _ => []) (.suspend 8 1 true)).queues op).value)) ↔
            Meets (suspend start 8 1 true) op) :=
  futexes_agree (suspend start 8 1 true) (queueStep (fun _ => []) (.suspend 8 1 true)).queues []
    (.step (.suspend 8 1 true) .start rfl trivial rfl)

/-- A requeue that wakes the only waiter and goes to a futex without waiters fails. -/
theorem requeue_follows_end :
    Run (suspend start 8 1 true) (queueStep (fun _ => []) (.suspend 8 1 true)).queues [] ∧
      Admissible (suspend start 8 1 true) (.requeue 8 1 1 1 16) ∧
      step (suspend start 8 1 true) (.requeue 8 1 1 1 16) = none := by
  refine ⟨.step (.suspend 8 1 true) .start rfl trivial rfl, trivial, ?_⟩
  rfl

end FutexMap

end Gem5.Sim
