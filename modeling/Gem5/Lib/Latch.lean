import Mathlib.Algebra.GroupWithZero.Nat
import Mathlib.Data.List.Count
import Mathlib.Algebra.BigOperators.Group.List.Basic

/-!
# Countdown latches fed by announcements

A latch waits for a list of events. Every event is announced a fixed number of
times, and each announcement takes one off the latch for every time the event is
listed. `due` is what the announcements still to come will take off.
-/

namespace Latch

universe u

variable {ε : Type u}

/-- The number of decrements that future announcements of `events` will cause. -/
def due (total fired : ε → Nat) (events : List ε) : Nat :=
  (events.map fun e => total e - fired e).sum

@[simp] theorem due_nil (total fired : ε → Nat) : due total fired [] = 0 := rfl

@[simp] theorem due_cons (total fired : ε → Nat) (e : ε) (events : List ε) :
    due total fired (e :: events) = (total e - fired e) + due total fired events := rfl

theorem due_append (total fired : ε → Nat) (a b : List ε) :
    due total fired (a ++ b) = due total fired a + due total fired b := by
  simp [due]

/-- An announcement that was still due moves its decrements from the future to
the present. -/
theorem due_announce [BEq ε] [LawfulBEq ε] {total fired fired' : ε → Nat} {e : ε}
    (open_ : fired e < total e) (bump : fired' e = fired e + 1)
    (others : ∀ d, d ≠ e → fired' d = fired d) (events : List ε) :
    due total fired' events + events.count e = due total fired events := by
  induction events with
  | nil => rfl
  | cons d rest ih =>
    by_cases same : d = e
    · grind [due_cons]
    · grind [due_cons]

/-- Events that are listed and not yet announced keep the latch closed. -/
theorem due_pos {total fired : ε → Nat} {events : List ε} {e : ε} (listed : e ∈ events)
    (open_ : fired e < total e) : 0 < due total fired events := by
  induction events with
  | nil => simp at listed
  | cons d rest ih => grind [due_cons]

/-- Events of kind `p` are announced twice and are all still to come. -/
theorem due_eq_of_twice {fired total : ε → Nat} {p : ε → Bool} {events : List ε}
    (totals : ∀ e ∈ events, total e = 1 + if p e then 1 else 0)
    (waiting : ∀ e ∈ events, p e = true → fired e = 0) :
    due total fired events = events.countP p + events.countP fun e => fired e = 0 := by
  induction events with
  | nil => rfl
  | cons d rest ih =>
    have tail := ih (fun e he => totals e (List.mem_cons_of_mem d he))
      fun e he => waiting e (List.mem_cons_of_mem d he)
    rw [due_cons, tail, List.countP_cons, List.countP_cons]
    by_cases twice : p d = true
    · grind
    · grind

end Latch
