import Gem5.FlexCPU.CoreSquash
import Gem5.FlexCPU.CoreStatus

/-!
# Issue keeps the invariant

The registrations of an issued instruction only extend its own dependency lists
and the callback vectors of older instructions, so they are described at once by
the list of those that were accepted.
-/

namespace Gem5.FlexCPU

namespace Registration

variable {m : Milestone} {g : Gate}

/-- The tests of the `add*Dependency` functions. -/
def accepted (insts : Insts) : Registration → Bool
  | depend _ m p => !((insts p).squashed || (insts p).reached m)
  | callback _ _ => true

/-- The callback that lands in vector `m` of `p`. -/
def entry (i p : InstId) (m : Milestone) : Registration → Option Callback
  | depend g m' p' => if p' = p ∧ m' = m then some (.decrement g i) else none
  | callback owner cb => if owner = p ∧ m = .effAddr then some cb else none

/-- The dependency that is counted by gate `g`. -/
def dependency (g : Gate) : Registration → Option (Milestone × InstId)
  | depend g' m p => if g' = g then some (m, p) else none
  | callback _ _ => none

end Registration

/-- The instructions after `i` has registered `rules`. -/
def enrolled (insts : Insts) (i : InstId) (rules : List Registration) : Insts := fun j =>
  { insts j with
    callbacks := fun m => (insts j).callbacks m ++ rules.filterMap (Registration.entry i j m)
    deps := fun g => (insts j).deps g
      ++ if j = i then rules.filterMap (Registration.dependency g) else []
    remaining := fun g => (insts j).remaining g
      + if j = i then (rules.filterMap (Registration.dependency g)).length else 0 }

section Enrolled

variable (insts : Insts) (i j : InstId) (rules : List Registration)

@[simp] theorem enrolled_squashed : (enrolled insts i rules j).squashed = (insts j).squashed := rfl

@[simp] theorem enrolled_status : (enrolled insts i rules j).status = (insts j).status := rfl

@[simp] theorem enrolled_fired : (enrolled insts i rules j).fired = (insts j).fired := rfl

@[simp] theorem enrolled_staticInst :
    (enrolled insts i rules j).staticInst = (insts j).staticInst := rfl

theorem enrolled_nil : enrolled insts i [] = insts := by
  funext k
  simp [enrolled]

theorem enrolled_append (more : List Registration) :
    enrolled (enrolled insts i rules) i more = enrolled insts i (rules ++ more) := by
  funext k
  by_cases self : k = i <;> simp [enrolled, self, Nat.add_assoc]

theorem accepted_enrolled :
    Registration.accepted (enrolled insts i rules) = Registration.accepted insts := by
  funext r
  cases r <;> rfl

end Enrolled

theorem enrolled_callback (insts : Insts) (i owner : InstId) (cb : Callback) :
    enrolled insts i [.callback owner cb]
      = Function.update insts owner ((insts owner).addCallback .effAddr cb) := by
  have none : ∀ q, [Registration.callback owner cb].filterMap (Registration.dependency q) = [] :=
    fun _ => rfl
  funext k
  by_cases self : k = owner
  · subst self
    have vectors : ∀ m, [Registration.callback k cb].filterMap (Registration.entry i k m)
        = if m = .effAddr then [cb] else [] := by
      intro m
      by_cases same : m = .effAddr <;> simp [Registration.entry, same]
    simp only [enrolled, none, Function.update_self]
    congr 1
    · grind
    · simp
    · simp
  · have vectors : ∀ m, [Registration.callback owner cb].filterMap (Registration.entry i k m)
        = [] := by
      simp [Registration.entry, Ne.symm self]
    simp [enrolled, vectors, none, self]

theorem enrolled_depend (insts : Insts) (i p : InstId) (g : Gate) (m : Milestone) :
    enrolled insts i [.depend g m p]
      = Function.update (Function.update insts i ((insts i).awaits g m p)) p
          ((Function.update insts i ((insts i).awaits g m p) p).addCallback m
            (.decrement g i)) := by
  have counted : ∀ q, [Registration.depend g m p].filterMap (Registration.dependency q)
      = if q = g then [(m, p)] else [] := by
    intro q
    by_cases same : q = g
    · simp [Registration.dependency, same]
    · simp [Registration.dependency, same, Ne.symm same]
  have vectors : ∀ k q, [Registration.depend g m p].filterMap (Registration.entry i k q)
      = if k = p ∧ q = m then [.decrement g i] else [] := by
    intro k q
    by_cases same : k = p ∧ q = m
    · simp [Registration.entry, same]
    · grind [Registration.entry]
  funext k
  simp only [enrolled, vectors]
  by_cases parent : k = p
  · subst parent
    by_cases self : k = i
    · subst self
      simp only [Function.update_self, InflightInst.awaits]
      congr 1
      · grind
      · grind
      · grind
    · simp only [Function.update_self, Function.update_of_ne self]
      congr 1
      · grind
      · simp [self]
      · simp [self]
  · by_cases self : k = i
    · subst self
      simp only [Function.update_of_ne parent, Function.update_self]
      congr 1
      · simp [parent]
      · grind
      · grind
    · simp [parent, self]

theorem register_eq (t : Thread) (i : InstId) (r : Registration) :
    t.register i r
      = { t with insts := enrolled t.insts i ([r].filter (Registration.accepted t.insts)) } := by
  cases r with
  | callback owner cb =>
    have granted : Registration.accepted t.insts (.callback owner cb) = true := rfl
    rw [List.filter_cons_of_pos granted, List.filter_nil, enrolled_callback]
    rfl
  | depend g m p =>
    by_cases taken : (t.insts p).squashed || (t.insts p).reached m
    · have refused : Registration.accepted t.insts (.depend g m p) = false := by
        simp [Registration.accepted, taken]
      simp [Thread.register, Thread.addDependency, taken, refused, enrolled_nil]
    · have granted : Registration.accepted t.insts (.depend g m p) = true := by
        simp [Registration.accepted, taken]
      rw [List.filter_cons_of_pos granted, List.filter_nil, enrolled_depend]
      simp only [Thread.register, Thread.addDependency, taken]
      rfl

theorem foldl_register (i : InstId) (rules : List Registration) (t : Thread) :
    rules.foldl (Thread.register i) t
      = { t with insts := enrolled t.insts i (rules.filter (Registration.accepted t.insts)) } := by
  induction rules generalizing t with
  | nil => simp [enrolled_nil]
  | cons r rules ih =>
    rw [List.foldl_cons, register_eq, ih]
    simp only [accepted_enrolled, enrolled_append]
    rw [← List.filter_append]
    rfl

/-- A closure over an overlap stands before the dependency that lets it run in time. -/
def TheirsFirst (r : Registration) (later : List Registration) : Prop :=
  match r with
  | .callback owner (.overlapTheirs i _) => .depend .mem .effAddr owner ∈ later ∧ owner < i
  | _ => True

/-- What the invariant asks of the registrations of `i`. -/
structure Enlists (insts : Insts) (i : InstId) (rules : List Registration) : Prop where
  depends : ∀ g m p, .depend g m p ∈ rules → p < i ∧ (insts p).fired m = 0
    ∧ (g = .mem → m ≠ .beginExec) ∧ (g = .exec → m ≠ .effAddr)
  overlaps : ∀ owner cb, .callback owner cb ∈ rules → owner ≤ i ∧ EffAddrCallback owner cb
    ∧ cb.inst = some i ∧ ∀ g c, cb ≠ .decrement g c
  once : ((insts i).deps .exec
    ++ rules.filterMap (Registration.dependency .exec)).countP (·.1 = .beginExec) ≤ 1
  order : Tails.EachTail TheirsFirst rules

section Groups

variable {insts : Insts} {buf : List InstId} {reqs : List Request} {calls : List Call}
  {next i : InstId} {rules : List Registration}

theorem mem_entry {p : InstId} {cb : Callback} :
    cb ∈ rules.filterMap (Registration.entry i p m) ↔
      (∃ g, .depend g m p ∈ rules ∧ cb = .decrement g i)
        ∨ .callback p cb ∈ rules ∧ m = .effAddr := by
  simp only [List.mem_filterMap]
  constructor
  · rintro ⟨r, mem, eq⟩
    cases r with
    | depend g m' p' =>
      simp only [Registration.entry, Option.ite_none_right_eq_some, Option.some.injEq] at eq
      obtain ⟨⟨rfl, rfl⟩, rfl⟩ := eq
      exact Or.inl ⟨g, mem, rfl⟩
    | callback =>
      simp only [Registration.entry, Option.ite_none_right_eq_some, Option.some.injEq] at eq
      obtain ⟨⟨rfl, rfl⟩, rfl⟩ := eq
      exact Or.inr ⟨mem, rfl⟩
  · grind [Registration.entry]

theorem mem_dependency {d : Milestone × InstId} :
    d ∈ rules.filterMap (Registration.dependency g) ↔ .depend g d.1 d.2 ∈ rules := by
  simp only [List.mem_filterMap]
  constructor
  · rintro ⟨r, mem, eq⟩
    cases r with
    | depend =>
      simp only [Registration.dependency, Option.ite_none_right_eq_some, Option.some.injEq] at eq
      obtain ⟨rfl, rfl⟩ := eq
      exact mem
    | callback => simp [Registration.dependency] at eq
  · grind [Registration.dependency]

theorem enrolled_of_gt (enlists : Enlists insts i rules) {j : InstId} (gt : i < j) :
    enrolled insts i rules j = insts j := by
  have vectors : ∀ m, rules.filterMap (Registration.entry i j m) = [] := by
    intro m
    refine List.eq_nil_iff_forall_not_mem.mpr fun cb mem => ?_
    rcases mem_entry.mp mem with ⟨g, mem, -⟩ | ⟨mem, -⟩
    · exact Nat.lt_asymm gt (enlists.depends g m j mem).1
    · exact Nat.not_lt.mpr (enlists.overlaps j cb mem).1 gt
  simp [enrolled, vectors, gt.ne']

theorem Heap.enrolled (h : Heap insts buf reqs calls next) (enlists : Enlists insts i rules)
    (lt : i < next) : Heap (enrolled insts i rules) buf reqs calls next where
  ordered := h.ordered
  bounded := h.bounded
  fresh := fun j old => by
    rw [enrolled_of_gt enlists (Nat.lt_of_lt_of_le lt old)]
    exact h.fresh j old
  allocated := h.allocated
  requests_lt := h.requests_lt
  calls_lt := h.calls_lt
  callbacks_lt := fun p m cb mem c target => by
    rcases List.mem_append.mp mem with old | new
    · exact h.callbacks_lt p m cb old c target
    · rcases mem_entry.mp new with ⟨g, -, rfl⟩ | ⟨mem, -⟩
      · grind [Callback.inst]
      · obtain rfl : i = c := by simpa [(enlists.overlaps p cb mem).2.2.1] using target
        exact lt
  parents_lt := fun c g d mem => by
    rcases List.mem_append.mp mem with old | new
    · exact h.parents_lt c g d old
    · by_cases self : c = i
      · rw [if_pos self] at new
        rw [self]
        exact (enlists.depends g d.1 d.2 (mem_dependency.mp new)).1
      · simp [self] at new
  newest := h.newest

theorem count_entry (overlaps : ∀ owner cb, .callback owner cb ∈ rules → ∀ g c, cb ≠ .decrement g c)
    (p c : InstId) (m : Milestone) (g : Gate) :
    (rules.filterMap (Registration.entry i p m)).count (.decrement g c)
      = if c = i then (rules.filterMap (Registration.dependency g)).count (m, p) else 0 := by
  induction rules with
  | nil => simp
  | cons r rules ih =>
    have tail := ih fun owner cb mem => overlaps owner cb (List.mem_cons_of_mem _ mem)
    cases r with
    | callback owner cb =>
      simp only [List.filterMap_cons, Registration.dependency, Registration.entry]
      by_cases lands : owner = p ∧ m = .effAddr
      · grind
      · simp [lands, tail]
    | depend g' m' p' => grind [Registration.dependency, Registration.entry]

theorem overlapFirst_entry (order : Tails.EachTail TheirsFirst rules)
    (overlaps : ∀ owner cb, .callback owner cb ∈ rules → cb.inst = some i) (p : InstId) :
    Tails.EachTail OverlapFirst (rules.filterMap (Registration.entry i p .effAddr)) := by
  induction rules with
  | nil => simp
  | cons r rules ih =>
    have tail := ih order.2 fun owner cb mem => overlaps owner cb (List.mem_cons_of_mem _ mem)
    cases r with
    | depend g m p' =>
      simp only [List.filterMap_cons, Registration.entry]
      split
      · exact tail
      · rename_i eq
        simp only [Option.ite_none_right_eq_some, Option.some.injEq] at eq
        obtain ⟨-, rfl⟩ := eq
        exact ⟨trivial, tail⟩
    | callback owner cb =>
      simp only [List.filterMap_cons, Registration.entry]
      by_cases lands : owner = p
      · simp only [lands]
        refine ⟨?_, tail⟩
        cases cb <;> try trivial
        case overlapTheirs j other =>
          obtain rfl : j = i := by
            simpa [Callback.inst] using overlaps owner _ (List.mem_cons_self ..)
          exact mem_entry.mpr (Or.inl ⟨.mem, lands ▸ order.1.1, rfl⟩)
      · grind

theorem Callbacks.enrolled (h : Callbacks insts) (enlists : Enlists insts i rules) :
    Callbacks (enrolled insts i rules) where
  registered := fun m p g c => by
    have new := count_entry (i := i) (fun owner cb mem => (enlists.overlaps owner cb mem).2.2.2)
      p c m g
    simp only [Gem5.FlexCPU.enrolled, List.count_append, h.registered m p g c, new]
    by_cases self : c = i <;> simp [self]
  plain := fun m p other cb mem => by
    rcases List.mem_append.mp mem with old | new
    · exact h.plain m p other cb old
    · rcases mem_entry.mp new with ⟨g, -, rfl⟩ | ⟨-, rfl⟩
      · exact ⟨g, i, rfl⟩
      · exact absurd rfl other
  effAddr := fun p cb mem => by
    rcases List.mem_append.mp mem with old | new
    · exact h.effAddr p cb old
    · rcases mem_entry.mp new with ⟨g, -, rfl⟩ | ⟨mem, -⟩
      · trivial
      · exact (enlists.overlaps p cb mem).2.1
  overlapFirst := fun p => by
    refine Tails.eachTail_append (h.overlapFirst p)
      (overlapFirst_entry enlists.order (fun owner cb mem => (enlists.overlaps owner cb mem).2.2.1) p)
      fun cb _ rest first => ?_
    cases cb <;> try trivial
    exact List.mem_append_left _ first
  ready := h.ready
  mem_kind := fun c d mem => by
    rcases List.mem_append.mp mem with old | new
    · exact h.mem_kind c d old
    · by_cases self : c = i
      · rw [if_pos self] at new
        exact (enlists.depends .mem d.1 d.2 (mem_dependency.mp new)).2.2.1 rfl
      · simp [self] at new
  exec_kind := fun c d mem => by
    rcases List.mem_append.mp mem with old | new
    · exact h.exec_kind c d old
    · by_cases self : c = i
      · rw [if_pos self] at new
        exact (enlists.depends .exec d.1 d.2 (mem_dependency.mp new)).2.2.2 rfl
      · simp [self] at new
  surplus_le := fun c => by
    by_cases self : c = i
    · subst self
      simpa [surplus, Gem5.FlexCPU.enrolled] using enlists.once
    · simpa [surplus, Gem5.FlexCPU.enrolled, self] using h.surplus_le c

theorem enrolled_deps_of_ne {c : InstId} (ne : c ≠ i) :
    (enrolled insts i rules c).deps = (insts c).deps := by
  simp [enrolled, ne]

theorem enrolled_deps_self (g : Gate) :
    (enrolled insts i rules i).deps g
      = (insts i).deps g ++ rules.filterMap (Registration.dependency g) := by
  simp [enrolled]

theorem owed_enrolled_of_ne {c : InstId} (ne : c ≠ i) (g : Gate) :
    owed (enrolled insts i rules) calls g c = owed insts calls g c :=
  owed_congr (enrolled_deps_of_ne ne) (fun _ => rfl) rfl

theorem due_fresh (insts : Insts) (new : List (Milestone × InstId))
    (silent : ∀ d ∈ new, (insts d.2).fired d.1 = 0) :
    Latch.due (fun d : Milestone × InstId => d.1.announcements)
        (fun d => (insts d.2).fired d.1) new
      = new.length + new.countP (·.1 = .beginExec) := by
  induction new with
  | nil => rfl
  | cons d new ih =>
    have tail := ih fun e mem => silent e (List.mem_cons_of_mem d mem)
    have head := silent d (List.mem_cons_self ..)
    rw [Latch.due_cons, tail, head, List.length_cons, List.countP_cons]
    obtain ⟨m, p⟩ := d
    cases m <;> simp [Milestone.announcements] <;> omega

theorem owed_enrolled_self (enlists : Enlists insts i rules) (g : Gate) :
    owed (enrolled insts i rules) calls g i
      = owed insts calls g i + (rules.filterMap (Registration.dependency g)).length
        + (rules.filterMap (Registration.dependency g)).countP (·.1 = .beginExec) := by
  have fresh := due_fresh insts (rules.filterMap (Registration.dependency g))
    fun d mem => (enlists.depends g d.1 d.2 (mem_dependency.mp mem)).2.1
  unfold owed due
  rw [enrolled_deps_self, Latch.due_append]
  simp only [enrolled_fired]
  omega

theorem surplus_enrolled_self (g : Gate) :
    surplus (enrolled insts i rules) g i
      = surplus insts g i
        + (rules.filterMap (Registration.dependency g)).countP (·.1 = .beginExec) := by
  unfold surplus
  rw [enrolled_deps_self, List.countP_append]

theorem Counters.enrolled (h : Counters insts buf reqs calls) (enlists : Enlists insts i rules)
    (exact_ : ∀ g, surplus insts g i ≤ owed insts calls g i ∨ rules.filterMap
    (Registration.dependency g) = []) : Counters (enrolled insts i rules) buf reqs calls := by
  intro c held unsquashed g
  have old := h c held unsquashed g
  by_cases self : c = i
  · subst self
    unfold Exact at old ⊢
    rw [owed_enrolled_self enlists, surplus_enrolled_self]
    have count : (Gem5.FlexCPU.enrolled insts c rules c).remaining g
        = (insts c).remaining g + (rules.filterMap (Registration.dependency g)).length := by
      simp [Gem5.FlexCPU.enrolled]
    rw [count]
    rcases exact_ g with covered | none
    · left
      omega
    · simpa [none] using old
  · refine old.congr (enrolled_deps_of_ne self) ?_ (fun _ => rfl) rfl
    simp [Gem5.FlexCPU.enrolled, self]

theorem Milestones.enrolled (h : Milestones insts buf next)
    (issued : Status.issued ≤ (insts i).status) : Milestones (enrolled insts i rules) buf next :=
  { h with
    unissued := fun j early => by
      have ne : j ≠ i := by
        rintro rfl
        exact absurd issued (Nat.not_le.mpr early)
      obtain ⟨gates, squash⟩ := h.unissued j early
      refine ⟨fun g => ?_, squash⟩
      simpa [Gem5.FlexCPU.enrolled, ne] using gates g }

theorem Tokens.enrolled (h : Tokens insts reqs calls) (enlists : Enlists insts i rules) (exec :
    (insts i).squashed = false → (insts i).onReady .exec ≠ [] → rules.filterMap
    (Registration.dependency .exec) = [])
    (mem : (insts i).squashed = false → (insts i).onReady .mem ≠ [] → 0 < owed insts calls .mem i) :
    Tokens (enrolled insts i rules) reqs calls :=
  { h with
    request_fits := fun r inside unsquashed =>
      (h.request_fits r inside unsquashed).congr rfl rfl rfl
    call_fits := fun c inside j target unsquashed =>
      (h.call_fits c inside j target unsquashed).congr rfl rfl rfl rfl
    waiting_exec := fun j unsquashed waits => by
      by_cases self : j = i
      · subst self
        have none := exec unsquashed waits
        rw [owed_enrolled_self enlists, surplus_enrolled_self]
        simpa [none] using h.waiting_exec j unsquashed waits
      · rw [owed_enrolled_of_ne self, surplus_congr (enrolled_deps_of_ne self)]
        exact h.waiting_exec j unsquashed waits
    waiting_mem := fun j unsquashed waits => by
      by_cases self : j = i
      · subst self
        obtain ⟨late, waiting⟩ := h.waiting_mem j unsquashed waits
        exact ⟨late, fun _ => waiting (mem unsquashed waits)⟩
      · rw [owed_enrolled_of_ne self]
        exact h.waiting_mem j unsquashed waits }

theorem Stores.enrolled (h : Stores insts buf) : Stores (enrolled insts i rules) buf := by
  intro c inside unsquashed store issued p older before uncommitted
  obtain ⟨q, le, mem, open_⟩ := h c inside unsquashed store issued p older before uncommitted
  exact ⟨q, le, List.mem_append_left _ mem, open_⟩

end Groups

section Rules

variable {cfg : Config} {t : Thread} {i p : InstId} {on : Bool} {rule : InstId → Registration}
  {r : Registration}

theorem mem_onPrevious : r ∈ t.onPrevious on rule ↔
    on = true ∧ ∃ q, t.beforeBack = some q ∧ r = rule q := by
  unfold Thread.onPrevious
  split <;> simp_all [eq_comm]

theorem mem_locked {w : Option InstId} (mem : r ∈ (t.lock w).toList.map rule) :
    ∃ q, w = some q ∧ t.alive q = true ∧ r = rule q := by
  obtain ⟨q, inside, rfl⟩ := List.mem_map.mp mem
  have locked : t.lock w = some q := by simpa using inside
  exact ⟨q, (Option.filter_eq_some_iff.mp locked).1, (Option.filter_eq_some_iff.mp locked).2, rfl⟩

theorem alive_iff : t.alive i = true ↔ Held t.inflightInsts t.requests i := by
  simp [Thread.alive, Held]

theorem Heap.lt_back {insts : Insts} {buf : List InstId} {reqs : List Request}
    {calls : List Call} {next : InstId} (h : Heap insts buf reqs calls next)
    (back : buf.getLast? = some i) (mem : p ∈ buf) (ne : p ≠ i) : p < i := by
  obtain ⟨a, rfl⟩ := List.getLast?_eq_some_iff.mp back
  have older : p ∈ a := (List.mem_append.mp mem).resolve_right (by simpa using ne)
  exact (List.pairwise_append.mp h.ordered).2.2 p older i (by simp)

theorem mem_beforeBack (h : t.beforeBack = some p) : ∃ a l, t.inflightInsts = a ++ [p, l] := by
  obtain ⟨a, split⟩ := List.getLast?_eq_some_iff.mp h
  have nonempty : t.inflightInsts ≠ [] := by grind
  refine ⟨a, t.inflightInsts.getLast nonempty, ?_⟩
  have := List.dropLast_append_getLast nonempty
  rw [split] at this
  simpa using this.symm

theorem Core.silent (inv : Core cfg t) (alive : t.alive p = true)
    (accepted : Registration.accepted t.insts (.depend g m p) = true) : (t.insts p).fired m = 0:= by
  have open_ : (t.insts p).squashed = false ∧ (t.insts p).reached m = false := by
    simpa [Registration.accepted] using accepted
  have early : (t.insts p).status < m.status := by
    have := open_.2
    simp only [InflightInst.reached, decide_eq_false_iff_not] at this
    exact Nat.lt_of_not_le this
  by_cases commit : m = .commit
  · subst commit
    by_cases inside : p ∈ t.inflightInsts
    · refine inv.uncommitted inside open_.1 fun eq => ?_
      rw [eq] at early
      exact Nat.lt_irrefl _ early
    · obtain ⟨q, mem, holds⟩ := (alive_iff.mp alive).resolve_left inside
      obtain rfl := Request.inst_of_holds holds
      have lt := inv.heap.requests_lt q mem
      obtain ⟨-, done | ⟨-, done⟩⟩ := inv.milestones.left q.inst lt inside open_.1
      · rw [done] at early
        exact absurd early (Nat.lt_irrefl _)
      · have fits := inv.tokens.request_fits q mem open_.1
        cases q <;> simp_all [Request.holds, Request.Fits, Request.inst]
  · exact inv.milestones.fired_zero p m open_.1 commit early

/-- What the rules for `i` may look like. -/
def RuleFits (t : Thread) (i : InstId) : Registration → Prop
  | .depend g m p => p < i ∧ t.alive p = true ∧ (g = .mem → m ≠ .beginExec)
      ∧ (g = .exec → m ≠ .effAddr)
  | .callback owner cb => owner ≤ i ∧ EffAddrCallback owner cb ∧ cb.inst = some i
      ∧ ∀ g c, cb ≠ .decrement g c

theorem Core.beforeBack_fits (inv : Core cfg t) (back : t.back = some i)
    (before : t.beforeBack = some p) :
    p < i ∧ p ∈ t.inflightInsts ∧ (t.insts p).squashed = false := by
  obtain ⟨a, l, buffer⟩ := mem_beforeBack before
  have inside : p ∈ t.inflightInsts := by simp [buffer]
  obtain rfl : l = i := by simpa [Thread.back, buffer] using back
  have ne : p ≠ l := by
    rintro rfl
    have := inv.heap.ordered
    rw [buffer] at this
    have := (List.pairwise_append.mp this).2.1
    simp at this
  refine ⟨inv.heap.lt_back back inside ne, inside, ?_⟩
  by_contra squashed
  have := (inv.buffer.squashed p inside (by simpa using squashed)).1
  rw [show t.inflightInsts.getLast? = some l from back] at this
  exact ne (Option.some.inj this).symm

theorem Core.last_lt (inv : Core cfg t) (idle : t.Idle i .decoded) {j : InstId}
    (old : j < t.nextInst ∧ Status.issued ≤ (t.insts j).status) : j < i := by
  have newest : i + 1 = t.nextInst :=
    inv.heap.newest i idle.mem (by simp [idle.status, Status.lt_iff, Status.rank])
  have ne : j ≠ i := by grind [idle.status, Status.le_iff, Status.rank]
  have lt : j < i + 1 := newest.symm ▸ old.1
  exact Nat.lt_of_le_of_ne (Nat.le_of_lt_succ lt) ne

theorem Core.onPrevious_fits (inv : Core cfg t) (back : t.back = some i)
    (kind : (g = .mem → m ≠ .beginExec) ∧ (g = .exec → m ≠ .effAddr))
    (mem : r ∈ t.onPrevious on (.depend g m)) : RuleFits t i r := by
  obtain ⟨-, q, before, rfl⟩ := mem_onPrevious.mp mem
  obtain ⟨lt, inside, -⟩ := inv.beforeBack_fits back before
  exact ⟨lt, alive_iff.mpr (Or.inl inside), kind⟩

theorem Core.locked_fits (inv : Core cfg t) (idle : t.Idle i .decoded) {w : Option InstId} (kind : (g = .mem → m ≠ .beginExec) ∧ (g = .exec → m ≠ .effAddr))
    (last : ∀ j, w = some j → j < t.nextInst ∧ Status.issued ≤ (t.insts j).status)
    (mem : r ∈ (t.lock w).toList.map (.depend g m)) : RuleFits t i r := by
  obtain ⟨q, eq, alive, rfl⟩ := mem_locked mem
  exact ⟨inv.last_lt idle (last q eq), alive, kind⟩

theorem mem_takeWhile_ne {l : List InstId} (mem : p ∈ l.takeWhile (· ≠ i)) : p ∈ l ∧ p ≠ i := by
  have all := List.all_eq_true.mp (List.all_takeWhile (p := (· ≠ i)) (l := l)) p mem
  exact ⟨List.takeWhile_subset _ mem, by simpa using all⟩

theorem overlapRules_fits {other : InstId} (older : other < i) (alive : t.alive other = true)
    (mem : r ∈ t.overlapRules i other) : RuleFits t i r := by
  unfold Thread.overlapRules at mem
  split at mem
  · obtain rfl : r = _ := by simpa using mem
    exact ⟨Nat.le_refl _, ⟨rfl, older⟩, rfl, by simp⟩
  · simp only [List.mem_cons, List.not_mem_nil, or_false] at mem
    rcases mem with rfl | rfl | rfl
    · exact ⟨Nat.le_refl _, ⟨rfl, older⟩, rfl, by simp⟩
    · exact ⟨Nat.le_of_lt older, ⟨rfl, older⟩, rfl, by simp⟩
    · exact ⟨older, alive, by simp, by simp⟩

theorem Core.rules_fit (inv : Core cfg t) (idle : t.Idle i .decoded) (back : t.back = some i)
    (mem : r ∈ t.dependencyRules cfg i) : RuleFits t i r := by
  simp only [Thread.dependencyRules, List.mem_append] at mem
  rcases mem with (((((inOrder | serialization) | barrier) | nonSpeculative) | memory) | store) | data
  · simp only [Thread.inOrderRules, List.mem_append] at inOrder
    rcases inOrder with complete | begin_
    · exact inv.onPrevious_fits back (by simp) complete
    · exact inv.onPrevious_fits back (by simp) begin_
  · simp only [Thread.serializationRules, List.mem_append] at serialization
    rcases serialization with last | previous
    · exact inv.locked_fits idle (by simp) inv.lasts.serializing last
    · exact inv.onPrevious_fits back (by simp) previous
  · simp only [Thread.barrierRules, List.mem_append] at barrier
    rcases barrier with last | all
    · split at last
      · exact inv.locked_fits idle (by simp) inv.lasts.barrier last
      · simp at last
    · split at all
      · obtain ⟨q, inside, rfl⟩ := List.mem_map.mp all
        simp only [List.mem_filter, List.mem_reverse, Bool.and_eq_true, bne_iff_ne] at inside
        refine ⟨inv.heap.lt_back back inside.1 inside.2.1, alive_iff.mpr (Or.inl inside.1), ?_, ?_⟩
        · simp
        · simp
      · simp at all
  · exact inv.onPrevious_fits back (by simp) nonSpeculative
  · unfold Thread.memoryOrderRules at memory
    split at memory
    · obtain ⟨other, inside, mem⟩ := List.mem_flatMap.mp memory
      obtain ⟨mem', ne⟩ := mem_takeWhile_ne (List.mem_of_mem_filter inside)
      exact overlapRules_fits (inv.heap.lt_back back mem' ne) (alive_iff.mpr (Or.inl mem')) mem
    · simp at memory
  · exact inv.onPrevious_fits back (by simp) store
  · obtain ⟨s, -, mem⟩ := List.mem_flatMap.mp data
    exact inv.locked_fits idle (by simp) (inv.lasts.uses s) mem

theorem mem_callback {owner : InstId} {cb : Callback}
    (mem : .callback owner cb ∈ t.dependencyRules cfg i) :
    ∃ other ∈ t.inflightInsts, other ≠ i ∧ (t.insts i).staticInst.isMemRef = true
      ∧ (t.insts other).staticInst.isStore = true ∧ .callback owner cb ∈ t.overlapRules i other := by
  have locked : ∀ w g m, .callback owner cb ∉ (t.lock w).toList.map (Registration.depend g m) := by
    intro w g m mem
    obtain ⟨q, -, -, eq⟩ := mem_locked mem
    cases eq
  have previous : ∀ on g m, .callback owner cb ∉ t.onPrevious on (Registration.depend g m) := by
    intro on g m mem
    obtain ⟨-, q, -, eq⟩ := mem_onPrevious.mp mem
    cases eq
  simp only [Thread.dependencyRules, Thread.inOrderRules, Thread.serializationRules,
    Thread.nonSpeculativeRules, Thread.storeAtCommitRules, List.mem_append, previous, or_false] at mem
  rcases mem with (barrier | memory) | data
  · grind [Thread.barrierRules]
  · unfold Thread.memoryOrderRules at memory
    split at memory
    · rename_i memRef
      obtain ⟨other, inside, rule⟩ := List.mem_flatMap.mp memory
      obtain ⟨inside, store⟩ := List.mem_filter.mp inside
      obtain ⟨mem, ne⟩ := mem_takeWhile_ne inside
      exact ⟨other, mem, ne, memRef, store, rule⟩
    · simp at memory
  · obtain ⟨s, -, mem⟩ := List.mem_flatMap.mp data
    exact absurd mem (locked _ _ _)

/-- Rules other than the one of `in_order_begin_execute` are for later milestones. -/
def Registration.begins : Registration → Bool
  | .depend _ .beginExec _ => true
  | _ => false

theorem countP_dependency_le (rules : List Registration) (g : Gate) :
    (rules.filterMap (Registration.dependency g)).countP (·.1 = .beginExec)
      ≤ rules.countP Registration.begins := by
  induction rules with
  | nil => simp
  | cons r rules ih =>
    rw [List.filterMap_cons, List.countP_cons]
    cases r with
    | callback => simpa [Registration.dependency, Registration.begins] using ih
    | depend g' m p =>
      by_cases same : g' = g <;> cases m <;>
        simp [Registration.dependency, Registration.begins, same] <;> omega

theorem begins_once (cfg : Config) (t : Thread) (i : InstId) :
    (t.dependencyRules cfg i).countP Registration.begins ≤ 1 := by
  have previous : ∀ (on : Bool) (g : Gate) (m : Milestone), m ≠ .beginExec →
      (t.onPrevious on (.depend g m)).countP Registration.begins = 0 := by
    intro on g m other
    refine List.countP_eq_zero.mpr fun r mem => ?_
    obtain ⟨-, q, -, rfl⟩ := mem_onPrevious.mp mem
    cases m <;> simp_all [Registration.begins]
  have mapped : ∀ (l : List InstId) (g : Gate) (m : Milestone), m ≠ .beginExec →
      (l.map (.depend g m)).countP Registration.begins = 0 := by
    intro l g m other
    refine List.countP_eq_zero.mpr fun r mem => ?_
    obtain ⟨q, -, rfl⟩ := List.mem_map.mp mem
    cases m <;> simp_all [Registration.begins]
  have barrier : ∀ si, (t.barrierRules i si).countP Registration.begins = 0 := by
    intro si
    unfold Thread.barrierRules
    split <;> split <;> simp [mapped _ _ .completion (by simp)]
  have memory : ∀ si, (t.memoryOrderRules i si).countP Registration.begins = 0 := by
    intro si
    unfold Thread.memoryOrderRules
    split
    · refine List.countP_eq_zero.mpr fun r mem => ?_
      obtain ⟨other, -, mem⟩ := List.mem_flatMap.mp mem
      unfold Thread.overlapRules at mem
      split at mem
      · grind [Registration.begins]
      · aesop
    · rfl
  have data : ∀ si, (t.dataRules si).countP Registration.begins = 0 := by
    intro si
    refine List.countP_eq_zero.mpr fun r mem => ?_
    obtain ⟨s, -, mem⟩ := List.mem_flatMap.mp mem
    obtain ⟨q, -, -, rfl⟩ := mem_locked mem
    simp [Registration.begins]
  have begin_ : (t.onPrevious cfg.inOrderBeginExecute (.depend .exec .beginExec)).countP
      Registration.begins ≤ 1 := by
    refine Nat.le_trans List.countP_le_length ?_
    unfold Thread.onPrevious
    split
    · cases t.beforeBack <;> simp
    · simp
  simp only [Thread.dependencyRules, Thread.inOrderRules, Thread.serializationRules,
    Thread.nonSpeculativeRules, Thread.storeAtCommitRules, List.countP_append, barrier, memory,
    data, mapped _ _ .commit (by simp), previous _ _ .commit (by simp),
    previous _ _ .completion (by simp)]
  omega

theorem theirsFirst_dependencyRules (cfg : Config) (t : Thread)
    (older : ∀ j ∈ t.inflightInsts, j ≠ i → j < i) :
    Tails.EachTail TheirsFirst (t.dependencyRules cfg i) := by
  have more : ∀ r rest b, TheirsFirst r rest → TheirsFirst r (rest ++ b) := by
    intro r rest b first
    cases r with
    | depend => trivial
    | callback owner cb =>
      cases cb <;> try trivial
      exact ⟨List.mem_append_left _ first.1, first.2⟩
  have join : ∀ {a b : List Registration}, Tails.EachTail TheirsFirst a →
      Tails.EachTail TheirsFirst b → Tails.EachTail TheirsFirst (a ++ b) := fun left right =>
    Tails.eachTail_append left right fun r _ rest => more r rest _
  have previous : ∀ on g m, Tails.EachTail TheirsFirst (t.onPrevious on (.depend g m)) :=
    fun on g m => Tails.eachTail_of_forall fun r mem rest => by
      obtain ⟨-, q, -, rfl⟩ := mem_onPrevious.mp mem
      trivial
  have mapped : ∀ (l : List InstId) g m, Tails.EachTail TheirsFirst (l.map (.depend g m)) :=
    fun l g m => Tails.eachTail_of_forall fun r mem rest => by
      obtain ⟨q, -, rfl⟩ := List.mem_map.mp mem
      trivial
  have memory : ∀ si, Tails.EachTail TheirsFirst (t.memoryOrderRules i si) := by
    intro si
    unfold Thread.memoryOrderRules
    split
    · refine Tails.eachTail_flatMap (fun other inside => ?_) more
      obtain ⟨mem, ne⟩ := mem_takeWhile_ne (List.mem_of_mem_filter inside)
      unfold Thread.overlapRules
      split
      · exact ⟨trivial, trivial⟩
      · exact ⟨trivial, ⟨by simp, older other mem ne⟩, trivial, trivial⟩
    · trivial
  refine join (join (join (join (join (join (join ?_ ?_) (join ?_ ?_)) (join ?_ ?_)) ?_) ?_) ?_) ?_
  · exact previous ..
  · exact previous ..
  · exact mapped ..
  · exact previous ..
  · split
    · exact mapped ..
    · trivial
  · split
    · exact mapped ..
    · trivial
  · exact previous ..
  · exact memory _
  · exact previous ..
  · exact Tails.eachTail_flatMap (fun _ _ => mapped ..) more

theorem Core.enlists (inv : Core cfg t) (idle : t.Idle i .decoded) (back : t.back = some i) :
    Enlists t.insts i ((t.dependencyRules cfg i).filter (Registration.accepted t.insts)) where
  depends := fun g m p mem => by
    obtain ⟨inside, accepted⟩ := List.mem_filter.mp mem
    obtain ⟨lt, alive, kinds⟩ := inv.rules_fit idle back inside
    exact ⟨lt, inv.silent alive accepted, kinds⟩
  overlaps := fun owner cb mem => inv.rules_fit idle back (List.mem_filter.mp mem).1
  once := by
    have none := (inv.milestones.unissued i (by
      simp [idle.status, Status.lt_iff, Status.rank])).1 .exec
    rw [none, List.nil_append]
    refine Nat.le_trans (countP_dependency_le _ _) (Nat.le_trans ?_ (begins_once cfg t i))
    exact List.Sublist.countP_le List.filter_sublist
  order := by
    have ordered := theirsFirst_dependencyRules cfg t
      fun j inside ne => inv.heap.lt_back back inside ne
    refine ordered.filter fun r inside rest first => ?_
    cases r with
    | depend => trivial
    | callback owner cb =>
      cases cb <;> try trivial
      case overlapTheirs j other =>
        refine ⟨List.mem_filter.mpr ⟨first.1, ?_⟩, first.2⟩
        obtain ⟨store, mem, ne, -, -, rule⟩ := mem_callback inside
        obtain ⟨early, rfl⟩ : (t.insts store).isEffAddred = false ∧ owner = store := by
          unfold Thread.overlapRules at rule
          split at rule
          · simp at rule
          · grind
        have unsquashed : (t.insts owner).squashed = false := by
          by_contra squashed
          have last := (inv.buffer.squashed owner mem (by simpa using squashed)).1
          rw [show t.inflightInsts.getLast? = some i from back] at last
          exact ne (Option.some.inj last).symm
        simpa [Registration.accepted, unsquashed, InflightInst.isEffAddred] using early

end Rules

section Moves

variable {cfg : Config} {t : Thread} {i : InstId}

/-- The instructions after the issue of `i`, but for its operands. -/
def issuedInsts (cfg : Config) (t : Thread) (i : InstId) : Insts :=
  enrolled (restatus t.insts i .issued) i
    ((t.dependencyRules cfg i).filter (Registration.accepted t.insts))

theorem Enlists.restatus {insts : Insts} {rules : List Registration} {s : Status}
    (h : Enlists insts i rules) : Enlists (restatus insts i s) i rules where
  depends := by simpa only [restatus_fired] using h.depends
  overlaps := h.overlaps
  once := by simpa only [restatus_deps] using h.once
  order := h.order

theorem Core.storesIssued (inv : Core cfg t) (idle : t.Idle i .decoded) (back : t.back = some i)
    (calls : t.calls = []) : Stores (issuedInsts cfg t i) t.inflightInsts := by
  have fired : ∀ j, (issuedInsts cfg t i j).fired = (t.insts j).fired := fun j =>
    restatus_fired ..
  intro c inside unsquashed store issued p older before uncommitted
  rw [fired] at uncommitted
  have open_ : (t.insts c).squashed = false := (restatus_squashed ..).symm.trans unsquashed
  have kind : (t.insts c).staticInst.isStore = true := by
    rw [← restatus_staticInst t.insts i c .issued]
    exact store
  by_cases self : c = i
  · subst self
    obtain ⟨q, eq⟩ : ∃ q, t.beforeBack = some q := by
      obtain ⟨a, split⟩ := List.getLast?_eq_some_iff.mp (show t.inflightInsts.getLast? = _ from back)
      have inA : p ∈ a := by grind
      have nonempty : a ≠ [] := List.ne_nil_of_mem inA
      exact ⟨a.getLast nonempty, by simp [Thread.beforeBack, split, List.getLast?_eq_some_getLast nonempty]⟩
    obtain ⟨lt, mem, alive⟩ := inv.beforeBack_fits back eq
    have none : (t.insts q).fired .commit = 0 := by
      by_cases front : t.inflightInsts.head? = some q
      · have := inv.buffer.popping
        simp only [calls, List.not_mem_nil, false_iff] at this
        have le := inv.milestones.fired_le q .commit
        have ne : (t.insts q).fired .commit ≠ 1 := fun one => this ⟨q, front, one⟩
        simp only [Milestone.announcements] at le
        omega
      · exact inv.buffer.uncommitted q mem front
    have running : (t.insts q).status ≠ .committed := by
      intro eq
      have := (inv.milestones.committed_iff q mem alive).mp eq
      omega
    have accepted : Registration.accepted t.insts (.depend .mem .commit q) = true := by
      have low : (t.insts q).reached .commit = false := by
        simp only [InflightInst.reached, decide_eq_false_iff_not, Status.le_iff]
        intro high
        exact running (Status.rank_inj
          (Nat.le_antisymm (by cases (t.insts q).status <;> simp [Status.rank]) high))
      simp [Registration.accepted, alive, low]
    have rule : .depend .mem .commit q ∈ t.dependencyRules cfg c := by
      simp only [Thread.dependencyRules, List.mem_append]
      exact Or.inl (Or.inr (mem_onPrevious.mpr ⟨kind, q, eq, rfl⟩))
    refine ⟨q, ?_, ?_, (congrFun (fired q) _).trans none⟩
    · obtain ⟨a, l, buffer⟩ := mem_beforeBack eq
      have ordered := inv.heap.ordered
      rw [buffer] at ordered older
      obtain rfl : l = c := by simpa [Thread.back, buffer] using back
      have notLast : p ≠ l := Nat.ne_of_lt before
      rcases List.mem_append.mp older with earlier | later
      · exact Nat.le_of_lt ((List.pairwise_append.mp ordered).2.2 p earlier q (by simp))
      · grind
    · unfold issuedInsts
      rw [enrolled_deps_self]
      exact List.mem_append_right _ (mem_dependency.mpr (List.mem_filter.mpr ⟨rule, accepted⟩))
  · have late : Status.issued ≤ (t.insts c).status := by
      have := issued
      simp only [issuedInsts, enrolled_status] at this
      rwa [restatus_of_ne _ _ _ self] at this
    obtain ⟨q, le, mem, none⟩ := inv.stores c inside open_ kind late p older before uncommitted
    refine ⟨q, le, ?_, (congrFun (fired q) _).trans none⟩
    unfold issuedInsts
    rw [enrolled_deps_of_ne self, restatus_deps]
    exact mem

theorem Core.enroll (inv : Core cfg t) (idle : t.Idle i .decoded) (back : t.back = some i)
    (calls : t.calls = []) : Core cfg { t with insts := issuedInsts cfg t i } := by
  have early : (t.insts i).status < .issued := by simp [idle.status, Status.lt_iff, Status.rank]
  have lt := inv.heap.bounded i idle.mem
  have enlists := (inv.enlists idle back).restatus (s := .issued)
  have later : Status.issued ≤ Status.issued := Nat.le_refl _
  have increase : (t.insts i).status ≤ .issued := Nat.le_of_lt early
  have issued : Status.issued ≤ (restatus t.insts i .issued i).status := by simp_all
  obtain ⟨gates, -⟩ := inv.milestones.unissued i early
  have none : ∀ g, surplus (restatus t.insts i .issued) g i = 0 := by
    intro g
    simp [surplus, gates g]
  have noExec := inv.onReady_exec idle.unsquashed (Nat.lt_trans early (by simp [Status.rank]))
  have noMem := inv.onReady_mem idle.unsquashed (Nat.lt_trans early (by simp [Status.rank]))
  have settled : t.advanceInstNeedsRetry = false := by
    by_contra again
    have := (inv.control.retrying (by simpa using again) i back).1
    exact absurd this (Nat.not_le.mpr early)
  have tokens : Tokens (restatus t.insts i .issued) t.requests t.calls :=
    inv.tokens.restatus idle.stage
      (fun r inside self inert => ⟨i, inv.inert_bpred idle.unsquashed
        (Nat.lt_trans early (by simp [Status.rank])) inside self inert⟩)
      (fun waits => absurd noExec waits) (fun waits => absurd noMem waits)
  have control := inv.control.restatus later increase (Or.inr ⟨back, settled⟩)
  exact
    { heap := (inv.heap.restatus lt later).enrolled enlists lt
      callbacks := inv.callbacks.restatus.enrolled enlists
      counters := inv.counters.restatus.enrolled enlists fun g => Or.inl (by rw [none g]; omega)
      milestones := (inv.milestones.restatus idle.mem
        (by simp [idle.status, Status.le_iff]) increase later (by simp)).enrolled issued
      tokens := tokens.enrolled enlists
        (fun _ waits => absurd ((congrFun (restatus_onReady ..) _).trans noExec) waits)
        (fun _ waits => absurd ((congrFun (restatus_onReady ..) _).trans noMem) waits)
      stack := (inv.stack.restatus (s := .issued) (by simp [idle.status])).congr
        (fun _ => rfl) (fun _ => rfl) (fun _ => rfl)
      buffer := (inv.buffer.restatus later).congr (fun _ => rfl) (fun _ => rfl) (fun _ => rfl)
        (fun _ => rfl) (fun _ => rfl) Iff.rfl
      control := control.congr (fun _ => rfl) (fun _ => rfl) (fun _ => rfl) (fun _ => rfl)
        fun _ mem => mem
      stores := inv.storesIssued idle back calls
      lasts := (inv.lasts.restatus later).congr fun _ issued => issued
      noMacroOp := inv.noMacroOp }

theorem Thread.populateDependencies_eq (cfg : Config) (t : Thread) (i : InstId) :
    t.populateDependencies cfg i =
      { t with
        insts := Function.update (enrolled t.insts i
            ((t.dependencyRules cfg i).filter (Registration.accepted t.insts))) i
          { enrolled t.insts i
              ((t.dependencyRules cfg i).filter (Registration.accepted t.insts)) i with
            sources := t.dataSources (t.insts i).staticInst }
        lastSerializingInstruction :=
          if t.recordsSerializing cfg (t.insts i).staticInst then some i
          else t.lastSerializingInstruction
        lastMemBarrier :=
          if (t.insts i).staticInst.isMemBarrier then some i else t.lastMemBarrier } := by
  simp [Thread.populateDependencies, foldl_register, Thread.update]

theorem dependencyRules_numbered (cfg : Config) (t : Thread) (i : InstId) (n next : Nat) :
    Thread.dependencyRules cfg { t.update i fun inst => { inst with issueSeqNum := n } with
      nextIssueNum := next } i = t.dependencyRules cfg i := by
  have static := keep (x := { t.insts i with issueSeqNum := n }) (s := t.insts) (·.staticInst) rfl
  have early := keep (x := { t.insts i with issueSeqNum := n }) (s := t.insts) (·.isEffAddred) rfl
  simp only [Thread.dependencyRules, Thread.barrierRules, Thread.memoryOrderRules,
    Thread.storeAtCommitRules, Thread.dataRules, Thread.onPrevious, Thread.update, static]
  congr 4
  congr 1
  funext other
  simp [Thread.overlapRules, early]

theorem accepted_numbered (t : Thread) (i : InstId) (n : Nat) :
    Registration.accepted (Function.update t.insts i { t.insts i with issueSeqNum := n })
      = Registration.accepted t.insts := by
  have squashed := keep (x := { t.insts i with issueSeqNum := n }) (s := t.insts) (·.squashed) rfl
  have reached := keep (x := { t.insts i with issueSeqNum := n }) (s := t.insts) (·.reached) rfl
  funext r
  cases r with
  | depend => simp only [Registration.accepted, squashed, reached]
  | callback => rfl

/-- The instruction that `enterIssue` leaves behind. -/
def issuedInst (cfg : Config) (t : Thread) (i : InstId) : InflightInst :=
  { issuedInsts cfg t i i with
    issueSeqNum := t.nextIssueNum
    sources := t.dataSources (t.insts i).staticInst }

theorem Thread.enterIssue_eq (cfg : Config) (t : Thread) (i : InstId) :
    t.enterIssue cfg i = ({ t with
      nextIssueNum := t.nextIssueNum + 1
      insts := Function.update (issuedInsts cfg t i) i (issuedInst cfg t i)
      lastSerializingInstruction :=
        if t.recordsSerializing cfg (t.insts i).staticInst then some i
        else t.lastSerializingInstruction
      lastMemBarrier := if (t.insts i).staticInst.isMemBarrier then some i else t.lastMemBarrier
      lastUses := (t.populateUses i).lastUses }).request (.issueTid i) := by
  have rules := dependencyRules_numbered cfg t i t.nextIssueNum (t.nextIssueNum + 1)
  have accepted := accepted_numbered t i t.nextIssueNum
  have static := keep (x := { t.insts i with issueSeqNum := t.nextIssueNum }) (s := t.insts)
    (·.staticInst) rfl i
  unfold Thread.enterIssue
  simp only [Thread.populateDependencies_eq, rules]
  simp only [Thread.update, accepted, static, Thread.populateUses, Thread.setStatus, Thread.request]
  congr 1
  · simp [InflightInst.staticInst, enrolled]
  · funext k
    by_cases self : k = i
    · subst self
      simp [issuedInst, issuedInsts, restatus, enrolled]
      rfl
    · simp [issuedInsts, restatus, enrolled, self]

theorem Core.issue (inv : Core cfg t) (idle : t.Idle i .decoded) (back : t.back = some i)
    (calls : t.calls = []) : Core cfg (t.enterIssue cfg i) := by
  have lt := inv.heap.bounded i idle.mem
  have enrolled := inv.enroll idle back calls
  have operands := enrolled.data (x := issuedInst cfg t i) lt rfl
  let v : Thread := { t with
    nextIssueNum := t.nextIssueNum + 1
    insts := Function.update (issuedInsts cfg t i) i (issuedInst cfg t i)
    lastSerializingInstruction :=
      if t.recordsSerializing cfg (t.insts i).staticInst then some i
      else t.lastSerializingInstruction
    lastMemBarrier := if (t.insts i).staticInst.isMemBarrier then some i else t.lastMemBarrier }
  have issued : Status.issued ≤ (v.insts i).status := by
    simp [v, issuedInst, issuedInsts, Status.le_iff]
  have lasts : Lasts v.insts v.lastSerializingInstruction v.lastMemBarrier v.lastUses v.nextInst :=
    { serializing := fun j eq => by
        simp only [v] at eq
        split at eq
        · grind
        · exact operands.lasts.serializing j eq
      barrier := fun j eq => by
        simp only [v] at eq
        split at eq
        · grind
        · exact operands.lasts.barrier j eq
      uses := operands.lasts.uses }
  have static : (v.insts i).staticInst = (t.insts i).staticInst := by
    simp [v, issuedInst, issuedInsts, InflightInst.staticInst, FlexCPU.enrolled]
  have uses : (v.populateUses i).lastUses = (t.populateUses i).lastUses := by
    simp only [Thread.populateUses, static]
    rfl
  have used : Core cfg { v with lastUses := (t.populateUses i).lastUses } :=
    { operands with lasts := uses ▸ lasts.populateUses lt issued }
  have idleV : ({ v with lastUses := (t.populateUses i).lastUses }).Idle i .issued :=
    { mem := idle.mem
      unsquashed := by simpa [v, issuedInst, issuedInsts] using idle.unsquashed
      stage := idle.stage
      status := by simp [v, issuedInst, issuedInsts] }
  rw [Thread.enterIssue_eq]
  exact used.enqueue (by simp [Request.isToken, Request.carries, Request.inst])
    (Or.inr ⟨idleV.status.symm ▸ idleV, idleV.status⟩)

end Moves

end Gem5.FlexCPU
