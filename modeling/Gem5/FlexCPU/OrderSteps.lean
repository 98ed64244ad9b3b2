import Gem5.FlexCPU.OrderSim

/-!
# What a step of the ordering machine changes

Announcements, statuses, dependencies and the buffer, one statement for each, so that
the ordering guarantees never look at the steps again where they do not have to.
-/

namespace Gem5.FlexCPU

open List

namespace Action

variable {j i : InstId}

/-- The milestone that an action announces. -/
def announcement : Action → Option (InstId × Milestone)
  | execute i => some (i, .beginExec)
  | announce i => some (i, .beginExec)
  | effAddr i => some (i, .effAddr)
  | complete i => some (i, .completion)
  | commit i => some (i, .commit)
  | _ => none

/-- The status that an action writes. -/
def status : Action → Option (InstId × Status)
  | decode i => some (i, .decoded)
  | issue i => some (i, .issued)
  | enter i => some (i, .issuedTid)
  | execute i => some (i, .executing)
  | announce i => some (i, .executing)
  | effAddr i => some (i, .effAddred)
  | send i => some (i, .memorying)
  | sendFault i => some (i, .memorying)
  | complete i => some (i, .complete)
  | commit i => some (i, .committed)
  | _ => none

/-- What an action adds to the trace of executions. -/
def executes : Action → List InstId
  | execute i => [i]
  | _ => []

/-- What an action adds to the trace of sends. -/
def sent : Action → List InstId
  | send i => [i]
  | sendFault i => [i]
  | _ => []

end Action

namespace Order

variable {cfg : Config} {s s' : Order} {a : Action}

@[simp] theorem set_mark (i j : InstId) (x : Mark) :
    (s.set i x).mark j = if j = i then x else s.mark j := by
  simp [set, Function.update_apply]

@[simp] theorem flag_status (vs : List InstId) (j : InstId) :
    (s.flag vs j).status = (s.mark j).status := by
  unfold flag
  split <;> rfl

@[simp] theorem flag_static (vs : List InstId) (j : InstId) :
    (s.flag vs j).static = (s.mark j).static := by
  unfold flag
  split <;> rfl

@[simp] theorem flag_number (vs : List InstId) (j : InstId) :
    (s.flag vs j).number = (s.mark j).number := by
  unfold flag
  split <;> rfl

@[simp] theorem flag_fired (vs : List InstId) (j : InstId) :
    (s.flag vs j).fired = (s.mark j).fired := by
  unfold flag
  split <;> rfl

@[simp] theorem flag_deps (vs : List InstId) (j : InstId) :
    (s.flag vs j).deps = (s.mark j).deps := by
  unfold flag
  split <;> rfl

theorem flag_squashed (vs : List InstId) (j : InstId) :
    (s.flag vs j).squashed = false ↔ (s.mark j).squashed = false ∧ j ∉ vs := by
  unfold flag
  split <;> simp [*]

theorem Step.fired (wf : s.Wf) (step : Step cfg s a s') (j : InstId) (m : Milestone) :
    (s'.mark j).fired m = (s.mark j).fired m + if a.announcement = some (j, m) then 1 else 0 := by
  have pass : ∀ (i : InstId) (q : Milestone), (if j = i then (s.mark i).pass q else s.mark j).fired m
      = (s.mark j).fired m + if some (i, q) = some (j, m) then 1 else 0 := by
    intro i q
    by_cases self : j = i
    · subst self
      by_cases same : q = m
      · simp [Mark.pass, same]
      · simp [Mark.pass, same, Ne.symm same]
    · simp [self, Ne.symm self]
  cases step with
  | fetch =>
    by_cases new : j = s.next
    · subst new
      simp [Action.announcement, wf.fresh s.next (Nat.le_refl _)]
    · simp [Action.announcement, new]
  | execute | announce | effAddr | complete | commit => simpa [Action.announcement] using pass _ _
  | @decode i si live status => by_cases self : j = i <;> simp [Action.announcement, self]
  | @issue i deps live status last settled waits =>
    by_cases self : j = i <;> simp [Action.announcement, self]
  | @enter i live status => by_cases self : j = i <;> simp [Action.announcement, self]
  | @overlap i other unsent older issued allocated silent =>
    by_cases self : j = i <;> simp [Action.announcement, self]
  | @send i live status memRef ready => by_cases self : j = i <;> simp [Action.announcement, self]
  | @sendFault i a vs buffer unsquashed pending status memRef ready =>
    by_cases self : j = i <;> simp [Action.announcement, self]
  | _ => simp [Action.announcement]

theorem Step.fired_mono (wf : s.Wf) (step : Step cfg s a s') (j : InstId) (m : Milestone) :
    (s.mark j).fired m ≤ (s'.mark j).fired m := by
  rw [step.fired wf j m]
  exact Nat.le_add_right _ _

theorem Step.unsquashed (wf : s.Wf) (step : Step cfg s a s') (j : InstId)
    (now : (s'.mark j).squashed = false) : (s.mark j).squashed = false := by
  cases step with
  | fetch =>
    by_cases new : j = s.next
    · subst new
      simp [wf.fresh s.next (Nat.le_refl _)]
    · simpa [new] using now
  | squash | fault => exact ((flag_squashed _ j).mp now).1
  | @sendFault i a vs buffer unsquashed pending status memRef ready =>
    have old := ((flag_squashed _ j).mp now).1
    by_cases self : j = i
    · subst self
      exact unsquashed
    · simpa [self] using old
  | idle | pop | reset => exact now
  | @decode i => by_cases self : j = i <;> simp_all
  | @issue i => by_cases self : j = i <;> simp_all
  | @enter i => by_cases self : j = i <;> simp_all
  | @execute i => by_cases self : j = i <;> simp_all [Mark.pass]
  | @announce i => by_cases self : j = i <;> simp_all [Mark.pass]
  | @effAddr i => by_cases self : j = i <;> simp_all [Mark.pass]
  | @overlap i => by_cases self : j = i <;> simp_all
  | @send i => by_cases self : j = i <;> simp_all
  | @complete i => by_cases self : j = i <;> simp_all
  | @commit i => by_cases self : j = i <;> simp_all

/-- Who squashes an instruction: an uncommitted one of the buffer that is older, or
the instruction itself. -/
theorem Step.squashes (step : Step cfg s a s') (allocated : j < s.next)
    (open_ : (s.mark j).squashed = false) (now : (s'.mark j).squashed = true) :
    ∃ (x : InstId) (b vs : List InstId), s.buffer = b ++ x :: vs.reverse
      ∧ (s.mark x).fired .commit = 0
      ∧ (a = .squash x ∧ j ∈ vs ∨ (a = .fault x ∨ a = .sendFault x) ∧ (j ∈ vs ∨ j = x)) := by
  have shut : ∀ {x : Mark}, x.squashed = (s.mark j).squashed → x.squashed = true → False := by grind
  have flagged : ∀ {u : Order} {vs : List InstId}, (u.mark j).squashed = (s.mark j).squashed →
      (u.flag vs j).squashed = true → j ∈ vs := by
    intro u vs same squashed
    by_contra outside
    exact absurd ((flag_squashed vs j).mpr ⟨same.trans open_, outside⟩) (by simp [squashed])
  cases step with
  | fetch => exact (shut (by simp [Nat.ne_of_lt allocated]) now).elim
  | @squash x b vs buffer unsquashed status control pending =>
    exact ⟨x, b, vs, buffer, pending, Or.inl ⟨rfl, flagged rfl now⟩⟩
  | @fault x b vs buffer unsquashed pending status => grind
  | @sendFault x b vs buffer unsquashed pending status memRef ready =>
    refine ⟨x, b, vs, buffer, pending, Or.inr ⟨Or.inr rfl, ?_⟩⟩
    have same : ((s.set x { s.mark x with status := .memorying }).mark j).squashed
        = (s.mark j).squashed := by by_cases self : j = x <;> simp [self]
    simpa using flagged same now
  | idle | pop | reset => exact (shut rfl now).elim
  | @decode x => exact (shut (by by_cases self : j = x <;> simp [self]) now).elim
  | @issue x => exact (shut (by by_cases self : j = x <;> simp [self]) now).elim
  | @enter x => exact (shut (by by_cases self : j = x <;> simp [self]) now).elim
  | @execute x => exact (shut (by by_cases self : j = x <;> simp [self, Mark.pass]) now).elim
  | @announce x => exact (shut (by by_cases self : j = x <;> simp [self, Mark.pass]) now).elim
  | @effAddr x => exact (shut (by by_cases self : j = x <;> simp [self, Mark.pass]) now).elim
  | @overlap x => exact (shut (by by_cases self : j = x <;> simp [self]) now).elim
  | @send x => exact (shut (by by_cases self : j = x <;> simp [self]) now).elim
  | @complete x => exact (shut (by by_cases self : j = x <;> simp [self, Mark.pass]) now).elim
  | @commit x => exact (shut (by by_cases self : j = x <;> simp [self, Mark.pass]) now).elim

theorem Step.next_le (step : Step cfg s a s') : s.next ≤ s'.next := by
  cases step with
  | fetch => exact Nat.le_succ _
  | _ => exact Nat.le_refl _

theorem Step.status (step : Step cfg s a s') (allocated : j < s.next) :
    (s'.mark j).status = match a.status with
      | some (i, st) => if j = i then st else (s.mark j).status
      | none => (s.mark j).status := by
  cases step with
  | fetch => simp [Action.status, Nat.ne_of_lt allocated]
  | @decode i => by_cases self : j = i <;> simp [Action.status, self]
  | @issue i => by_cases self : j = i <;> simp [Action.status, self]
  | @enter i => by_cases self : j = i <;> simp [Action.status, self]
  | @execute i => by_cases self : j = i <;> simp [Action.status, self, Mark.pass, Milestone.status]
  | @announce i => by_cases self : j = i <;> simp [Action.status, self, Mark.pass, Milestone.status]
  | @effAddr i => by_cases self : j = i <;> simp [Action.status, self, Mark.pass, Milestone.status]
  | @overlap i => by_cases self : j = i <;> simp [Action.status, self]
  | @send i => by_cases self : j = i <;> simp [Action.status, self]
  | @sendFault i => by_cases self : j = i <;> simp [Action.status, self]
  | @complete i => by_cases self : j = i <;> simp [Action.status, self, Mark.pass, Milestone.status]
  | @commit i => by_cases self : j = i <;> simp [Action.status, self, Mark.pass, Milestone.status]
  | _ => simp [Action.status]

theorem Step.fresh (wf : s.Wf) (step : Step cfg s a s') (new : s.next ≤ j) :
    s'.mark j = {} ∨ s'.mark j = { status := .empty } := by
  have blank := wf.fresh j new
  have other : ∀ i ∈ s.buffer, j ≠ i := by
    rintro i mem rfl
    exact absurd (wf.bounded j mem) (Nat.not_lt.mpr new)
  have kept : ∀ i ∈ s.buffer, ∀ x, (s.set i x).mark j = {} := fun i mem x => by
    simp [other i mem, blank]
  have flags : ∀ vs : List InstId, (∀ v ∈ vs, v ∈ s.buffer) → s.flag vs j = {} := by grind [flag]
  cases step with
  | fetch => grind
  | decode live => exact Or.inl (kept _ live.1 _)
  | issue live => exact Or.inl (kept _ live.1 _)
  | enter live => exact Or.inl (kept _ live.1 _)
  | execute live => exact Or.inl (kept _ live.1 _)
  | announce live => exact Or.inl (kept _ live.1 _)
  | effAddr live => exact Or.inl (kept _ live.1 _)
  | @overlap i other unsent older issued allocated silent =>
    have ne : j ≠ i := (Nat.lt_of_lt_of_le allocated new).ne'
    exact Or.inl (by simp [ne, blank])
  | send live => exact Or.inl (kept _ live.1 _)
  | @complete i unsquashed allocated => aesop
  | commit front => exact Or.inl (kept _ (List.mem_of_mem_head? front) _)
  | squash buffer => grind
  | fault buffer => grind
  | @sendFault i a vs buffer =>
    have inside : i ∈ s.buffer := by simp [buffer]
    have outside : j ∉ vs ++ [i] := by grind
    exact Or.inl ((if_neg outside).trans (kept i inside _))
  | _ => exact Or.inl blank

theorem Step.lt_of_status (wf : s.Wf) (step : Step cfg s a s')
    (late : Status.decoded ≤ (s'.mark j).status) : j < s.next := by
  by_contra old
  rcases step.fresh wf (Nat.le_of_not_lt old) with blank | empty
  · simp [blank, Status.le_iff, Status.rank] at late
  · simp [empty, Status.le_iff, Status.rank] at late

theorem Step.executing_iff (wf : s.Wf) (step : Step cfg s a s') (j : InstId) :
    Status.executing ≤ (s'.mark j).status ↔
      Status.executing ≤ (s.mark j).status ∨ a = .execute j := by
  by_cases allocated : j < s.next
  · rw [step.status allocated]
    cases step with
    | @decode i si live status => by_cases self : j = i <;> simp_all [Action.status, Status.le_iff, Status.rank]
    | @issue i deps live status => by_cases self : j = i <;> simp_all [Action.status, Status.le_iff, Status.rank]
    | @enter i live status => by_cases self : j = i <;> simp_all [Action.status, Status.le_iff, Status.rank]
    | @execute i live status => by_cases self : j = i <;> simp_all [Action.status, Status.le_iff,
      eq_comm]
    | @announce i live status => by_cases self : j = i <;> simp_all [Action.status]
    | @effAddr i live status => by_cases self : j = i <;> simp_all [Action.status, Status.le_iff, Status.rank]
    | @send i live status => by_cases self : j = i <;> simp_all [Action.status, Status.le_iff, Status.rank]
    | @sendFault i a vs buffer unsquashed pending status =>
      by_cases self : j = i <;> simp_all [Action.status, Status.le_iff, Status.rank]
    | @complete i unsquashed allocated pending status =>
      by_cases self : j = i
      · grind [Action.status, Status.le_iff, Status.rank]
      · simp [Action.status, self]
    | @commit i front unsquashed pending status =>
      by_cases self : j = i
      · grind [Action.status, Status.le_iff, Status.rank]
      · simp [Action.status, self]
    | _ => simp [Action.status]
  · have new := Nat.le_of_not_lt allocated
    have before : ¬ Status.executing ≤ (s.mark j).status := by
      simp [wf.fresh j new, Status.le_iff, Status.rank]
    have after : ¬ Status.executing ≤ (s'.mark j).status := fun late =>
      allocated (step.lt_of_status wf (Nat.le_trans (by simp [Status.rank]) late))
    have other : a ≠ .execute j := by
      rintro rfl
      cases step with
      | execute live => exact allocated (wf.bounded j live.1)
    simp [before, after, other]

theorem Step.executed (step : Step cfg s a s') : s'.executed = s.executed ++ a.executes := by
  cases step <;> simp [set, Action.executes]

theorem Step.sends (step : Step cfg s a s') : s'.sends = s.sends ++ a.sent := by
  cases step <;> simp [set, Action.sent]

theorem Step.deps (wf : s.Wf) (step : Step cfg s a s') (c : InstId) (g : Gate) :
    (s'.mark c).deps g = (s.mark c).deps g
      ∨ a = .issue c ∧ s.Waits cfg c (s'.mark c).deps
      ∨ ∃ other, a = .overlap c other ∧ g = .mem
        ∧ (s'.mark c).deps g = (s.mark c).deps g ++ [(.completion, other)] := by
  cases step with
  | fetch =>
    left
    by_cases new : c = s.next
    · subst new
      simp [wf.fresh s.next (Nat.le_refl _)]
    · simp [new]
  | @decode i => left; by_cases self : c = i <;> simp [self]
  | @issue i deps live status last settled waits => grind
  | @enter i => left; by_cases self : c = i <;> simp [self]
  | @execute i => left; by_cases self : c = i <;> simp [self, Mark.pass]
  | @announce i => left; by_cases self : c = i <;> simp [self, Mark.pass]
  | @effAddr i => left; by_cases self : c = i <;> simp [self, Mark.pass]
  | @overlap i other =>
    by_cases self : c = i
    · subst self
      cases g with
      | exec => exact Or.inl (by simp)
      | mem => exact Or.inr (Or.inr ⟨other, rfl, rfl, by simp⟩)
    · left
      simp [self]
  | @send i => left; by_cases self : c = i <;> simp [self]
  | @sendFault i => left; by_cases self : c = i <;> simp [self]
  | @complete i => left; by_cases self : c = i <;> simp [self, Mark.pass]
  | @commit i => left; by_cases self : c = i <;> simp [self, Mark.pass]
  | _ => left; simp

theorem Step.static (step : Step cfg s a s') (allocated : j < s.next)
    (issued : Status.issued ≤ (s.mark j).status) :
    (s'.mark j).static = (s.mark j).static ∧ (s'.mark j).number = (s.mark j).number := by
  cases step with
  | fetch => simp [Nat.ne_of_lt allocated]
  | @decode i si live status =>
    have ne : j ≠ i := by grind [Status.le_iff, Status.rank]
    simp [ne]
  | @issue i deps live status last settled waits =>
    have ne : j ≠ i := by grind [Status.le_iff, Status.rank]
    simp [ne]
  | @enter i => by_cases self : j = i <;> simp [self]
  | @execute i => by_cases self : j = i <;> simp [self, Mark.pass]
  | @announce i => by_cases self : j = i <;> simp [self, Mark.pass]
  | @effAddr i => by_cases self : j = i <;> simp [self, Mark.pass]
  | @overlap i => by_cases self : j = i <;> simp [self]
  | @send i => by_cases self : j = i <;> simp [self]
  | @sendFault i => by_cases self : j = i <;> simp [self]
  | @complete i => by_cases self : j = i <;> simp [self, Mark.pass]
  | @commit i => by_cases self : j = i <;> simp [self, Mark.pass]
  | _ => simp

theorem Step.status_le (wf : s.Wf) (step : Step cfg s a s') (early : a = .complete j → (s.mark j).status ≠ .committed) :
    (s.mark j).status ≤ (s'.mark j).status := by
  by_cases allocated : j < s.next
  · have refl : ∀ x : Status, x ≤ x := fun x => Nat.le_refl x.rank
    rw [step.status allocated]
    cases step with
    | @decode i si live status =>
      by_cases self : j = i <;> simp_all [Action.status, Status.le_iff, Status.rank]
    | @issue i deps live status =>
      by_cases self : j = i <;> simp_all [Action.status, Status.le_iff, Status.rank]
    | @enter i live status =>
      by_cases self : j = i <;> simp_all [Action.status, Status.le_iff, Status.rank]
    | @execute i live status =>
      by_cases self : j = i <;> simp_all [Action.status, Status.le_iff, Status.rank]
    | @announce i live status =>
      by_cases self : j = i <;> simp_all [Action.status]
    | @effAddr i live status =>
      by_cases self : j = i <;> simp_all [Action.status, Status.le_iff, Status.rank]
    | @send i live status =>
      by_cases self : j = i <;> simp_all [Action.status, Status.le_iff, Status.rank]
    | @sendFault i a vs buffer unsquashed pending status =>
      by_cases self : j = i <;> simp_all [Action.status, Status.le_iff, Status.rank]
    | @complete i unsquashed allocated pending status =>
      by_cases self : j = i
      · grind [Action.status, Status.le_iff, Status.rank]
      · simp [Action.status, self, refl]
    | @commit i front unsquashed pending status =>
      by_cases self : j = i
      · grind [Action.status, Status.le_iff, Status.rank]
      · simp [Action.status, self, refl]
    | _ => exact refl _
  · rw [wf.fresh j (Nat.le_of_not_lt allocated)]
    simp [Status.le_iff, Status.rank]

theorem Step.keeps_reached (wf : s.Wf) (step : Step cfg s a s') {x : Status}
    (low : x ≤ .complete) (reached : x ≤ (s.mark j).status) : x ≤ (s'.mark j).status := by
  by_cases lowers : a = .complete j ∧ (s.mark j).status = .committed
  · obtain ⟨rfl, -⟩ := lowers
    have allocated : j < s.next := by
      cases step with
      | complete unsquashed allocated => exact allocated
    rw [step.status allocated]
    simpa [Action.status] using low
  · exact Nat.le_trans reached (step.status_le wf fun done committed => lowers ⟨done, committed⟩)

theorem Step.mem_buffer (step : Step cfg s a s') (mem : j ∈ s'.buffer) :
    j ∈ s.buffer ∨ a = .fetch ∧ j = s.next := by
  cases step with
  | fetch => simpa using mem
  | pop front => exact Or.inl (front ▸ List.mem_cons_of_mem _ mem)
  | squash buffer => grind
  | fault buffer => grind
  | sendFault buffer => grind
  | reset => simp at mem
  | _ => exact Or.inl mem

theorem Step.fired_commit (wf : s.Wf) (step : Step cfg s a s')
    (done : (s.mark j).fired .commit = 1) : (s'.mark j).fired .commit = 1 := by
  rw [step.fired wf, done]
  have other : a.announcement ≠ some (j, .commit) := by
    intro now
    have : a = .commit j := by cases a <;> simp_all [Action.announcement]
    subst this
    cases step with
    | commit front unsquashed pending => omega
  simp [other]

theorem Step.fired_completion (wf : s.Wf) (step : Step cfg s a s')
    (done : (s.mark j).fired .completion = 1) : (s'.mark j).fired .completion = 1 := by
  rw [step.fired wf, done]
  have other : a.announcement ≠ some (j, .completion) := by
    intro now
    have : a = .complete j := by cases a <;> simp_all [Action.announcement]
    subst this
    cases step with
    | complete unsquashed allocated pending => omega
  simp [other]

theorem Step.issued_iff (wf : s.Wf) (step : Step cfg s a s') (j : InstId) :
    Status.issued ≤ (s'.mark j).status ↔ Status.issued ≤ (s.mark j).status ∨ a = .issue j := by
  constructor
  · intro late
    have allocated := step.lt_of_status wf (Nat.le_trans (by simp [Status.rank]) late)
    by_contra early
    simp only [not_or] at early
    obtain ⟨early, other⟩ := early
    have key : ∀ (i : InstId) (new : Status), Status.issued ≤ (s.mark i).status →
        Status.issued ≤ (if j = i then new else (s.mark j).status) → False := by
      intro i new before now
      by_cases self : j = i
      · exact early (self ▸ before)
      · exact early (by simpa [self] using now)
    rw [step.status allocated] at late
    cases step with
    | @decode i =>
      by_cases self : j = i
      · simp [Action.status, self, Status.le_iff, Status.rank] at late
      · exact early (by simpa [Action.status, self] using late)
    | @issue i => grind [Action.status]
    | enter live status => exact key _ _ (by simp [status, Status.le_iff]) late
    | execute live status => exact key _ _ (by simp [status, Status.le_iff, Status.rank]) late
    | announce live status => exact key _ _ (by simp [status, Status.le_iff, Status.rank]) late
    | effAddr live status => exact key _ _ (by simp [status, Status.le_iff, Status.rank]) late
    | send live status => exact key _ _ (by simp [status, Status.le_iff, Status.rank]) late
    | sendFault buffer unsquashed pending status =>
      exact key _ _ (by simp [status, Status.le_iff, Status.rank]) late
    | complete unsquashed allocated pending status =>
      refine key _ _ ?_ late
      rcases status with ⟨-, status, -⟩ | ⟨-, status, -⟩ | ⟨status, -⟩
      · simp [Status.le_iff, Status.rank, status]
      · simp [Status.le_iff, Status.rank, status]
      · simp [Status.le_iff, Status.rank, status]
    | commit front unsquashed pending status =>
      refine key _ _ ?_ late
      rcases status with status | ⟨status, -⟩
      · simp [Status.le_iff, Status.rank, status]
      · simp [Status.le_iff, Status.rank, status]
    | _ => exact early late
  · rintro (reached | rfl)
    · exact step.keeps_reached wf (by simp [Status.le_iff, Status.rank]) reached
    · cases step with
      | issue => simp [Status.le_iff]

theorem Step.memorying (wf : s.Wf) (step : Step cfg s a s')
    (memRef : (s.mark j).static.isMemRef = true) (late : Status.memorying ≤ (s'.mark j).status) :
    Status.memorying ≤ (s.mark j).status ∨ a = .send j ∨ a = .sendFault j := by
  have allocated := step.lt_of_status wf (Nat.le_trans (by simp [Status.rank]) late)
  by_contra no
  simp only [not_or] at no
  obtain ⟨early, notSent, notFaulty⟩ := no
  have key : ∀ (i : InstId) (new : Status),
      (j = i → ¬ Status.memorying ≤ new ∨ Status.memorying ≤ (s.mark i).status) →
      Status.memorying ≤ (if j = i then new else (s.mark j).status) → False := by
    intro i new before now
    by_cases self : j = i
    · grind
    · exact early (by simpa [self] using now)
  rw [step.status allocated] at late
  cases step with
  | decode | issue | enter | execute | announce | effAddr =>
    exact key _ _ (fun _ => Or.inl (by simp [Status.le_iff, Status.rank])) late
  | send => exact key _ _ (fun self => absurd (by rw [self]) notSent) late
  | sendFault => exact key _ _ (fun self => absurd (by rw [self]) notFaulty) late
  | complete unsquashed allocated pending status =>
    refine key _ _ (fun self => Or.inr ?_) late
    rcases status with ⟨-, -, plain⟩ | ⟨-, status, -⟩ | ⟨status, -⟩
    · rw [← self, memRef] at plain
      cases plain
    · simp [Status.le_iff, status]
    · simp [Status.le_iff, Status.rank, status]
  | commit front unsquashed pending status =>
    refine key _ _ (fun _ => Or.inr ?_) late
    rcases status with status | ⟨status, -⟩
    · simp [Status.le_iff, Status.rank, status]
    · simp [Status.le_iff, status]
  | _ => exact early late

theorem Step.stays_live (step : Step cfg s a s') (live : s.Live j)
    (open_ : (s'.mark j).squashed = false) (front : a = .pop → s.buffer.head? ≠ some j) :
    s'.Live j := by
  refine ⟨?_, open_⟩
  obtain ⟨mem, unsquashed⟩ := live
  have cut : ∀ {x : InstId} {b vs : List InstId}, s.buffer = b ++ x :: vs.reverse →
      j ∉ vs → j ∈ b ++ [x] := by
    intro x b vs buffer kept
    rw [buffer] at mem
    simp at mem ⊢
    tauto
  cases step with
  | fetch => exact mem_append_left _ mem
  | @pop i rest buffer committed => grind
  | squash buffer => exact cut buffer ((flag_squashed _ j).mp open_).2
  | fault buffer =>
    exact cut buffer fun victim => ((flag_squashed _ j).mp open_).2 (mem_append_left _ victim)
  | sendFault buffer =>
    exact cut buffer fun victim => ((flag_squashed _ j).mp open_).2 (mem_append_left _ victim)
  | @reset i buffer squashed => grind
  | _ => exact mem

theorem Step.keeps_live (step : Step cfg s a s') (live : s.Live j)
    (open_ : (s'.mark j).squashed = false) (pending : (s.mark j).fired .commit = 0) :
    s'.Live j := by
  refine step.stays_live live open_ ?_
  rintro rfl head
  cases step with
  | @pop i rest buffer committed => grind

theorem Step.squash_up (wf : s.Wf) (step : Step cfg s a s') (first : s.Live i) (second : s.Live j)
    (lt : i < j) (gone : (s'.mark i).squashed = true) : (s'.mark j).squashed = true := by
  obtain ⟨x, b, vs, buffer, -, cause⟩ := step.squashes (wf.bounded i first.1) first.2 gone
  have above : x ≤ i := by
    rcases cause with ⟨-, victim⟩ | ⟨-, victim | rfl⟩
    · exact (Tails.lt_of_later wf.ordered buffer (by simpa using victim)).le
    · exact (Tails.lt_of_later wf.ordered buffer (by simpa using victim)).le
    · exact Nat.le_refl _
  have victim : j ∈ vs := by
    have mem := second.1
    rw [buffer] at mem
    rcases List.mem_append.mp mem with older | rest
    · have := Tails.lt_of_split wf.ordered buffer older (List.mem_cons_self ..)
      exact absurd (Nat.lt_trans (Nat.lt_of_le_of_lt above lt) this) (Nat.lt_irrefl _)
    · grind
  by_contra open_
  have open_ : (s'.mark j).squashed = false := by simpa using open_
  have same : ∀ {y : InstId} {c ws : List InstId}, s.buffer = c ++ y :: ws.reverse → y = x →
      ws = vs := by
    rintro y c ws split rfl
    have eq := buffer.symm.trans split
    have left : ∀ z ∈ b, z < y := fun z mem =>
      Tails.lt_of_split wf.ordered buffer mem (List.mem_cons_self ..)
    have left' : ∀ z ∈ c, z < y := fun z mem =>
      Tails.lt_of_split wf.ordered split mem (List.mem_cons_self ..)
    have drop : ∀ {l r : List InstId}, (∀ z ∈ l, z < y) → (l ++ y :: r).dropWhile (· < y) = y :: r := by
      intro l r low
      rw [dropWhile_append_of_pos (by simpa using low)]
      simp
    have := congrArg (List.dropWhile (· < y)) eq
    rw [drop left, drop left'] at this
    injection this with _ tails
    exact (List.reverse_inj.mp tails).symm
  rcases cause with ⟨rfl, -⟩ | ⟨rfl | rfl, -⟩
  · cases step with
    | squash split =>
      exact ((flag_squashed _ j).mp open_).2 (same split rfl ▸ victim)
  · cases step with
    | fault split =>
      exact ((flag_squashed _ j).mp open_).2 (mem_append_left _ (same split rfl ▸ victim))
  · cases step with
    | sendFault split =>
      exact ((flag_squashed _ j).mp open_).2 (mem_append_left _ (same split rfl ▸ victim))

theorem Wf.head_le (wf : s.Wf) (front : s.buffer.head? = some i) (mem : j ∈ s.buffer) : i ≤ j:= by
  obtain ⟨rest, buffer⟩ := List.head?_eq_some_iff.mp front
  have ordered := wf.ordered
  rw [buffer] at ordered mem
  rcases List.mem_cons.mp mem with rfl | later
  · exact Nat.le_refl _
  · exact Nat.le_of_lt ((List.pairwise_cons.mp ordered).1 j later)

theorem Step.pop_head (wf : s.Wf) (step : Step cfg s .pop s')
    (front : s.buffer.head? = some i) : ¬ s'.Live i := by
  intro live
  cases step with
  | @pop j rest buffer committed =>
    obtain rfl : j = i := by simpa [buffer] using front
    exact Tails.notMem_later (a := []) wf.ordered buffer live.1

/-- Only the front is committed: what a commit reaches from an older uncommitted
instruction is that instruction. -/
theorem Step.fired_commit_above (wf : s.Wf) (step : Step cfg s a s') {p q : InstId}
    (mem : p ∈ s.buffer) (le : p ≤ q) (uncommitted : (s'.mark p).fired .commit = 0)
    (pending : (s.mark q).fired .commit = 0) : (s'.mark q).fired .commit = 0 := by
  rw [step.fired wf, pending, Nat.zero_add]
  have other : a.announcement ≠ some (q, .commit) := by
    intro now
    have : a = .commit q := by cases a <;> simp_all [Action.announcement]
    subst this
    cases step with
    | commit front unsquashed pending status =>
      have first := wf.head_le front mem
      obtain rfl : p = q := Nat.le_antisymm le first
      simp [Mark.pass] at uncommitted
  simp [other]

theorem Step.deps_mono (wf : s.Wf) (step : Step cfg s a s') {c : InstId} {g : Gate}
    {d : Milestone × InstId} (dep : d ∈ (s.mark c).deps g)
    (issued : Status.issued ≤ (s.mark c).status) : d ∈ (s'.mark c).deps g := by
  rcases step.deps wf c g with same | ⟨rfl, -⟩ | ⟨other, -, -, more⟩
  · rwa [same]
  · cases step with
    | issue live status => grind [Status.le_iff, Status.rank]
  · rw [more]
    exact mem_append_left _ dep

theorem Step.issue_newest (wf : s.Wf) (step : Step cfg s (.issue i) s') : i + 1 = s.next:= by
  cases step with
  | issue live status =>
    exact wf.newest i live.1 (by simp [status, Status.lt_iff, Status.rank])

/-- Issue numbers increase in the order in which instructions were created. -/
structure IssueOrder (s : Order) : Prop where
  below : ∀ i, Status.issued ≤ (s.mark i).status → (s.mark i).number < s.issues
  increasing : ∀ i j, i < j → Status.issued ≤ (s.mark i).status →
    Status.issued ≤ (s.mark j).status → (s.mark i).number < (s.mark j).number

theorem Wf.lt_of_issued (wf : s.Wf) (issued : Status.issued ≤ (s.mark i).status) : i < s.next:= by
  by_contra old
  rw [wf.fresh i (Nat.le_of_not_lt old)] at issued
  simp [Status.le_iff, Status.rank] at issued

theorem Wf.older_issued (wf : s.Wf) (bound : j < s.next) (lt : i < j)
    (open_ : (s.mark i).squashed = false) : Status.issued ≤ (s.mark i).status := by
  by_cases inside : i ∈ s.buffer
  · by_contra early
    have newest := wf.newest i inside (Nat.lt_of_not_le early)
    exact absurd bound (Nat.not_lt.mpr (newest ▸ lt))
  · obtain ⟨-, status | ⟨-, status⟩⟩ := wf.left i (Nat.lt_trans lt bound) inside open_
    · simp [status, Status.le_iff, Status.rank]
    · simp [status, Status.le_iff, Status.rank]

theorem IssueOrder.step (wf : s.Wf) (h : IssueOrder s) (step : Step cfg s a s') :
    IssueOrder s' := by
  have issues : s.issues ≤ s'.issues := by
    cases step with
    | issue => exact Nat.le_succ _
    | _ => exact Nat.le_refl _
  have number : ∀ i, Status.issued ≤ (s.mark i).status →
      (s'.mark i).number = (s.mark i).number := fun i issued =>
    (step.static (wf.lt_of_issued issued) issued).2
  have new : ∀ i, a = .issue i → (s'.mark i).number = s.issues ∧ s'.issues = s.issues + 1 := by
    rintro i rfl
    cases step with
    | issue => simp
  refine ⟨fun i issued => ?_, fun i j lt first second => ?_⟩
  · rcases (step.issued_iff wf i).mp issued with old | now
    · rw [number i old]
      exact Nat.lt_of_lt_of_le (h.below i old) issues
    · obtain ⟨self, more⟩ := new i now
      omega
  · rcases (step.issued_iff wf i).mp first with old | rfl
    · rw [number i old]
      rcases (step.issued_iff wf j).mp second with also | now
      · rw [number j also]
        exact h.increasing i j lt old also
      · rw [(new j now).1]
        exact h.below i old
    · exfalso
      have newest := step.issue_newest wf
      rcases (step.issued_iff wf j).mp second with also | now
      · have bound := wf.lt_of_issued also
        exact absurd bound (Nat.not_lt.mpr (newest ▸ lt))
      · grind

theorem IssueOrder.lt_iff (h : IssueOrder s)
    (first : Status.issued ≤ (s.mark i).status) (second : Status.issued ≤ (s.mark j).status) :
    (s.mark i).number < (s.mark j).number ↔ i < j := by
  refine ⟨fun before => ?_, fun lt => h.increasing i j lt first second⟩
  rcases Nat.lt_trichotomy i j with lt | rfl | gt
  · exact lt
  · exact absurd before (Nat.lt_irrefl _)
  · exact absurd (h.increasing j i gt second first) (Nat.lt_asymm before)

end Order

theorem Guarded.issueOrder {cfg : Config} {tc : ThreadContext} {guard : Thread → Event → Prop}
    {t : Thread} (run : Guarded cfg tc guard t) : t.order.IssueOrder := by
  refine Guarded.ordered run ?_ fun o e t a s _ inv _ holds step => holds.step inv.wf step
  have early : ∀ i, ¬ Status.issued ≤ ((Thread.init cfg tc).order.mark i).status := by
    simp [Thread.order, Thread.init, InflightInst.mark, Status.le_iff, Status.rank]
  exact ⟨fun i issued => absurd issued (early i), fun i j _ issued => absurd issued (early i)⟩

end Gem5.FlexCPU
