import Gem5.FlexCPU.StatusOrder
import Gem5.FlexCPU.Resource
import Mathlib.Data.Nat.Pairing

/-!
# Squashed requests form a prefix

`clean_squashed` pops squashed entries from the front of a queue and stops at the
first live one. It leaves no squashed entry behind, because instructions enter the
queues of `issueThreadUnit` and `instFetchUnit` in program order and an instruction
that squashes others has left the issue queue.
-/

namespace Gem5.FlexCPU

open Thread List

/-- The instructions that wait in a queue, first in first. -/
def waiting (reqs : List Request) (unit : Queue) : List InstId :=
  (reqs.filter fun r => r.queue == some unit).map (·.inst)

section Waiting

variable {reqs before after : List Request} {r : Request} {unit : Queue} {i : InstId}

@[simp] theorem waiting_append (reqs more : List Request) :
    waiting (reqs ++ more) unit = waiting reqs unit ++ waiting more unit := by
  simp [waiting]

@[simp] theorem waiting_nil : waiting [] unit = [] := rfl

theorem waiting_other (other : r.queue ≠ some unit) : waiting [r] unit = [] := by
  simp [waiting, other]

theorem waiting_self (self : r.queue = some unit) : waiting [r] unit = [r.inst] := by
  simp [waiting, self]

theorem waiting_split :
    waiting (before ++ r :: after) unit
      = waiting before unit ++ (waiting [r] unit ++ waiting after unit) := by
  simp [waiting, List.filter_cons]
  split <;> simp

theorem waiting_none (none_ : ∀ q ∈ reqs, q.queue ≠ some unit) : waiting reqs unit = [] := by
  simp only [waiting, map_eq_nil_iff, filter_eq_nil_iff, beq_iff_eq]
  exact none_

theorem mem_waiting : i ∈ waiting reqs unit ↔ ∃ r ∈ reqs, r.queue = some unit ∧ r.inst = i := by
  simp [waiting, and_assoc]

theorem mem_waiting_issueTid : i ∈ waiting reqs .issueThreadUnit ↔ .issueTid i ∈ reqs := by
  rw [mem_waiting]
  constructor
  · rintro ⟨r, mem, unit, rfl⟩
    cases r <;> simp_all [Request.queue, Request.inst]
  · intro mem
    exact ⟨_, mem, rfl, rfl⟩

theorem mem_waiting_fetch : i ∈ waiting reqs .instFetchUnit ↔ ∃ vaddr, .fetch i vaddr ∈ reqs := by
  rw [mem_waiting]
  constructor
  · rintro ⟨r, mem, unit, rfl⟩
    cases r with
    | fetch j vaddr => exact ⟨vaddr, mem⟩
    | _ => simp [Request.queue] at unit
  · aesop

theorem waiting_front (first : ∀ q ∈ before, q.queue ≠ r.queue) (self : r.queue = some unit) :
    waiting (before ++ r :: after) unit = r.inst :: waiting (before ++ after) unit := by
  rw [waiting_split, waiting_append, waiting_none (by rwa [self] at first), waiting_self self]
  rfl

theorem waiting_behind (other : r.queue ≠ some unit) :
    waiting (before ++ r :: after) unit = waiting (before ++ after) unit := by
  rw [waiting_split, waiting_append, waiting_other other]
  rfl

end Waiting

/-- The two lines of a thread. Instructions behind a live one in the issue line have not
left that line either. -/
structure Lines (insts : Insts) (reqs : List Request) : Prop where
  tid : (waiting reqs .issueThreadUnit).Pairwise (· < ·)
  fetch : (waiting reqs .instFetchUnit).Pairwise (· < ·)
  behind : ∀ q ∈ waiting reqs .issueThreadUnit, (insts q).squashed = false →
    ∀ i, q < i → (insts i).squashed = false →
      (insts i).status < .issued
        ∨ (insts i).status = .issued ∧ i ∈ waiting reqs .issueThreadUnit
  squashed : ∀ q ∈ waiting reqs .issueThreadUnit, ∀ i ∈ waiting reqs .issueThreadUnit, q < i →
    (insts i).squashed = true → (insts q).squashed = true

section Lines

variable {insts insts' : Insts} {reqs reqs' before after : List Request} {r : Request}
variable {i : InstId} {x : InflightInst}

theorem Lines.requests (h : Lines insts reqs)
    (tid : waiting reqs' .issueThreadUnit = waiting reqs .issueThreadUnit)
    (fetch : waiting reqs' .instFetchUnit = waiting reqs .instFetchUnit) : Lines insts reqs' := by
  constructor
  · rw [tid]
    exact h.tid
  · rw [fetch]
    exact h.fetch
  · rw [tid]
    exact h.behind
  · rw [tid]
    exact h.squashed

theorem Lines.add (h : Lines insts reqs) (more : List Request)
    (tid : ∀ r ∈ more, r.queue ≠ some .issueThreadUnit)
    (fetch : ∀ r ∈ more, r.queue ≠ some .instFetchUnit) : Lines insts (reqs ++ more) :=
  h.requests (by rw [waiting_append, waiting_none tid, append_nil])
    (by rw [waiting_append, waiting_none fetch, append_nil])

theorem Lines.remove (h : Lines insts (before ++ r :: after))
    (first : r.queue.isSome = true → ∀ q ∈ before, q.queue ≠ r.queue) :
    Lines insts (before ++ after) := by
  by_cases tid : r.queue = some .issueThreadUnit
  · have line : waiting (before ++ r :: after) .issueThreadUnit
        = r.inst :: waiting (before ++ after) .issueThreadUnit :=
      waiting_front (first (by simp [tid])) tid
    have other : r.queue ≠ some .instFetchUnit := by simp [tid]
    have older := h.tid
    rw [line] at older
    obtain ⟨ahead, tail⟩ := List.pairwise_cons.mp older
    have inside : ∀ q ∈ waiting (before ++ after) .issueThreadUnit,
        q ∈ waiting (before ++ r :: after) .issueThreadUnit := by
      intro q mem
      rw [line]
      exact List.mem_cons_of_mem _ mem
    constructor
    · exact tail
    · rw [← waiting_behind other]
      exact h.fetch
    · intro q mem live i lt liveI
      rcases h.behind q (inside q mem) live i lt liveI with early | ⟨issued, waits⟩
      · exact Or.inl early
      · grind
    · intro q mem i memI
      exact h.squashed q (inside q mem) i (inside i memI)
  · have tidSame : waiting (before ++ r :: after) .issueThreadUnit
        = waiting (before ++ after) .issueThreadUnit := waiting_behind tid
    by_cases fetch : r.queue = some .instFetchUnit
    · have line : waiting (before ++ r :: after) .instFetchUnit
          = r.inst :: waiting (before ++ after) .instFetchUnit :=
        waiting_front (first (by simp [fetch])) fetch
      have older := h.fetch
      rw [line] at older
      constructor
      · rw [← tidSame]
        exact h.tid
      · exact (List.pairwise_cons.mp older).2
      · rw [← tidSame]
        exact h.behind
      · rw [← tidSame]
        exact h.squashed
    · exact h.requests tidSame.symm (waiting_behind fetch).symm

theorem Lines.congr (h : Lines insts reqs)
    (squashed : ∀ j, (insts' j).squashed = (insts j).squashed) (status : ∀ j, (insts' j).status =
    (insts j).status ∨ (insts' j).status < .issued ∨ Status.issued < (insts j).status ∨ (insts
    j).status = .issued ∧ j ∉ waiting reqs .issueThreadUnit) : Lines insts' reqs := by
  constructor
  · exact h.tid
  · exact h.fetch
  · intro q mem live i lt liveI
    rw [squashed] at live liveI
    have old := h.behind q mem live i lt liveI
    rcases status i with same | early | late | ⟨issued, left⟩
    · rwa [same]
    · exact Or.inl early
    · grind [Status.lt_iff]
    · grind [Status.lt_iff]
  · simp only [squashed]
    exact h.squashed

theorem Lines.update (h : Lines insts reqs) (squashed : x.squashed = (insts i).squashed) (status :
    x.status = (insts i).status ∨ x.status < .issued ∨ Status.issued < (insts i).status ∨ (insts
    i).status = .issued ∧ i ∉ waiting reqs .issueThreadUnit) :
    Lines (Function.update insts i x) reqs := by
  refine h.congr (keep (·.squashed) squashed) fun j => ?_
  by_cases self : j = i
  · subst self
    simpa using status
  · simp [self]

theorem Lines.keep (h : Lines insts reqs) (squashed : x.squashed = (insts i).squashed)
    (status : x.status = (insts i).status) : Lines (Function.update insts i x) reqs :=
  h.update squashed (Or.inl status)

/-- A squash of everything after `i` where nothing in the issue line is before `i` and
live while something is after it. -/
theorem Lines.flaggedAll (h : Lines insts reqs) {vs : List InstId} (below : ∀ q ∈ waiting reqs
    .issueThreadUnit, (insts q).squashed = false → q ∉ vs → ∀ v ∈ vs, v ∈ waiting reqs
    .issueThreadUnit → v < q) : Lines (FlexCPU.flaggedAll insts vs) reqs := by
  have unflagged : ∀ j, (FlexCPU.flaggedAll insts vs j).squashed = false →
      (insts j).squashed = false ∧ j ∉ vs := by
    intro j live
    unfold FlexCPU.flaggedAll at live
    split at live
    · cases live
    · exact ⟨live, by assumption⟩
  have status : ∀ j, (FlexCPU.flaggedAll insts vs j).status = (insts j).status := by
    intro j
    unfold FlexCPU.flaggedAll
    split <;> rfl
  constructor
  · exact h.tid
  · exact h.fetch
  · intro q mem live i lt liveI
    rw [status]
    exact h.behind q mem (unflagged q live).1 i lt (unflagged i liveI).1
  · intro q mem i memI lt dead
    by_contra alive
    obtain ⟨live, kept⟩ := unflagged q (by simpa using alive)
    by_cases victim : i ∈ vs
    · exact absurd lt (Nat.lt_asymm (below q mem live kept i victim memI))
    · have old : (insts i).squashed = true := by simpa [FlexCPU.flaggedAll, victim] using dead
      rw [h.squashed q mem i memI lt old] at live
      cases live

end Lines

section Moves

variable {cfg : Config} {o : Thread} {e : Event} {t t' : Thread} {i : InstId}

theorem Core.newest_live (core : Core cfg t) (lt : i < t.nextInst)
    (live : (t.insts i).squashed = false) (early : (t.insts i).status < .issued) :
    i + 1 = t.nextInst := by
  refine core.heap.newest i ?_ early
  by_contra outside
  obtain ⟨-, status⟩ := core.milestones.left i lt outside live
  rcases status with eq | ⟨-, eq⟩
  · simp [eq, Status.lt_iff, Status.rank] at early
  · simp [eq, Status.lt_iff, Status.rank] at early

theorem Core.waiting_lt (core : Core cfg t) {unit : Queue} (mem : i ∈ waiting t.requests unit) :
    i < t.nextInst := by
  obtain ⟨r, inside, -, rfl⟩ := mem_waiting.mp mem
  exact core.heap.requests_lt r inside

theorem Core.waiting_issued (core : Core cfg t) (mem : i ∈ waiting t.requests .issueThreadUnit)
    (live : (t.insts i).squashed = false) : (t.insts i).status = .issued :=
  core.tokens.request_fits _ (mem_waiting_issueTid.mp mem) live

theorem Core.waiting_buffered (core : Core cfg t) (mem : i ∈ waiting t.requests .issueThreadUnit)
    (live : (t.insts i).squashed = false) : i ∈ t.inflightInsts := by
  by_contra outside
  have issued := core.waiting_issued mem live
  obtain ⟨-, status⟩ := core.milestones.left i (core.waiting_lt mem) outside live
  rw [issued] at status
  simp at status

theorem Thread.Idle.not_waiting {s : Status} (idle : t.Idle i s) (unit : Queue)
    (managed : unit = .issueThreadUnit ∨ unit = .instFetchUnit) : i ∉ waiting t.requests unit := by
  intro mem
  obtain ⟨r, mem, queue, same⟩ := mem_waiting.mp mem
  have token : r.isToken i = true := by
    rcases managed with rfl | rfl
    · cases r <;> simp_all [Request.queue, Request.isToken, Request.carries]
    · cases r <;> simp_all [Request.queue, Request.isToken, Request.carries]
  have stage := idle.stage
  have := List.countP_pos_iff.mpr ⟨r, mem, token⟩
  unfold FlexCPU.stage at stage
  omega

theorem Lines.squash (h : Lines t.insts t.requests) (core : Core cfg t) {a vs : List InstId}
    (buffer : t.inflightInsts = a ++ i :: vs.reverse) (live : (t.insts i).squashed = false)
    (left : i ∉ waiting t.requests .issueThreadUnit) {q : InstId}
    (mem : q ∈ waiting t.requests .issueThreadUnit) (liveQ : (t.insts q).squashed = false)
    (kept : q ∉ vs) (other : q ≠ i) :
    ∀ v ∈ vs, v ∈ waiting t.requests .issueThreadUnit → v < q := by
  intro v victim memV
  have above : i < v := Tails.lt_of_later core.heap.ordered buffer (List.mem_reverse.mpr victim)
  have inside := core.waiting_buffered mem liveQ
  rw [buffer] at inside
  have older : q < i := by
    rcases List.mem_append.mp inside with left | tail
    · exact Tails.lt_of_split core.heap.ordered buffer left (List.mem_cons_self ..)
    · grind
  have bound : i < t.nextInst := core.heap.bounded i (by rw [buffer]; simp)
  rcases h.behind q mem liveQ i older live with early | ⟨-, waits⟩
  · have newest := core.newest_live bound live early
    have := core.waiting_lt memV
    rw [← newest] at this
    exact absurd above (Nat.not_lt.mpr (Nat.lt_succ_iff.mp this))
  · exact absurd waits left

theorem Lines.freeBranchPredDepth (h : Lines t.insts t.requests) :
    Lines t.freeBranchPredDepth.insts t.freeBranchPredDepth.requests := by
  rcases t.freeBranchPredDepth_cases with ⟨u, -, -, -, -, eq⟩ | ⟨waiting, -, eq⟩
  · rw [eq]
    refine Lines.add ?_ [.bpred u] (by simp [Request.queue]) (by simp [Request.queue])
    exact h.keep rfl rfl
  · rw [eq]
    exact h

theorem Lines.requestMem (h : Lines t.insts t.requests) :
    Lines (t.requestMem i).insts (t.requestMem i).requests := by
  unfold Thread.requestMem
  split
  · exact h
  · split
    · exact h
    · refine h.add _ ?_ ?_
      · grind [Request.queue]
      · grind [Request.queue]

theorem Lines.extend (h : Lines t.insts t.requests) (fresh : (t.insts t.nextInst).squashed = false)
    {pc : PCState} : Lines (t.extend pc).insts (t.extend pc).requests := by
  refine h.update ?_ (Or.inr (Or.inl ?_))
  · rw [fresh]
    rfl
  · simp [Thread.freshInst, Status.lt_iff, Status.rank]

theorem Lines.markFault (h : Lines t.insts t.requests) (core : Core cfg t)
    (mem : i ∈ t.inflightInsts) (live : (t.insts i).squashed = false) (quiet : t.Quiet)
    (left : i ∉ waiting t.requests .issueThreadUnit) (f : Fault) :
    Lines (t.markFault cfg i f).insts (t.markFault cfg i f).requests := by
  obtain ⟨a, vs, w, buffer, -, eq⟩ := markFault_spec core mem live quiet f
  rw [eq]
  have faulted : Lines (faulty t i f).insts t.requests := h.keep rfl rfl
  refine faulted.flaggedAll ?_
  intro q inLine liveQ kept v victim memV
  obtain ⟨notVictim, other⟩ : q ∉ vs ∧ q ≠ i := by simpa using kept
  have liveQ' : (t.insts q).squashed = false := by
    rwa [show (faulty t i f).insts q = t.insts q from Function.update_of_ne other _ _] at liveQ
  rcases List.mem_append.mp victim with victim | self
  · exact h.squash core buffer live left inLine liveQ' notVictim other v victim memV
  · grind

theorem Lines.decrement {g : Gate} (h : Lines t.insts t.requests) :
    Lines (t.decrement g i).insts (t.decrement g i).requests := by
  unfold Thread.decrement
  split
  · have lower : Lines (t.update i (·.decrement g)).insts t.requests := h.keep rfl rfl
    dsimp only
    split
    · exact lower
    · exact lower
  · exact h

theorem Lines.overlap {cb : Callback} {other : InstId} (h : Lines t.insts t.requests)
    (kind : cb = .overlapKnown i other ∨ cb = .overlapOurs i other ∨ cb = .overlapTheirs i other)
    (fine : (t.runCallback cfg cb).panicked = none) :
    Lines (t.runCallback cfg cb).insts (t.runCallback cfg cb).requests := by
  rcases runOverlap_cases t kind fine with same | new
  · rwa [same]
  · rw [new]
    have form := register_eq t i (.depend .mem .completion other)
    change t.addDependency i .mem .completion other = _ at form
    rw [form]
    exact h.congr (fun _ => rfl) fun _ => Or.inl rfl

theorem Lines.enqueue {r : Request} (h : Lines t.insts t.requests) (core : Core cfg t)
    (token : r.isToken i = true)
    (fits : (t.insts i).squashed = true ∨ t.Idle i (t.insts i).status ∧ r.Fits (t.insts i)) (unit :
    r.queue ≠ some .issueThreadUnit ∧ (r.queue = some .instFetchUnit → (t.insts i).squashed =
    false)) : Lines t.insts (t.requests ++ [r]) := by
  obtain ⟨other, alive⟩ := unit
  have tidSame : waiting (t.requests ++ [r]) .issueThreadUnit
      = waiting t.requests .issueThreadUnit := by
    rw [waiting_append, waiting_other other, append_nil]
  by_cases fetch : r.queue = some .instFetchUnit
  · have live := alive fetch
    have same : r.inst = i := by
      simp only [Request.isToken, Bool.and_eq_true, beq_iff_eq] at token
      exact token.2
    obtain ⟨idle, empty⟩ : t.Idle i (t.insts i).status ∧ (t.insts i).status = .empty := by
      rcases fits with dead | ⟨idle, fits⟩
      · rw [dead] at live
        cases live
      · cases r with
        | fetch => exact ⟨idle, fits⟩
        | _ => simp [Request.queue] at fetch
    have newest := core.heap.newest i idle.mem (by simp [empty, Status.lt_iff, Status.rank])
    constructor
    · rw [tidSame]
      exact h.tid
    · rw [waiting_append, waiting_self fetch, same]
      refine List.pairwise_append.mpr ⟨h.fetch, pairwise_singleton _ _, ?_⟩
      intro q mem j self
      rw [List.mem_singleton.mp self]
      have bound := core.waiting_lt mem
      rw [← newest] at bound
      refine Nat.lt_of_le_of_ne (Nat.lt_succ_iff.mp bound) fun eq => ?_
      rw [eq] at mem
      exact idle.not_waiting .instFetchUnit (Or.inr rfl) mem
    · rw [tidSame]
      exact h.behind
    · rw [tidSame]
      exact h.squashed
  · exact h.requests tidSame (by rw [waiting_append, waiting_other fetch, append_nil])

theorem Lines.join {insts : Insts} (h : Lines t.insts t.requests) (core : Core cfg t)
    (idle : t.Idle i .decoded) (squashed : ∀ j, (insts j).squashed = (t.insts j).squashed)
    (issued : (insts i).status = .issued)
    (others : ∀ j, j ≠ i → (insts j).status = (t.insts j).status) :
    Lines insts (t.requests ++ [.issueTid i]) := by
  have newest := core.heap.newest i idle.mem (by simp [idle.status, Status.lt_iff, Status.rank])
  have line : waiting (t.requests ++ [.issueTid i]) .issueThreadUnit
      = waiting t.requests .issueThreadUnit ++ [i] := by
    rw [waiting_append]
    rfl
  have below : ∀ q ∈ waiting t.requests .issueThreadUnit, q < i := by
    intro q mem
    have bound := core.waiting_lt mem
    rw [← newest] at bound
    refine Nat.lt_of_le_of_ne (Nat.lt_succ_iff.mp bound) fun eq => ?_
    rw [eq] at mem
    exact idle.not_waiting .issueThreadUnit (Or.inl rfl) mem
  constructor
  · rw [line]
    refine List.pairwise_append.mpr ⟨h.tid, pairwise_singleton _ _, ?_⟩
    intro q mem j self
    rw [List.mem_singleton.mp self]
    exact below q mem
  · rw [waiting_append, waiting_other (by simp [Request.queue]), append_nil]
    exact h.fetch
  · rw [line]
    intro q mem live j lt liveJ
    by_cases self : j = i
    · subst self
      exact Or.inr ⟨issued, by simp⟩
    · rw [others j self]
      rw [squashed] at live liveJ
      rcases List.mem_append.mp mem with old | new
      · rcases h.behind q old live j lt liveJ with early | ⟨eq, waits⟩
        · exact Or.inl early
        · exact Or.inr ⟨eq, mem_append_left _ waits⟩
      · rw [List.mem_singleton.mp new] at lt
        have fresh := core.heap.fresh j (by rw [← newest]; exact lt)
        left
        rw [fresh]
        simp [Status.lt_iff, Status.rank]
  · rw [line]
    intro q mem j memJ lt dead
    rw [squashed] at dead ⊢
    rcases List.mem_append.mp memJ with oldJ | newJ
    · rcases List.mem_append.mp mem with old | new
      · exact h.squashed q old j oldJ lt dead
      · grind
    · grind [idle.unsquashed]

theorem Lines.issue (h : Lines t.insts t.requests) (core : Core cfg t) (idle : t.Idle i .decoded) :
    Lines (t.enterIssue cfg i).insts (t.enterIssue cfg i).requests := by
  rw [Thread.enterIssue_eq]
  refine h.join core idle ?_ ?_ ?_
  · intro j
    exact (FlexCPU.keep (s := issuedInsts cfg t i) (x := issuedInst cfg t i) (·.squashed) rfl j).trans
      (restatus_squashed ..)
  · refine (FlexCPU.keep (s := issuedInsts cfg t i) (x := issuedInst cfg t i) (·.status) rfl i).trans ?_
    simp [issuedInsts]
  · intro j other
    refine (FlexCPU.keep (s := issuedInsts cfg t i) (x := issuedInst cfg t i) (·.status) rfl j).trans ?_
    simp [issuedInsts, restatus, other]

theorem Thread.Idle.beyond {s : Status} (idle : t.Idle i s) (late : Status.issued ≤ s) :
    Status.issued < (t.insts i).status
      ∨ (t.insts i).status = .issued ∧ i ∉ waiting t.requests .issueThreadUnit := by
  rw [idle.status]
  rcases Nat.lt_or_eq_of_le late with later | eq
  · exact Or.inl later
  · exact Or.inr ⟨(Status.rank_inj eq).symm, idle.not_waiting .issueThreadUnit (Or.inl rfl)⟩

theorem Inv.linesMove (inv : Inv cfg t) (h : Lines t.insts t.requests)
    (move : Move cfg o e t t') : Lines t'.insts t'.requests := by
  have core := inv.toCore
  have fresh : (t.insts t.nextInst).squashed = false := by
    rw [core.heap.fresh t.nextInst (Nat.le_refl _)]
  have late : ∀ {i s}, t.Idle i s → Status.issued ≤ s → ∀ {x : InflightInst},
      x.squashed = (t.insts i).squashed → Lines (Function.update t.insts i x) t.requests :=
    fun idle le _ squashed => h.update squashed (Or.inr (Or.inr (idle.beyond le)))
  cases move with
  | drop serves spent calls =>
    rw [serves.split] at h
    exact h.remove serves.first
  | enqueue token fits unit => exact h.enqueue core token fits unit
  | decode => exact h.update rfl (Or.inr (Or.inl (by simp [Status.lt_iff, Status.rank])))
  | issue idle back calls served origin => exact h.issue core idle
  | extend => exact h.extend fresh
  | @reserve i can depth other calls =>
    refine Lines.add ?_ [.bpred i] (by simp [Request.queue]) (by simp [Request.queue])
    exact h.keep rfl rfl
  | release serves calls =>
    rw [serves.split] at h
    exact Lines.freeBranchPredDepth (t := { t with requests := _ }) (h.remove serves.first)
  | predictStall serves can calls full active micro =>
    rw [serves.split] at h
    exact (h.remove serves.first).keep rfl rfl
  | @predictExtend i before after pc serves can calls room active micro =>
    rw [serves.split] at h
    refine Lines.extend (t := ({ t with requests := before ++ after }).holdSlot i) ?_ ?_
    · exact (h.remove serves.first).keep rfl rfl
    · exact (setSquash_squashed ..).trans fresh
  | enterTid idle calls ready => exact late idle (Nat.le_refl _) rfl
  | waitTid idle calls unready =>
    refine Lines.keep ?_ rfl rfl
    exact late idle (Nat.le_refl _) rfl
  | execute idle ready below origin => exact late idle (by simp [Status.le_iff, Status.rank]) rfl
  | @requestExecution i idle once below =>
    refine Lines.add ?_ [.exec i] (by simp [Request.queue]) (by simp [Request.queue])
    exact late idle (by simp [Status.le_iff, Status.rank]) rfl
  | setAccess | execResult | awaitMem => exact h.keep rfl rfl
  | loadResult serves read calls =>
    rw [serves.split] at h
    exact (h.remove serves.first).keep rfl rfl
  | @complete i unsquashed allocated stage pending packets status calls served =>
    refine h.update rfl (Or.inr (Or.inr (Or.inl ?_)))
    rcases status with ⟨-, eq, -⟩ | ⟨-, eq, -⟩ | ⟨eq, -⟩
    all_goals simp [eq, Status.lt_iff, Status.rank]
  | setPAddrs =>
    refine h.keep ?_ ?_
    · split <;> rfl
    · split <;> rfl
  | effAddr idle twice memRef calls => exact late idle (by simp [Status.le_iff, Status.rank]) rfl
  | sendLoad can load =>
    refine Lines.requestMem ?_
    exact late can.toIdle (by simp [Status.le_iff, Status.rank]) rfl
  | @sendStore i vals can store =>
    refine Lines.requestMem (t := (t.enterMemory i).update i (·.setResults vals)) ?_
    refine Lines.keep ?_ rfl rfl
    exact late can.toIdle (by simp [Status.le_iff, Status.rank]) rfl
  | @sendFault i f can store =>
    have sent : Lines (t.enterMemory i).insts (t.enterMemory i).requests :=
      late can.toIdle (by simp [Status.le_iff, Status.rank]) rfl
    have idle := can.toIdle.enterMemory
    exact sent.markFault (inv.toCore.enterMemory can.toIdle can.ready) idle.mem idle.unsquashed
      (can.quiet store) (idle.not_waiting .issueThreadUnit (Or.inl rfl)) f
  | @fault i f idle kind packets calls cause =>
    exact h.markFault core idle.mem idle.unsquashed (by simp [Quiet, calls])
      (idle.not_waiting .issueThreadUnit (Or.inl rfl)) f
  | @transmit p before after serves alive calls =>
    rw [serves.split] at h
    exact (h.remove serves.first).add [.memResp p] (by simp [Request.queue])
      (by simp [Request.queue])
  | decrement calls => exact Lines.decrement (t := { t with calls := _ }) h
  | overlap calls kind fine => exact Lines.overlap (t := { t with calls := _ }) h kind fine
  | resolveCorrect calls predictor followed correct =>
    exact Lines.freeBranchPredDepth (t := { t with calls := _ }) h
  | @resolveWrong i rest calls predictor followed =>
    have resolving : Call.resolveControl i ∈ t.calls := by simp [calls]
    have complete := (core.stack.resolving i resolving).1
    have live := (core.stack.protects _ resolving rfl i rfl).2
    obtain ⟨u, a, vs, w, rfl, coreU, buffer, bufferU, -, -, eq⟩ := resolveWrong_spec core calls
    rw [eq]
    have freed := Lines.freeBranchPredDepth (t := { t with calls := rest }) h
    have liveU := (freeBranchPredDepth_field { t with calls := rest } (·.squashed)
      (fun _ _ => rfl) i).trans live
    have completeU := (freeBranchPredDepth_field { t with calls := rest } (·.status)
      (fun _ _ => rfl) i).trans complete
    have left : i ∉ waiting ({ t with calls := rest }).freeBranchPredDepth.requests
        .issueThreadUnit := by
      intro mem
      rw [coreU.waiting_issued mem liveU] at completeU
      cases completeU
    refine freed.flaggedAll ?_
    intro q mem liveQ kept
    refine freed.squash coreU (bufferU.trans buffer) liveU left mem liveQ kept fun same => ?_
    exact left (same ▸ mem)
  | commit front unsquashed status quiet =>
    refine h.update rfl (Or.inr (Or.inr (Or.inl ?_)))
    rcases status with eq | ⟨eq, -⟩
    all_goals simp [eq, Status.lt_iff, Status.rank]
  | _ => exact h

end Moves

variable {cfg : Config} {tc : ThreadContext} {t : Thread}

theorem Reachable.lines (reach : Reachable cfg tc t) : Lines t.insts t.requests := by
  refine Guarded.invariant (P := fun t => Lines t.insts t.requests) reach ?_ (fun _ _ h => h) ?_
  · constructor <;> simp [Thread.init]
  · intro o e t t' _ _ _ inv h move
    exact inv.linesMove h move

theorem Reachable.squashed_first (reach : Reachable cfg tc t) {unit : Queue}
    (managed : unit = .issueThreadUnit ∨ unit = .instFetchUnit) :
    (waiting t.requests unit).Pairwise fun q i =>
      (t.insts i).squashed = true → (t.insts q).squashed = true := by
  have lines := Reachable.lines reach
  have core := (Guarded.inv reach).toCore
  rcases managed with rfl | rfl
  · refine lines.tid.imp_of_mem ?_
    intro q i mem memI lt
    exact lines.squashed q mem i memI lt
  · refine lines.fetch.imp_of_mem ?_
    intro q i mem memI lt _
    by_contra alive
    have live : (t.insts q).squashed = false := by simpa using alive
    obtain ⟨vaddr, inside⟩ := mem_waiting_fetch.mp mem
    have empty : (t.insts q).status = .empty := core.tokens.request_fits _ inside live
    have newest := core.newest_live (core.waiting_lt mem) live
      (by simp [empty, Status.lt_iff, Status.rank])
    have bound := core.waiting_lt memI
    rw [← newest] at bound
    exact absurd lt (Nat.not_lt.mpr (Nat.lt_succ_iff.mp bound))

/-- What the selection functions see of an instruction. -/
def InflightInst.view (x : InflightInst) : FrontView :=
  ⟨x.squashed, x.isReady, x.staticInst.isControl, x.staticInst.isMemRef⟩

/-- A managed unit whose queues hold the requests of the threads. -/
def Resource.holding (r : Resource Unit) (prm : ResourceParams) (ts : Nat → Thread)
    (unit : Queue) : Resource Unit :=
  { r with
    queues := fun tid =>
      if tid < prm.threads then
        (waiting (ts tid).requests unit).map fun i => ⟨i, 0, Nat.pair tid i, ()⟩
      else []
    view := fun name => ((ts name.unpair.1).insts name.unpair.2).view }

/-- The class of the two managed units. -/
def ResourceParams.Manages (prm : ResourceParams) (unit : Queue) : Prop :=
  unit = .issueThreadUnit ∧ (∃ policy, prm.cls = .resourceThreadsManaged policy)
    ∨ unit = .instFetchUnit ∧ prm.cls = .resourceFetchDecision

/-- In the queues of `issueThreadUnit` and `instFetchUnit` the squashed entries come
first; `clean_squashed` leaves none, and none is at the front of the selected queue. -/
theorem squashed_requests_form_prefix {cfg : Nat → Config} {tc : Nat → ThreadContext}
    {ts : Nat → Thread} (reach : ∀ tid, Reachable (cfg tid) (tc tid) (ts tid))
    {prm : ResourceParams} {unit : Queue} (managed : prm.Manages unit) (r : Resource Unit) :
    (∀ tid, ((r.holding prm ts unit).queues tid).Pairwise fun q p =>
        (r.holding prm ts unit).squashed p = true → (r.holding prm ts unit).squashed q = true)
      ∧ (∀ tid, ∀ q ∈ ((r.holding prm ts unit).cleanSquashed prm).queues tid,
        (r.holding prm ts unit).squashed q = false)
      ∧ ∀ rand tid, (((r.holding prm ts unit).cleanSquashed prm).select prm rand).1 = some tid →
        ∀ view, ((r.holding prm ts unit).cleanSquashed prm).frontView tid = some view →
          view.isSquashed = false := by
  have units : unit = .issueThreadUnit ∨ unit = .instFetchUnit := by
    rcases managed with ⟨eq, -⟩ | ⟨eq, -⟩
    · exact Or.inl eq
    · exact Or.inr eq
  have queues : prm.queues = prm.threads := by
    unfold ResourceParams.queues
    rcases managed with ⟨-, policy, eq⟩ | ⟨-, eq⟩ <;> rw [eq]
  have first : ∀ tid, ((r.holding prm ts unit).queues tid).Pairwise fun q p =>
      (r.holding prm ts unit).squashed p = true → (r.holding prm ts unit).squashed q = true := by
    intro tid
    simp only [Resource.holding]
    split
    · refine List.pairwise_map.mpr ?_
      have line := Reachable.squashed_first (reach tid) units
      simpa [Resource.squashed, InflightInst.view] using line
    · exact List.Pairwise.nil
  have clean : ∀ tid, ∀ q ∈ ((r.holding prm ts unit).cleanSquashed prm).queues tid,
      (r.holding prm ts unit).squashed q = false := by
    intro tid q mem
    simp only [Resource.cleanSquashed, queues] at mem
    split at mem
    · rw [Cuts.dropWhile_eq_filter (first tid)] at mem
      simpa using (List.mem_filter.mp mem).2
    · rename_i outside
      simp [Resource.holding, outside] at mem
  refine ⟨first, clean, ?_⟩
  intro rand tid _ view front
  obtain ⟨q, head, rfl⟩ := Option.map_eq_some_iff.mp front
  exact clean tid q (List.mem_of_mem_head? head)


/-- The first instruction faults when it is executed. -/
def faultConfig : Config := .sample fun word =>
  if word = 3 then { StaticInst.nop with execute := fun _ _ _ => .error 0 } else .nop

def faultProgram : Answer := { fetched := fun addr => if addr = 0x1000 then 3 else 7 }

/-- The second instruction waits in the issue line when the first one faults, and the
first one of the handler joins it there. -/
def faultRun : List Event :=
  Event.firstFetch faultProgram ++ Event.served {} 0 2 ++ Event.served {} 0 4
    ++ Event.served {} 0 2 ++ Event.served {} 0 0 ++ Event.served {} 2 8
    ++ Event.served {} 2 0 ++ Event.served {} 2 0 ++ Event.served { fetched := fun _ => 7 } 2 3
    ++ Event.served {} 1 0 ++ Event.served {} 1 2

def faultUnit : ResourceParams := ⟨.resourceThreadsManaged .roundRobin, 1, 0, 1, 500⟩

theorem squashed_requests_form_prefix_fault :
    ((({} : Resource Unit).holding faultUnit (fun _ => Thread.play faultConfig .boot faultRun)
          .issueThreadUnit).queues 0).map (·.id) = [1, 3]
      ∧ ∀ q ∈ ((({} : Resource Unit).holding faultUnit
            (fun _ => Thread.play faultConfig .boot faultRun)
            .issueThreadUnit).cleanSquashed faultUnit).queues 0,
          (({} : Resource Unit).holding faultUnit
            (fun _ => Thread.play faultConfig .boot faultRun) .issueThreadUnit).squashed q
              = false := by
  refine ⟨by decide +kernel, ?_⟩
  exact ( squashed_requests_form_prefix (fun _ => Thread.reachable_play faultConfig .boot faultRun)
    (Or.inl ⟨rfl, .roundRobin, rfl⟩) {}).2.1 0

end Gem5.FlexCPU
