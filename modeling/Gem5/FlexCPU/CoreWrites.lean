import Gem5.FlexCPU.CoreFaults

/-!
# Outstanding writes are out of reach of a squash

A store is sent to memory when everything older has committed. What squashes is
itself in the buffer and uncommitted, so a write is never squashed while it is
outstanding.
-/

namespace Gem5.FlexCPU

open Thread

section Groups

variable {insts insts' : Insts} {buf buf' : List InstId} {reqs reqs' : List Request} {i : InstId}

theorem Writes.congr (h : Writes insts buf reqs)
    (squashed : ∀ j, (insts' j).squashed = (insts j).squashed)
    (fired : ∀ j, (insts' j).fired .commit = (insts j).fired .commit) : Writes insts' buf reqs := by
  simpa only [Writes, squashed, fired] using h

theorem Writes.update {x : InflightInst} (h : Writes insts buf reqs)
    (squashed : x.squashed = (insts i).squashed)
    (fired : x.fired .commit = (insts i).fired .commit) :
    Writes (Function.update insts i x) buf reqs :=
  h.congr (keep (·.squashed) squashed) (keep (·.fired .commit) fired)

theorem Writes.requests (h : Writes insts buf reqs)
    (packets : ∀ r ∈ reqs', ∀ p, r.packet = some p → ∃ q ∈ reqs, q.packet = some p) :
    Writes insts buf reqs' := by
  intro r mem p eq write
  obtain ⟨q, inside, same⟩ := packets r mem p eq
  exact h q inside p same write

theorem Writes.shrink (h : Writes insts buf reqs) (fewer : ∀ j ∈ buf', j ∈ buf) :
    Writes insts buf' reqs := fun r mem p eq write =>
  ⟨(h r mem p eq write).1, fun j inside => (h r mem p eq write).2 j (fewer j inside)⟩

theorem Writes.append (h : Writes insts buf reqs) (new : List Request)
    (other : ∀ r ∈ new, r.packet = none) : Writes insts buf (reqs ++ new) :=
  h.requests fun r mem p eq => by
    rcases List.mem_append.mp mem with old | added
    · exact ⟨r, old, eq⟩
    · rw [other r added] at eq
      cases eq

theorem Writes.remove {r : Request} {before after : List Request}
    (h : Writes insts buf (before ++ r :: after)) : Writes insts buf (before ++ after) :=
  h.requests fun q mem p eq => ⟨q, by
    rcases List.mem_append.mp mem with front | back
    · exact List.mem_append_left _ front
    · exact List.mem_append_right _ (List.mem_cons_of_mem r back), eq⟩

theorem Writes.flaggedAll {a vs : List InstId} (h : Writes insts buf reqs)
    (buffer : buf = a ++ i :: vs.reverse) (ordered : buf.Pairwise (· < ·))
    (uncommitted : (insts i).fired .commit = 0) : Writes (flaggedAll insts vs) (a ++ [i]) reqs := by
  intro r mem p eq write
  obtain ⟨unsquashed, older⟩ := h r mem p eq write
  have kept : p.inst ∉ vs := by grind
  have fired : ∀ j, (FlexCPU.flaggedAll insts vs j).fired .commit = (insts j).fired .commit := by
    intro j
    unfold FlexCPU.flaggedAll
    split <;> rfl
  refine ⟨by simpa [FlexCPU.flaggedAll, kept] using unsquashed, fun j inside lt => ?_⟩
  rw [fired]
  refine older j ?_ lt
  rw [buffer]
  simpa using Or.imp_right Or.inl (List.mem_append.mp inside)

end Groups

section Moves

variable {cfg : Config} {o : Thread} {e : Event} {t t' : Thread} {i : InstId}

theorem Writes.freeBranchPredDepth (h : Writes t.insts t.inflightInsts t.requests) :
    Writes t.freeBranchPredDepth.insts t.freeBranchPredDepth.inflightInsts
      t.freeBranchPredDepth.requests := by
  rcases t.freeBranchPredDepth_cases with ⟨u, -, -, -, -, eq⟩ | ⟨waiting, -, eq⟩
  · rw [eq]
    refine Writes.append ?_ [.bpred u] (by simp [Request.packet])
    exact h.update rfl rfl
  · rw [eq]
    exact h

theorem Writes.extend {pc : PCState} (h : Writes t.insts t.inflightInsts t.requests)
    (core : Core cfg t) :
    Writes (t.extend pc).insts (t.extend pc).inflightInsts (t.extend pc).requests := by
  have squashed : ∀ j, (allocated t pc j).squashed = (t.insts j).squashed :=
    core.keepFresh (·.squashed) rfl
  have fired : ∀ j, (allocated t pc j).fired = (t.insts j).fired := core.keepFresh (·.fired) rfl
  intro r mem p eq write
  obtain ⟨unsquashed, older⟩ := h r mem p eq write
  refine ⟨(squashed p.inst).trans unsquashed, fun j inside lt => ?_⟩
  refine (congrFun (fired j) _).trans (older j ?_ lt)
  refine (List.mem_append.mp inside).resolve_right fun new => ?_
  obtain rfl : j = t.nextInst := by simpa using new
  have bound := core.heap.requests_lt r mem
  have same : r.inst = p.inst := by cases r <;> simp_all [Request.packet, Request.inst]
  rw [same] at bound
  exact Nat.lt_asymm lt bound

theorem Writes.markFault (h : Writes t.insts t.inflightInsts t.requests) (core : Core cfg t)
    (mem : i ∈ t.inflightInsts) (unsquashed : (t.insts i).squashed = false) (quiet : t.Quiet)
    (uncommitted : (t.insts i).fired .commit = 0)
    (packets : t.requests.any (awaitsPacket i) = false) (f : Fault) :
    Writes (t.markFault cfg i f).insts (t.markFault cfg i f).inflightInsts
      (t.markFault cfg i f).requests := by
  obtain ⟨a, vs, w, buffer, -, eq⟩ := markFault_spec core mem unsquashed quiet f
  rw [eq]
  change Writes (FlexCPU.flaggedAll (faulty t i f).insts (vs ++ [i])) (a ++ [i]) t.requests
  have marked : Writes (faulty t i f).insts t.inflightInsts t.requests := h.update rfl rfl
  have cut := marked.flaggedAll buffer core.heap.ordered
    ((keep (x := { t.insts i with fault := some f }) (·.fired .commit) rfl i).trans uncommitted)
  rw [← flaggedAll_append]
  intro r inside p eq write
  have ne : p.inst ≠ i := by
    have none := List.any_eq_false.mp packets r inside
    cases r <;> simp_all [Request.packet, awaitsPacket]
  obtain ⟨open_, older⟩ := cut r inside p eq write
  rw [flagged_of_ne _ _ ne]
  refine ⟨open_, fun j mem lt => ?_⟩
  rw [flagged_fired]
  exact older j mem lt

theorem Core.older_committed (inv : Core cfg t) (can : t.CanSend i)
    (store : (t.insts i).staticInst.isStore = true) :
    ∀ j ∈ t.inflightInsts, j < i → (t.insts j).fired .commit = 1 := by
  intro j mem lt
  by_contra open_
  have le := inv.milestones.fired_le j .commit
  have none : (t.insts j).fired .commit = 0 := by
    simp only [Milestone.announcements] at le
    omega
  obtain ⟨q, -, dep, silent⟩ := inv.stores i can.mem can.unsquashed store
    (by simp [can.status, Status.le_iff, Status.rank]) j mem lt none
  have paid : owed t.insts t.calls .mem i = 0 :=
    (inv.owed_mem can.mem can.unsquashed).symm.trans can.ready
  have due : 0 < due t.insts .mem i :=
    Latch.due_pos dep (by simp [silent, Milestone.announcements])
  unfold owed at paid
  omega

theorem Core.unsent (inv : Core cfg t) (unsquashed : (t.insts i).squashed = false)
    (early : (t.insts i).status < .memorying) : t.requests.any (awaitsPacket i) = false := by
  refine List.any_eq_false.mpr fun r inside packet => ?_
  have self : r.inst = i ∧ r.carries = false := by
    cases r <;> simp_all [awaitsPacket, Request.inst, Request.carries]
  have := inv.inert_bpred unsquashed early inside self.1 self.2
  rw [this] at packet
  simp [awaitsPacket] at packet

theorem requestMem_packets (t : Thread) (i : InstId) :
    ∃ new, t.requestMem i = { t with requests := t.requests ++ new }
      ∧ ∀ r ∈ new, ∀ p, r.packet = some p →
        p.inst = i ∧ p.write = (t.insts i).staticInst.isStore := by
  unfold Thread.requestMem
  split
  · exact ⟨[], by simp, by simp⟩
  · split
    · exact ⟨[], by simp, by simp⟩
    · refine ⟨_, rfl, fun r mem p eq => ?_⟩
      obtain ⟨q, inside, rfl⟩ := List.mem_map.mp mem
      obtain ⟨h, -, rfl⟩ := List.mem_map.mp inside
      split at eq
      · grind [Request.packet]
      · grind [Request.packet]

theorem Writes.requestMem (h : Writes t.insts t.inflightInsts t.requests) (sound : (t.insts
    i).staticInst.isStore = true → (t.insts i).squashed = false ∧ ∀ j ∈ t.inflightInsts, j < i →
    (t.insts j).fired .commit = 1) :
    Writes (t.requestMem i).insts (t.requestMem i).inflightInsts (t.requestMem i).requests := by
  obtain ⟨new, eq, packets⟩ := requestMem_packets t i
  rw [eq]
  intro r mem p at_ write
  rcases List.mem_append.mp mem with old | added
  · exact h r old p at_ write
  · grind

theorem Writes.commit (h : Writes t.insts t.inflightInsts t.requests)
    (uncommitted : (t.insts i).fired .commit = 0) :
    Writes (pass t.insts i .commit) t.inflightInsts t.requests := by
  intro r inside p eq write
  obtain ⟨unsquashed, older⟩ := h r inside p eq write
  refine ⟨(pass_squashed ..).trans unsquashed, fun j old lt => ?_⟩
  have one := older j old lt
  have ne : j ≠ i := by
    rintro rfl
    omega
  rw [pass_of_ne _ _ _ ne]
  exact one

theorem Inv.writesMove (inv : Inv cfg t) (move : Move cfg o e t t') :
    Writes t'.insts t'.inflightInsts t'.requests := by
  have h := inv.writes
  have core := inv.toCore
  cases move with
  | drop serves _ _ => exact (serves.split ▸ h).remove
  | enqueue token fits unit =>
    refine h.append [_] fun r mem => ?_
    obtain rfl : r = _ := by simpa using mem
    cases r <;> simp_all [Request.isToken, Request.carries, Request.packet]
  | decode | enterTid | execute | setAccess | execResult | complete | effAddr | awaitMem =>
    exact h.update rfl rfl
  | @issue i before after idle back calls served origin =>
    rw [Thread.enterIssue_eq]
    have enrolled : Writes (issuedInsts cfg t i) t.inflightInsts t.requests :=
      h.congr (fun j => restatus_squashed t.insts i j .issued)
        (fun j => congrFun (restatus_fired t.insts i j .issued) _)
    have numbered : Writes (Function.update (issuedInsts cfg t i) i (issuedInst cfg t i))
        t.inflightInsts t.requests := enrolled.update rfl rfl
    exact numbered.append [.issueTid i] (by simp [Request.packet])
  | extend => exact h.extend core
  | @reserve i can depth other calls =>
    refine Writes.append ?_ [.bpred i] (by simp [Request.packet])
    exact h.update rfl rfl
  | @release i before after serves calls =>
    exact Writes.freeBranchPredDepth (t := { t with requests := before ++ after })
      (serves.split ▸ h).remove
  | predictStall serves can calls full active micro =>
    refine Writes.update ?_ rfl rfl
    exact (serves.split ▸ h).remove
  | @predictExtend i before after pc serves can calls room active micro =>
    have asked : .bpred i ∈ t.requests := by simp [serves.split]
    have fewer := (core.removeRequest serves.split).holdSlot can.predictor can.issued can.unasked
      (core.unawaited asked can.unsquashed)
    refine Writes.extend (Writes.update ?_ rfl rfl) fewer
    exact (serves.split ▸ h).remove
  | waitTid =>
    refine Writes.update ?_ rfl rfl
    exact h.update rfl rfl
  | @requestExecution i idle once below =>
    refine Writes.append ?_ [.exec i] (by simp [Request.packet])
    exact h.update rfl rfl
  | loadResult serves read calls =>
    refine Writes.update ?_ rfl rfl
    exact (serves.split ▸ h).remove
  | setPAddrs =>
    refine h.update ?_ ?_
    · split <;> rfl
    · split <;> rfl
  | @sendLoad i can load =>
    refine Writes.requestMem ?_ fun store => ?_
    · exact h.update rfl rfl
    · have same : ((t.enterMemory i).insts i).staticInst = (t.insts i).staticInst :=
        restatus_staticInst ..
      rw [same, load] at store
      cases store
  | @sendStore i vals can store =>
    have older := core.older_committed can store
    refine Writes.requestMem (Writes.update ?_ rfl rfl) fun _ => ⟨?_, fun j mem lt => ?_⟩
    · exact h.update rfl rfl
    · simpa [Thread.update, Thread.enterMemory, Thread.setStatus, InflightInst.setResults]
        using can.unsquashed
    · have ne : j ≠ i := Nat.ne_of_lt lt
      simpa [Thread.update, Thread.enterMemory, Thread.setStatus, ne] using older j mem lt
  | @sendFault i f can store =>
    have sent : Writes (t.enterMemory i).insts (t.enterMemory i).inflightInsts
        (t.enterMemory i).requests := h.update rfl rfl
    have idle := can.toIdle.enterMemory
    have sending := core.enterMemory can.toIdle can.ready
    exact sent.markFault sending idle.mem idle.unsquashed (can.quiet store)
      (sending.uncommitted idle.mem idle.unsquashed (by simp [idle.status]))
      (core.unsent can.unsquashed (by simp [can.status, Status.lt_iff, Status.rank])) f
  | @fault i f idle kind packets calls cause =>
    refine h.markFault core idle.mem idle.unsquashed (by simp [Quiet, calls])
      (core.uncommitted idle.mem idle.unsquashed fun done => ?_) packets f
    simp [done] at kind
  | @transmit p before after serves alive calls =>
    refine h.requests fun r mem q eq => ?_
    rw [serves.split]
    simp only [List.mem_append, List.mem_singleton] at mem
    rcases mem with (front | back) | rfl
    · exact ⟨r, by simp [front], eq⟩
    · exact ⟨r, by simp [back], eq⟩
    · exact ⟨.mem p, by simp, eq⟩
  | @decrement g c rest calls =>
    unfold Thread.decrement
    split
    · have lower : Writes (Function.update t.insts c ((t.insts c).decrement g)) t.inflightInsts
          t.requests := h.update rfl rfl
      dsimp only
      split <;> exact lower
    · exact h
  | @overlap cb rest i other calls kind fine =>
    rcases runOverlap_cases { t with calls := rest } kind fine with same | new
    · rw [same]
      exact h
    · rw [new]
      have form := register_eq { t with calls := rest } i (.depend .mem .completion other)
      change Thread.addDependency _ i .mem .completion other = _ at form
      rw [form]
      exact h
  | @resolveCorrect i rest calls predictor followed correct =>
    exact Writes.freeBranchPredDepth (t := { t with calls := rest }) h
  | @resolveWrong i rest calls predictor followed =>
    have resolving : Call.resolveControl i ∈ t.calls := by simp [calls]
    have kept := freeBranchPredDepth_keeps { t with calls := rest } i
    obtain ⟨inside, unsquashed⟩ := core.stack.protects _ resolving rfl i rfl
    have status := (core.stack.resolving i resolving).1
    have before := Writes.freeBranchPredDepth (t := { t with calls := rest }) h
    obtain ⟨u, a, vs, w, rfl, freed, buffer, same, -, -, eq⟩ := resolveWrong_spec core calls
    rw [eq]
    refine before.flaggedAll (same.trans buffer) freed.heap.ordered ?_
    rw [kept.2.2.2]
    exact core.uncommitted inside unsquashed (by simp [status])
  | @commit x front unsquashed status quiet =>
    have mem : x ∈ t.inflightInsts := List.mem_of_mem_head? front
    refine h.commit (core.uncommitted mem unsquashed fun done => ?_)
    rw [done] at status
    simp at status
  | popFront => exact h.shrink fun j mem => List.mem_of_mem_tail mem
  | reset => exact h.shrink (by simp)
  | _ => exact h

end Moves

end Gem5.FlexCPU
