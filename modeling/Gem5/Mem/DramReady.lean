import Gem5.Lib.Runs
import Gem5.Mem.DramSpacing

/-!
# Accesses and their responses

An access never fails and keeps the distances of the commands. Its packet is ready no earlier
than those before it, so the response queue stays in order.
-/

namespace Gem5.Mem.Dram

open Spacing List Option

variable {prm : Timings}

namespace Channel

variable {t : Channel prm} {r : prm.RankId} {b : prm.BankId} {ts : Nat} {a : Access prm}

theorem scheduled_new (prm : Timings) (start : Nat) : Scheduled (new prm start) where
  actTicks _ := recent_nil.symm
  positive _ := by simp [activates, new]
  sparse _ _ := .nil
  limited _ _ _ last := by simp [activates, new] at last
  kept := .nil
  closed _ _ _ := Nat.le_refl _
  active _ := (Tally.count_eq_zero.mpr fun _ => rfl).symm

theorem Scheduled.precharge (h : Scheduled t) (opened : (t.bank r b).openRow ≠ none)
    (due : (t.bank r b).preAllowedAt ≤ ts) :
    t.prechargeBank r b ts = some (t.precharged r b ts) ∧ Scheduled (t.precharged r b ts) := by
  have some_ : (t.ranks r).numBanksActive ≠ 0 := by
    intro zero
    rw [h.active r] at zero
    have closed := Tally.count_eq_zero.mp zero b
    exact opened (Option.isNone_iff_eq_none.mp (Option.isSome_eq_false_iff.mp closed))
  exact ⟨if_pos ⟨opened, some_⟩, h.precharged opened due⟩

theorem Scheduled.openRow (h : Scheduled t) (now : 0 < a.curTick) :
    ∃ t', t.openRow a = some t' ∧ Scheduled t' ∧
      (t'.bank a.rank a.bank).openRow = some a.row ∧ t'.nextBurstAt = t.nextBurstAt := by
  by_cases hit : (t.bank a.rank a.bank).openRow = some a.row
  · exact ⟨t, if_pos hit, h, hit, rfl⟩
  · rw [Channel.openRow, if_neg hit]
    by_cases opened : (t.bank a.rank a.bank).openRow = none
    · have due : (t.bank a.rank a.bank).actAllowedAt ≤
          max (t.bank a.rank a.bank).actAllowedAt a.curTick := Nat.le_max_left _ _
      obtain ⟨t', eq, keeps, row, burst⟩ :=
        h.activate opened (Nat.lt_of_lt_of_le now (Nat.le_max_right _ _)) due a.row
      rw [if_neg (not_not.mpr opened)]
      exact ⟨t', eq, keeps, row, burst⟩
    · obtain ⟨eq, keeps⟩ := h.precharge opened (Nat.le_max_left _ a.curTick)
      rw [if_pos opened, eq]
      have closed : ∀ preAt,
          ((t.precharged a.rank a.bank preAt).bank a.rank a.bank).openRow = none := by
        intro preAt
        rw [bank_precharged, if_pos ⟨rfl, rfl⟩]
      obtain ⟨t', eq', keeps', row, burst⟩ :=
        keeps.activate (closed _) (Nat.lt_of_lt_of_le now (Nat.le_max_right _ _))
          (Nat.le_max_left _ a.curTick) a.row
      exact ⟨t', eq', keeps', row, burst⟩

theorem Scheduled.doDRAMAccess (h : Scheduled t) (now : 0 < a.curTick) :
    ∃ t', t.doDRAMAccess a = some (t', t'.nextBurstAt + prm.tCL) ∧ Scheduled t' ∧
      t.nextBurstAt ≤ t'.nextBurstAt ∧ a.curTick ≤ t'.nextBurstAt := by
  obtain ⟨t₁, eq, opened, row, burst⟩ := h.openRow now
  have some_ : (t₁.bank a.rank a.bank).openRow ≠ none := by simp [row]
  have issued := opened.column some_
  have some_' : ((t₁.column a).bank a.rank a.bank).openRow ≠ none := by rwa [openRow_column]
  obtain ⟨closes, closed⟩ := issued.precharge some_' (Nat.le_max_right a.curTick _)
  have ready : t₁.readyTime a = (t₁.column a).nextBurstAt + prm.tCL := by
    rw [readyTime, Nat.add_right_comm]
    rfl
  have later : t.nextBurstAt ≤ (t₁.column a).nextBurstAt := by
    rw [← burst]
    exact Nat.le_trans nextBurstAt_le_cmdAt (Nat.le_add_right _ _)
  have after : a.curTick ≤ (t₁.column a).nextBurstAt :=
    Nat.le_trans (Nat.le_max_right _ _) (Nat.le_add_right _ _)
  rw [Channel.doDRAMAccess, eq]
  by_cases auto : (t₁.column a).autoPrecharge a = true
  · aesop
  · grind

end Channel

/-- The commands keep their distances, and an activation window has its length. -/
structure Channel.RespectsTiming (t : Channel prm) : Prop where
  spaced : t.cmdList.Pairwise (Spaced Command.timeStamp gap)
  sparse : 0 < prm.activationLimit → ∀ r, Sparse prm.activationLimit prm.tXAW (t.activates r)

namespace TimedQueue

variable {q q' : TimedQueue prm} {readyTime curTick : Nat}

structure Ordered (q : TimedQueue prm) : Prop where
  scheduled : q.channel.Scheduled
  descending : q.readyTimes.Pairwise (· ≥ ·)
  ready : ∀ x ∈ q.readyTimes, x ≤ q.channel.nextBurstAt + prm.tCL
  sorted : q.respQueue.Pairwise (· ≤ ·)
  queued : ∀ x ∈ q.respQueue, x ∈ q.readyTimes
  event : q.respondEvent = q.respQueue.head?

theorem ordered_new (prm : Timings) (start : Nat) : Ordered (new prm start) where
  scheduled := Channel.scheduled_new prm start
  descending := .nil
  ready := by simp [new]
  sorted := .nil
  queued := by simp [new]
  event := rfl

theorem pushResponse_eq (event : q.respondEvent = q.respQueue.head?)
    (last : ∀ x ∈ q.respQueue, x ≤ readyTime) (after : curTick ≤ readyTime) :
    q.pushResponse curTick readyTime =
      some { q with
        respQueue := q.respQueue ++ [readyTime]
        respondEvent := (q.respQueue ++ [readyTime]).head? } := by
  rw [pushResponse, if_neg (Nat.not_lt.mpr after)]
  cases queue : q.respQueue with
  | nil =>
    rw [queue] at event
    simp [event]
  | cons front rest =>
    have nonempty : front :: rest ≠ [] := cons_ne_nil front rest
    have back : (front :: rest).getLast nonempty ≤ readyTime := by grind [getLast_mem]
    have scheduled : q.respondEvent = some front := by rw [event, queue, List.head?_cons]
    rw [List.getLast?_eq_some_getLast nonempty]
    dsimp only
    rw [if_pos ⟨back, by rw [scheduled]; exact some_ne_none front⟩, List.cons_append,
      List.head?_cons, ← scheduled]

theorem Ordered.access (h : Ordered q) {a : Access prm} (now : 0 < a.curTick) :
    ∃ q', q.step (.access a) = some q' ∧ Ordered q' := by
  obtain ⟨channel, eq, scheduled, later, after⟩ := h.scheduled.doDRAMAccess now
  have newest : ∀ x ∈ q.readyTimes, x ≤ channel.nextBurstAt + prm.tCL := fun x mem =>
    Nat.le_trans (h.ready x mem) (Nat.add_le_add_right later _)
  have descending : ((channel.nextBurstAt + prm.tCL) :: q.readyTimes).Pairwise (· ≥ ·) :=
    List.pairwise_cons.mpr ⟨newest, h.descending⟩
  have ready : ∀ x ∈ (channel.nextBurstAt + prm.tCL) :: q.readyTimes,
      x ≤ channel.nextBurstAt + prm.tCL := by
    intro x mem
    rcases List.mem_cons.mp mem with rfl | old
    · exact Nat.le_refl _
    · exact newest x old
  rw [step, eq]
  dsimp only [bind_eq_bind, bind_some]
  by_cases read : a.isRead = true
  · rw [if_pos read]
    refine ⟨_, pushResponse_eq h.event (fun x mem => newest x (h.queued x mem))
      (Nat.le_trans after (Nat.le_add_right _ _)), scheduled, descending, ready, ?_, ?_, rfl⟩
    · refine List.pairwise_append.mpr ⟨h.sorted, pairwise_singleton _ _, ?_⟩
      intro x old y mem
      rw [List.mem_singleton.mp mem]
      exact newest x (h.queued x old)
    · intro x mem
      rcases List.mem_append.mp mem with old | new
      · exact List.mem_cons_of_mem _ (h.queued x old)
      · simp [List.mem_singleton.mp new]
  · rw [if_neg read]
    exact ⟨_, rfl, scheduled, descending, ready, h.sorted,
      fun x mem => List.mem_cons_of_mem _ (h.queued x mem), h.event⟩

theorem Ordered.respond (h : Ordered q) (due : q.respondEvent ≠ none) :
    ∃ q', q.step .respond = some q' ∧ Ordered q' := by
  have event := h.event
  have sorted := h.sorted
  have queued := h.queued
  rw [step]
  cases queue : q.respQueue with
  | nil => grind
  | cons first rest =>
    rw [queue] at event sorted queued
    rw [event]
    dsimp only [List.head?_cons, bind_some]
    rw [processRespondEvent, queue]
    cases rest with
    | nil =>
      exact ⟨_, rfl, h.scheduled, h.descending, h.ready, .nil, by simp, rfl⟩
    | cons front rest =>
      have le : first ≤ front := rel_of_pairwise_cons sorted List.mem_cons_self
      dsimp only
      rw [if_pos le]
      exact ⟨_, rfl, h.scheduled, h.descending, h.ready, List.Pairwise.of_cons sorted,
        fun x mem => queued x (List.mem_cons_of_mem _ mem), rfl⟩

theorem Ordered.next (h : Ordered q) {e : Event prm} (offered : q.Offered e) :
    ∃ q', q.step e = some q' ∧ Ordered q' := by
  cases e with
  | access => exact h.access offered.1
  | respond => exact h.respond offered

theorem Ordered.run {start : Nat} (run : Runs.Leads step Offered (new prm start) q) :
    Ordered q := by
  refine run.invariant (ordered_new prm start) ?_
  intro r e r' ordered offered eq
  obtain ⟨next, eq', keeps⟩ := ordered.next offered
  rw [eq'] at eq
  exact Option.some.inj eq ▸ keeps

/-- In every run from `startup` the commands respect their timing, the packets are ready in the
order of the accesses, and no check on the next event fails. -/
theorem run_respects_timing {start : Nat} (run : Runs.Leads step Offered (new prm start) q) :
    q.channel.RespectsTiming ∧ q.readyTimes.Pairwise (· ≥ ·) ∧
      ∀ e, q.Offered e → (q.step e).isSome := by
  have ordered := Ordered.run run
  refine ⟨⟨ordered.scheduled.kept.spaced, ordered.scheduled.sparse⟩, ordered.descending, ?_⟩
  intro e offered
  obtain ⟨next, eq, _⟩ := ordered.next offered
  rw [eq]
  rfl

/-- Two ranks of four banks in two groups, at most two activates in 40 ticks. -/
def small : Timings where
  ranksPerChannel := 2
  banksPerRank := 4
  bankGroupsPerRank := 2
  activationLimit := 2
  maxAccessesPerRow := 3
  pageMgmt := .openAdaptive
  tBURST := 5
  tCCD_L := 6
  tCCD_L_WR := 7
  tCL := 14
  tCS := 2
  tRAS := 35
  tRCD := 14
  tRP := 14
  tRRD := 6
  tRRD_L := 8
  tRTP := 8
  tRTW := 3
  tWR := 15
  tWTR := 8
  tXAW := 40
  groups := by decide

/-- An access to the first rank. -/
def small.access (curTick : Nat) (bank : Fin 4) (row : Nat) (isRead : Bool) : Event small :=
  .access ⟨curTick, (⟨0, Nat.zero_lt_two⟩ : Fin 2), bank, row, isRead, false, false⟩

/-- The third activate of a rank waits until 40 ticks after the first. -/
theorem run_respects_timing_small : ∃ q : TimedQueue small,
    Runs.Leads step Offered (new small 1) q ∧ q.channel.activates (0 : Fin 2) = [41, 9, 1] ∧
      q.channel.RespectsTiming := by
  have go : (Runs.feed step Offered (new small 1)
      [small.access 1 0 7 true, small.access 2 2 7 false, .respond, small.access 9 1 8 true]).map
        (fun q => q.channel.activates (0 : Fin 2)) = some [41, 9, 1] := by decide +kernel
  obtain ⟨q, fed, activates⟩ := Option.map_eq_some_iff.mp go
  have run := Runs.leads_feed fed
  exact ⟨q, run, activates, (run_respects_timing run).1⟩

end TimedQueue

end Gem5.Mem.Dram
