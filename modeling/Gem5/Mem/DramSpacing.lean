import Gem5.Lib.Spacing
import Gem5.Lib.Tables
import Gem5.Mem.DramTiming

/-!
# The distances of DRAM commands

The ticks that the controller keeps for a bank are far enough from every command that was issued.
-/

namespace Gem5.Mem.Dram

open Spacing List Function Option

variable {prm : Timings}

/-- Between column commands of the channel. -/
def colGap (earlier later : Command prm) : Nat :=
  if earlier.rank = later.rank ∧ prm.SameGroup earlier.bank later.bank then
    if earlier.type = .wr ∧ later.type = .wr then prm.tCCD_L_WR else prm.tCCD_L
  else prm.tBURST

/-- The least distance from a command to a later one. -/
def gap (earlier later : Command prm) : Option Nat :=
  let sameBank := earlier.rank = later.rank ∧ earlier.bank = later.bank
  match earlier.type, later.type with
  | .act, .act =>
    if earlier.rank = later.rank then some (prm.actGap earlier.bank later.bank) else none
  | .act, .pre => if sameBank then some prm.tRAS else none
  | .act, .rd | .act, .wr => if sameBank then some prm.tRCD else none
  | .pre, .act => if sameBank then some prm.tRP else none
  | .rd, .rd | .rd, .wr | .wr, .rd | .wr, .wr => some (colGap earlier later)
  | _, _ => none

def Bank.isOpen (bank : Bank) : Bool := bank.openRow.isSome

/-- The later bank allows nothing earlier. -/
structure Bank.Later (old new : Bank) : Prop where
  act : old.actAllowedAt ≤ new.actAllowedAt
  pre : old.preAllowedAt ≤ new.preAllowedAt
  rd : old.rdAllowedAt ≤ new.rdAllowedAt
  wr : old.wrAllowedAt ≤ new.wrAllowedAt

theorem Bank.Later.refl (bank : Bank) : Bank.Later bank bank :=
  ⟨Nat.le_refl _, Nat.le_refl _, Nat.le_refl _, Nat.le_refl _⟩

namespace Channel

variable {t t' : Channel prm} {r : prm.RankId} {b : prm.BankId} {ts : Nat}

def allowedAt (t : Channel prm) (c : Command prm) : Nat :=
  let bank := t.bank c.rank c.bank
  match c.type with
  | .act => bank.actAllowedAt
  | .pre => bank.preAllowedAt
  | .rd => max bank.rdAllowedAt t.nextBurstAt
  | .wr => max bank.wrAllowedAt t.nextBurstAt

/-- The ticks of the activates of a rank, newest first. -/
def activates (t : Channel prm) (r : prm.RankId) : List Nat :=
  (t.cmdList.filter fun c => c.type = .act ∧ c.rank = r).map Command.timeStamp

/-- The window of each rank holds its last activates, and the next activate keeps out of it. -/
structure Windowed (t : Channel prm) : Prop where
  actTicks : ∀ r, (t.ranks r).actTicks = recent prm.activationLimit (t.activates r)
  positive : ∀ r, ∀ x ∈ t.activates r, 0 < x
  sparse : 0 < prm.activationLimit → ∀ r, Sparse prm.activationLimit prm.tXAW (t.activates r)
  limited : 0 < prm.activationLimit → ∀ r y,
    (t.activates r)[prm.activationLimit - 1]? = some y →
      ∀ b, y + prm.tXAW ≤ (t.bank r b).actAllowedAt

theorem Windowed.keep (h : Windowed t) (same : ∀ j, t'.activates j = t.activates j)
    (ticks : ∀ j, (t'.ranks j).actTicks = (t.ranks j).actTicks)
    (later : ∀ j i, (t.bank j i).actAllowedAt ≤ (t'.bank j i).actAllowedAt) : Windowed t' where
  actTicks := by
    intro j
    rw [ticks, same]
    exact h.actTicks j
  positive := by
    intro j
    rw [same]
    exact h.positive j
  sparse := by
    intro pos j
    rw [same]
    exact h.sparse pos j
  limited := by
    intro pos j y last i
    rw [same] at last
    exact Nat.le_trans (h.limited pos j y last i) (later j i)

structure Scheduled (t : Channel prm) : Prop extends Windowed t where
  kept : Kept Command.timeStamp gap t.allowedAt t.cmdList
  closed : ∀ r b, (t.bank r b).openRow = none →
    (t.bank r b).preAllowedAt ≤ (t.bank r b).actAllowedAt
  active : ∀ r, (t.ranks r).numBanksActive = Tally.count Bank.isOpen (t.ranks r).banks

theorem bank_setRank (rank : Rank prm) (j : prm.RankId) (i : prm.BankId) :
    (t.setRank r rank).bank j i = if j = r then rank.banks i else t.bank j i := by
  change (Function.update t.ranks r rank j).banks i = _
  rw [update_apply]
  split <;> rfl

theorem allowedAt_mono (later : ∀ j i, Bank.Later (t.bank j i) (t'.bank j i))
    (burst : t.nextBurstAt ≤ t'.nextBurstAt) (c : Command prm) :
    t.allowedAt c ≤ t'.allowedAt c := by
  obtain ⟨act, pre, rd, wr⟩ := later c.rank c.bank
  unfold allowedAt
  cases c.type with
  | act => exact act
  | pre => exact pre
  | rd => exact max_le_max rd burst
  | wr => exact max_le_max wr burst

theorem heeds_act (act : ∀ i, ts + prm.actGap b i ≤ (t.bank r i).actAllowedAt)
    (pre : ts + prm.tRAS ≤ (t.bank r b).preAllowedAt)
    (rd : ts + prm.tRCD ≤ (t.bank r b).rdAllowedAt)
    (wr : ts + prm.tRCD ≤ (t.bank r b).wrAllowedAt) :
    Heeds Command.timeStamp gap t.allowedAt ⟨.act, r, b, ts⟩ := by
  rintro ⟨type, j, i, _⟩ g some_
  cases type with
  | act =>
    obtain ⟨rfl, rfl⟩ : r = j ∧ prm.actGap b i = g := by simpa [gap] using some_
    exact act i
  | pre =>
    obtain ⟨⟨rfl, rfl⟩, rfl⟩ : (r = j ∧ b = i) ∧ prm.tRAS = g := by simpa [gap] using some_
    exact pre
  | rd =>
    obtain ⟨⟨rfl, rfl⟩, rfl⟩ : (r = j ∧ b = i) ∧ prm.tRCD = g := by simpa [gap] using some_
    exact Nat.le_trans rd (Nat.le_max_left _ _)
  | wr =>
    obtain ⟨⟨rfl, rfl⟩, rfl⟩ : (r = j ∧ b = i) ∧ prm.tRCD = g := by simpa [gap] using some_
    exact Nat.le_trans wr (Nat.le_max_left _ _)

theorem heeds_pre (act : ts + prm.tRP ≤ (t.bank r b).actAllowedAt) :
    Heeds Command.timeStamp gap t.allowedAt ⟨.pre, r, b, ts⟩ := by
  rintro ⟨type, j, i, _⟩ g some_
  cases type with
  | act =>
    obtain ⟨⟨rfl, rfl⟩, rfl⟩ : (r = j ∧ b = i) ∧ prm.tRP = g := by simpa [gap] using some_
    exact act
  | pre | rd | wr => simp [gap] at some_

theorem heeds_column (isRead : Bool) (burst : ts + prm.tBURST ≤ t.nextBurstAt)
    (rd : ∀ i, prm.SameGroup b i → ts + prm.tCCD_L ≤ (t.bank r i).rdAllowedAt) (wr : ∀ i,
    prm.SameGroup b i → ts + (if isRead then prm.tCCD_L else prm.tCCD_L_WR) ≤ (t.bank r
    i).wrAllowedAt) :
    Heeds Command.timeStamp gap t.allowedAt ⟨if isRead then .rd else .wr, r, b, ts⟩ := by
  rintro ⟨type, j, i, _⟩ g some_
  cases type with
  | act | pre => cases isRead <;> simp [gap] at some_
  | rd =>
    obtain rfl : colGap ⟨if isRead then .rd else .wr, r, b, ts⟩ ⟨.rd, j, i, _⟩ = g := by
      cases isRead <;> simpa [gap] using some_
    by_cases same : r = j ∧ prm.SameGroup b i
    · obtain ⟨rfl, group⟩ := same
      exact Nat.le_trans (by simpa [colGap, group] using rd i group) (Nat.le_max_left _ _)
    · exact Nat.le_trans (by simpa [colGap, same] using burst) (Nat.le_max_right _ _)
  | wr =>
    obtain rfl : colGap ⟨if isRead then .rd else .wr, r, b, ts⟩ ⟨.wr, j, i, _⟩ = g := by
      cases isRead <;> simpa [gap] using some_
    by_cases same : r = j ∧ prm.SameGroup b i
    · obtain ⟨rfl, group⟩ := same
      refine Nat.le_trans ?_ (Nat.le_max_left _ _)
      cases isRead <;> simpa [colGap, group] using wr i group
    · exact Nat.le_trans (by simpa [colGap, same] using burst) (Nat.le_max_right _ _)

theorem ranks_precharged_self :
    (t.precharged r b ts).ranks r =
      { t.ranks r with
        banks := Function.update (t.ranks r).banks b
          { t.bank r b with
            openRow := none
            preAllowedAt := ts
            actAllowedAt := max (t.bank r b).actAllowedAt (ts + prm.tRP) }
        numBanksActive := (t.ranks r).numBanksActive - 1 } :=
  update_self _ _ _

theorem ranks_precharged_of_ne {j : prm.RankId} (ne : j ≠ r) :
    (t.precharged r b ts).ranks j = t.ranks j :=
  update_of_ne ne _ _

theorem bank_precharged (j : prm.RankId) (i : prm.BankId) :
    (t.precharged r b ts).bank j i =
      if j = r ∧ i = b then
        { t.bank r b with
          openRow := none
          preAllowedAt := ts
          actAllowedAt := max (t.bank r b).actAllowedAt (ts + prm.tRP) }
      else t.bank j i := by
  refine (bank_setRank _ j i).trans ?_
  by_cases rank : j = r
  · aesop
  · simp [rank]

theorem activates_precharged (j : prm.RankId) :
    (t.precharged r b ts).activates j = t.activates j := by
  simp [activates, precharged]

theorem later_precharged (due : (t.bank r b).preAllowedAt ≤ ts) (j : prm.RankId)
    (i : prm.BankId) : Bank.Later (t.bank j i) ((t.precharged r b ts).bank j i) := by
  rw [bank_precharged]
  split
  next own =>
    obtain ⟨rfl, rfl⟩ := own
    exact ⟨Nat.le_max_left _ _, due, Nat.le_refl _, Nat.le_refl _⟩
  next => exact .refl _

theorem Windowed.precharged (h : Windowed t) (due : (t.bank r b).preAllowedAt ≤ ts) :
    Windowed (t.precharged r b ts) := by
  refine h.keep activates_precharged (fun j => ?_) fun j i => (later_precharged due j i).act
  by_cases rank : j = r
  · subst rank
    rw [ranks_precharged_self]
  · rw [ranks_precharged_of_ne rank]

theorem Scheduled.precharged (h : Scheduled t) (opened : (t.bank r b).openRow ≠ none)
    (due : (t.bank r b).preAllowedAt ≤ ts) : Scheduled (t.precharged r b ts) where
  toWindowed := h.toWindowed.precharged due
  kept := by
    refine h.kept.cons due (allowedAt_mono (later_precharged due) (Nat.le_refl _)) (heeds_pre ?_)
    simp [bank_precharged]
  closed := by
    intro j i none_
    rw [bank_precharged] at none_ ⊢
    split at none_
    next own => simp [if_pos own]
    next other =>
      rw [if_neg other]
      exact h.closed j i none_
  active := by
    intro j
    by_cases rank : j = r
    · subst rank
      rw [ranks_precharged_self]
      refine Nat.sub_eq_of_eq_add ((h.active j).trans (Eq.symm ?_))
      exact Tally.count_update_lose (Option.isSome_iff_ne_none.mpr opened) rfl
    · rw [ranks_precharged_of_ne rank]
      exact h.active j

theorem banks_enforceRRD (rank : Rank prm) (row : Nat) (i : prm.BankId) :
    (enforceRRD rank b ts row).banks i =
      { (if i = b then
          { rank.banks i with
            openRow := some row
            rowAccesses := 0
            preAllowedAt := ts + prm.tRAS
            rdAllowedAt := max (ts + prm.tRCD) (rank.banks i).rdAllowedAt
            wrAllowedAt := max (ts + prm.tRCD) (rank.banks i).wrAllowedAt }
        else rank.banks i) with
        actAllowedAt := max (ts + prm.actGap b i) (rank.banks i).actAllowedAt } := by
  by_cases own : i = b
  · subst own
    simp [enforceRRD]
  · simp [enforceRRD, own]

theorem enforceXAW_keeps (rank : Rank prm) {log : List Nat}
    (ticks : rank.actTicks = recent prm.activationLimit log) (positive : ∀ x ∈ log, 0 < x)
    (now : 0 < ts) (order : ∀ x ∈ log, x ≤ ts)
    (due : 0 < prm.activationLimit → ∀ y, log[prm.activationLimit - 1]? = some y →
      y + prm.tXAW ≤ ts)
    (raised : ∀ i, ts ≤ (rank.banks i).actAllowedAt) :
    ∃ allowed : prm.BankId → Nat,
      enforceXAW rank ts =
        some { rank with
          banks := fun i => { rank.banks i with actAllowedAt := allowed i }
          actTicks := recent prm.activationLimit (ts :: log) } ∧
      (∀ i, (rank.banks i).actAllowedAt ≤ allowed i) ∧
      (0 < prm.activationLimit → ∀ y, (ts :: log)[prm.activationLimit - 1]? = some y →
        ∀ i, y + prm.tXAW ≤ allowed i) := by
  rcases Nat.eq_zero_or_pos prm.activationLimit with zero | pos
  · refine ⟨fun i => (rank.banks i).actAllowedAt, ?_, fun i => Nat.le_refl _, by omega⟩
    have empty : rank.actTicks = [] := ticks.trans (recent_eq_nil.mpr zero)
    have empty' : recent prm.activationLimit (ts :: log) = [] := recent_eq_nil.mpr zero
    rw [enforceXAW, if_pos empty, empty', ← empty]
  · have nonempty : rank.actTicks ≠ [] := by
      rw [ticks, Ne, recent_eq_nil]
      exact Nat.ne_of_gt pos
    have shift : ts :: rank.actTicks.dropLast = recent prm.activationLimit (ts :: log) := by
      rw [ticks, recent_cons pos]
    have passes : ¬ (rank.actTicks.getLastD 0 ≠ 0 ∧
        elapsed ts (rank.actTicks.getLastD 0) < prm.tXAW) := by
      rintro ⟨some_, short⟩
      rw [ticks, getLastD_recent pos, getD_eq_getElem?_getD] at some_ short
      cases back : log[prm.activationLimit - 1]? with
      | none => simp [back] at some_
      | some y =>
        have far := due pos y back
        rw [back, getD_some, elapsed, if_pos (by omega)] at short
        omega
    -- the oldest activate that the window now holds
    have oldest : ∀ y, (ts :: log)[prm.activationLimit - 1]? = some y →
        (recent prm.activationLimit (ts :: log)).getLastD 0 = y ∧ y ≠ 0 ∧ y ≤ ts := by
      intro y last
      have mem : y ∈ ts :: log := mem_of_getElem? last
      rw [getLastD_recent pos, getD_eq_getElem?_getD, last, getD_some]
      rcases List.mem_cons.mp mem with rfl | old
      · exact ⟨rfl, by omega, Nat.le_refl _⟩
      · exact ⟨rfl, Nat.ne_of_gt (positive y old), order y old⟩
    by_cases full : (recent prm.activationLimit (ts :: log)).getLastD 0 ≠ 0 ∧
        elapsed ts ((recent prm.activationLimit (ts :: log)).getLastD 0) < prm.tXAW
    · refine ⟨fun i => max ((recent prm.activationLimit (ts :: log)).getLastD 0 + prm.tXAW)
        (rank.banks i).actAllowedAt, ?_, fun i => Nat.le_max_right _ _, ?_⟩
      · rw [enforceXAW, if_neg nonempty, if_neg passes, shift]
        dsimp only
        rw [if_pos full]
      · grind
    · refine ⟨fun i => (rank.banks i).actAllowedAt, ?_, fun i => Nat.le_refl _, ?_⟩
      · rw [enforceXAW, if_neg nonempty, if_neg passes, shift]
        dsimp only
        rw [if_neg full]
      · intro _ y last i
        obtain ⟨eq, some_, before⟩ := oldest y last
        rw [eq] at full
        have long : ¬ elapsed ts y < prm.tXAW := fun short => full ⟨some_, short⟩
        rw [elapsed, if_pos before] at long
        refine Nat.le_trans ?_ (raised i)
        omega

/-- The channel after an activate, where `allowed` says when its rank allows the next one. -/
def activated (t : Channel prm) (r : prm.RankId) (b : prm.BankId) (actTick row : Nat)
    (allowed : prm.BankId → Nat) : Channel prm :=
  let rank := enforceRRD (t.ranks r) b actTick row
  { t.setRank r { rank with
      banks := fun i => { rank.banks i with actAllowedAt := allowed i }
      actTicks := recent prm.activationLimit (actTick :: t.activates r) } with
    cmdList := ⟨.act, r, b, actTick⟩ :: t.cmdList }

variable {row : Nat} {allowed : prm.BankId → Nat}

theorem ranks_activated_self :
    (t.activated r b ts row allowed).ranks r =
      { enforceRRD (t.ranks r) b ts row with
        banks := fun i => { (enforceRRD (t.ranks r) b ts row).banks i with
          actAllowedAt := allowed i }
        actTicks := recent prm.activationLimit (ts :: t.activates r) } :=
  update_self _ _ _

theorem ranks_activated_of_ne {j : prm.RankId} (ne : j ≠ r) :
    (t.activated r b ts row allowed).ranks j = t.ranks j :=
  update_of_ne ne _ _

theorem bank_activated (j : prm.RankId) (i : prm.BankId) :
    (t.activated r b ts row allowed).bank j i =
      if j = r then
        { (if i = b then
            { t.bank j i with
              openRow := some row
              rowAccesses := 0
              preAllowedAt := ts + prm.tRAS
              rdAllowedAt := max (ts + prm.tRCD) (t.bank j i).rdAllowedAt
              wrAllowedAt := max (ts + prm.tRCD) (t.bank j i).wrAllowedAt }
          else t.bank j i) with
          actAllowedAt := allowed i }
      else t.bank j i := by
  refine (bank_setRank _ j i).trans ?_
  by_cases rank : j = r
  · subst rank
    dsimp only
    rw [banks_enforceRRD]
    rfl
  · rw [if_neg rank, if_neg rank]

theorem activates_activated (j : prm.RankId) :
    (t.activated r b ts row allowed).activates j =
      if j = r then ts :: t.activates j else t.activates j := by
  by_cases rank : j = r
  · simp [activates, activated, rank]
  · simp [activates, activated, rank, Ne.symm rank]

theorem later_activated (row : Nat) (closed : (t.bank r b).preAllowedAt ≤ ts)
    (raised : ∀ i, (t.bank r i).actAllowedAt ≤ allowed i) (j : prm.RankId) (i : prm.BankId) :
    Bank.Later (t.bank j i) ((t.activated r b ts row allowed).bank j i) := by
  rw [bank_activated]
  by_cases rank : j = r
  · subst rank
    by_cases own : i = b
    · subst own
      rw [if_pos rfl, if_pos rfl]
      exact ⟨raised i, Nat.le_trans closed (Nat.le_add_right _ _), Nat.le_max_right _ _,
        Nat.le_max_right _ _⟩
    · rw [if_pos rfl, if_neg own]
      exact ⟨raised i, Nat.le_refl _, Nat.le_refl _, Nat.le_refl _⟩
  · rw [if_neg rank]
    exact .refl _

theorem Windowed.activated (h : Windowed t) (row : Nat) (now : 0 < ts)
    (due : (t.bank r b).actAllowedAt ≤ ts) (window : 0 < prm.activationLimit → ∀ y, (ts ::
    t.activates r)[prm.activationLimit - 1]? = some y → ∀ i, y + prm.tXAW ≤ allowed i) :
    Windowed (t.activated r b ts row allowed)  where
  actTicks := by
    intro j
    rw [activates_activated]
    by_cases rank : j = r
    · subst rank
      rw [ranks_activated_self, if_pos rfl]
    · rw [ranks_activated_of_ne rank, if_neg rank]
      exact h.actTicks j
  positive := by
    intro j x mem
    rw [activates_activated] at mem
    split at mem
    next =>
      rcases List.mem_cons.mp mem with rfl | old
      · exact now
      · exact h.positive j x old
    next => exact h.positive j x mem
  sparse := by
    intro pos j
    rw [activates_activated]
    split
    next rank =>
      subst rank
      exact (h.sparse pos j).cons pos fun y last => Nat.le_trans (h.limited pos j y last b) due
    next => exact h.sparse pos j
  limited := by
    intro pos j y last i
    rw [activates_activated] at last
    by_cases rank : j = r
    · grind [bank_activated]
    · rw [if_neg rank] at last
      rw [bank_activated, if_neg rank]
      exact h.limited pos j y last i

theorem Scheduled.activated (h : Scheduled t) (none_ : (t.bank r b).openRow = none) (now : 0 < ts)
    (due : (t.bank r b).actAllowedAt ≤ ts) (raised : ∀ i, (t.bank r i).actAllowedAt ≤ allowed i)
    (apart : ∀ i, ts + prm.actGap b i ≤ allowed i) (window : 0 < prm.activationLimit → ∀ y, (ts ::
    t.activates r)[prm.activationLimit - 1]? = some y → ∀ i, y + prm.tXAW ≤ allowed i) :
    Scheduled (t.activated r b ts row allowed) := by
  have closed : (t.bank r b).preAllowedAt ≤ ts := Nat.le_trans (h.closed r b none_) due
  have later := later_activated row closed raised
  have shut : Bank.isOpen ((t.ranks r).banks b) = false := Option.isSome_eq_false_iff.mpr
    (Option.isNone_iff_eq_none.mpr none_)
  exact {
    toWindowed := h.toWindowed.activated row now due window
    kept := by
      refine h.kept.cons due (allowedAt_mono later (Nat.le_refl _)) (heeds_act ?_ ?_ ?_ ?_)
      · grind [bank_activated]
      · rw [bank_activated, if_pos rfl, if_pos rfl]
      · simp [bank_activated]
      · simp [bank_activated]
    closed := by
      intro j i closed
      rw [bank_activated] at closed ⊢
      by_cases rank : j = r
      · subst rank
        by_cases own : i = b
        · grind
        · rw [if_pos rfl, if_neg own] at closed ⊢
          exact Nat.le_trans (h.closed j i closed) (raised i)
      · rw [if_neg rank] at closed ⊢
        exact h.closed j i closed
    active := by
      intro j
      by_cases rank : j = r
      · subst rank
        rw [ranks_activated_self]
        calc (t.ranks j).numBanksActive + 1
            = Tally.count Bank.isOpen (t.ranks j).banks + 1 := by
              rw [h.active j]
          _ = _ := (Tally.count_update_gain shut rfl).symm
      · rw [ranks_activated_of_ne rank]
        exact h.active j }

theorem Scheduled.le_actAllowedAt (h : Scheduled t) {x : Nat} (mem : x ∈ t.activates r)
    (i : prm.BankId) : x ≤ (t.bank r i).actAllowedAt := by
  obtain ⟨c, logged, rfl⟩ := List.mem_map.mp mem
  obtain ⟨old, act, rank⟩ : c ∈ t.cmdList ∧ c.type = .act ∧ c.rank = r := by simpa using logged
  have next := h.kept.heeded c old ⟨.act, r, i, 0⟩ (prm.actGap c.bank i) (by simp [gap, act, rank])
  exact Nat.le_trans (Nat.le_add_right _ _) next

theorem Scheduled.activate (h : Scheduled t) (none_ : (t.bank r b).openRow = none)
    (now : 0 < ts) (due : (t.bank r b).actAllowedAt ≤ ts) (row : Nat) :
    ∃ t', t.activateBank r b ts row = some t' ∧ Scheduled t' ∧
      (t'.bank r b).openRow = some row ∧ t'.nextBurstAt = t.nextBurstAt := by
  have shut : Bank.isOpen ((t.ranks r).banks b) = false := Option.isSome_eq_false_iff.mpr
    (Option.isNone_iff_eq_none.mpr none_)
  have room : (t.ranks r).numBanksActive + 1 ≤ prm.banksPerRank := by
    calc (t.ranks r).numBanksActive + 1
        = Tally.count Bank.isOpen
            (Function.update (t.ranks r).banks b { t.bank r b with openRow := some row }) := by
          rw [h.active r]
          exact (Tally.count_update_gain shut rfl).symm
      _ ≤ Fintype.card prm.BankId := Tally.count_le
      _ = prm.banksPerRank := Fintype.card_fin _
  have ticks : (t.ranks r).actTicks.length = prm.activationLimit := by
    rw [h.actTicks r, length_recent]
  have raised : ∀ i, max (ts + prm.actGap b i) (t.bank r i).actAllowedAt =
      ((enforceRRD (t.ranks r) b ts row).banks i).actAllowedAt := by
    intro i
    rw [banks_enforceRRD]
    rfl
  obtain ⟨allowed, eq, later, window⟩ := enforceXAW_keeps (enforceRRD (t.ranks r) b ts row)
    (h.actTicks r) (h.positive r) now
    (fun x mem => Nat.le_trans (h.le_actAllowedAt mem b) due)
    (fun pos y last => Nat.le_trans (h.limited pos r y last b) due)
    (fun i => Nat.le_trans (Nat.le_trans (Nat.le_add_right _ _) (Nat.le_max_left _ _))
      (Nat.le_of_eq (raised i)))
  refine ⟨t.activated r b ts row allowed, ?_, ?_, ?_, rfl⟩
  · rw [activateBank, if_pos ⟨ticks, none_, room⟩, eq]
    rfl
  · refine h.activated none_ now due ?_ ?_ window
    · grind
    · grind
  · rw [bank_activated, if_pos rfl, if_pos rfl]

variable {a : Access prm}

theorem nextBurstAt_le_cmdAt : t.nextBurstAt ≤ t.cmdAt a :=
  Nat.le_trans (Nat.le_max_right _ _) (Nat.le_max_left _ _)

theorem allowedAt_column :
    t.allowedAt ⟨if a.isRead then .rd else .wr, a.rank, a.bank, ts⟩ ≤ t.cmdAt a := by
  unfold allowedAt cmdAt
  cases a.isRead with
  | true | false => exact Nat.le_max_left _ _

theorem bank_column (j : prm.RankId) (i : prm.BankId) :
    (t.column a).bank j i =
      let own := j = a.rank ∧ i = a.bank
      { t.bank j i with
        rdAllowedAt :=
          max (t.cmdAt a + prm.dlyToRd a.isRead a.rank a.bank j i) (t.bank j i).rdAllowedAt
        wrAllowedAt :=
          max (t.cmdAt a + prm.dlyToWr a.isRead a.rank a.bank j i) (t.bank j i).wrAllowedAt
        preAllowedAt :=
          if own then
            max (t.bank j i).preAllowedAt
              (if a.isRead then t.cmdAt a + prm.tRTP else t.readyTime a + prm.tWR)
          else (t.bank j i).preAllowedAt
        rowAccesses :=
          if own then ((t.bank j i).rowAccesses + 1) % 2 ^ 32 else (t.bank j i).rowAccesses } := by
  by_cases rank : j = a.rank
  · subst rank
    by_cases own : i = a.bank
    · subst own
      simp [bank, column]
    · simp [bank, column, own]
  · simp [bank, column, rank]

theorem openRow_column (j : prm.RankId) (i : prm.BankId) :
    ((t.column a).bank j i).openRow = (t.bank j i).openRow := by
  rw [bank_column]

theorem ranks_column (j : prm.RankId) :
    ((t.column a).ranks j).numBanksActive = (t.ranks j).numBanksActive ∧
      ((t.column a).ranks j).actTicks = (t.ranks j).actTicks := by
  by_cases rank : j = a.rank
  · subst rank
    simp [column]
  · simp [column, rank]

theorem activates_column (j : prm.RankId) : (t.column a).activates j = t.activates j := by
  cases read : a.isRead <;> simp [activates, column, read]

theorem later_column (a : Access prm) (j : prm.RankId) (i : prm.BankId) :
    Bank.Later (t.bank j i) ((t.column a).bank j i) := by
  rw [bank_column]
  refine ⟨Nat.le_refl _, ?_, Nat.le_max_right _ _, Nat.le_max_right _ _⟩
  dsimp only
  split
  · exact Nat.le_max_left _ _
  · exact Nat.le_refl _

theorem Scheduled.column (h : Scheduled t) (opened : (t.bank a.rank a.bank).openRow ≠ none) :
    Scheduled (t.column a) where
  toWindowed := h.toWindowed.keep activates_column (fun j => (ranks_column j).2) fun j i =>
    (later_column a j i).act
  kept := by
    have burst : t.nextBurstAt ≤ (t.column a).nextBurstAt :=
      Nat.le_trans nextBurstAt_le_cmdAt (Nat.le_add_right _ _)
    refine h.kept.cons allowedAt_column (allowedAt_mono (later_column a) burst)
      (heeds_column a.isRead (Nat.le_refl _) ?_ ?_)
    · grind [bank_column, Timings.dlyToRd]
    · grind [bank_column, Timings.dlyToWr]
  closed := by
    intro j i none_
    rw [bank_column] at none_ ⊢
    have other : ¬ (j = a.rank ∧ i = a.bank) := by grind
    dsimp only
    rw [if_neg other]
    exact h.closed j i none_
  active := by
    intro j
    rw [(ranks_column j).1, h.active j]
    exact Tally.count_congr fun i => congrArg Option.isSome (openRow_column j i).symm

end Channel

end Gem5.Mem.Dram
