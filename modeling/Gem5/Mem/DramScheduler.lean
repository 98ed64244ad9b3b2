import Gem5.Lib.Lists
import Gem5.Mem.DramAddresses

/-!
# Choosing the next packet

One pass over a queue looks for a row hit that does not delay the data bus, and remembers what it
would take instead: a row hit, or a packet of a bank that can be opened first. Which banks these
are is worked out once, from all banks that some packet waits for.
-/

namespace Gem5.Mem.DramScheduler

open List Option BitVec

open DramAddresses (NO_ROW)

abbrev Tick := BitVec 64

def MaxTick : Tick := BitVec.allOnes 64

/-- `std::max` -/
def latest (a b : Tick) : Tick := if a < b then b else a

inductive BusState where
  | READ
  | WRITE
  deriving DecidableEq

inductive RefreshState where
  | REF_IDLE
  | REF_DRAIN
  | REF_PD_EXIT
  | REF_SREF_EXIT
  | REF_PRE
  | REF_START
  | REF_RUN
  deriving DecidableEq

structure DRAMPacket extends DramAddresses.DRAMPacket where
  read : Bool

structure Bank where
  openRow : BitVec 32
  rdAllowedAt : Tick
  wrAllowedAt : Tick
  preAllowedAt : Tick
  actAllowedAt : Tick

structure Rank where
  refreshState : RefreshState
  banks : Nat → Bank

def Rank.inRefIdleState (rank : Rank) : Bool := rank.refreshState = .REF_IDLE

inductive MemSched where
  | fcfs
  | frfcfs

structure DRAMCtrl where
  ranksPerChannel : Nat
  banksPerRank : Nat
  tRCD : Tick
  tRP : Tick
  memSchedPolicy : MemSched
  ranks : Nat → Rank
  busState : BusState
  nextBurstAt : Tick
  curTick : Tick

namespace DRAMCtrl

variable (c : DRAMCtrl)

def rankRef (p : DRAMPacket) : Rank := c.ranks p.rank.toNat

def bankRef (p : DRAMPacket) : Bank := (c.rankRef p).banks p.bank.toNat

def colAllowedAt (p : DRAMPacket) : Tick :=
  if p.read then (c.bankRef p).rdAllowedAt else (c.bankRef p).wrAllowedAt

/-- What `minBankPrep` knows after some of the banks. -/
structure BankPrep where
  bankMask : Nat → BitVec 32
  minActAt : Tick
  foundSeamlessBank : Bool
  hiddenBankPrep : Bool

/-- Some packet waits for a bank of a rank that is not refreshed. -/
def gotWaiting (queue : List DRAMPacket) (bankId : BitVec 16) : Bool :=
  queue.any fun p => (c.rankRef p).inRefIdleState && p.bankId == bankId

/-- A simplistic approximation of when the bank can issue an activate. -/
def actAt (bank : Bank) : Tick :=
  if bank.openRow = NO_ROW then latest bank.actAllowedAt c.curTick
  else latest bank.preAllowedAt c.curTick + c.tRP

/-- The earliest tick of a burst. -/
def colAt (bank : Bank) : Tick :=
  let colAllowedAt := if c.busState = .READ then bank.rdAllowedAt else bank.wrAllowedAt
  latest colAllowedAt (c.actAt bank + c.tRCD)

/-- The mask after a bank that is waited for. -/
def enterBank (minColAt : Tick) (s : BankPrep) (i j : Nat) : BankPrep :=
  let bank := (c.ranks i).banks j
  let hiddenActMax := latest (minColAt - c.tRCD) c.curTick
  let newSeamlessBank : Bool := c.colAt bank ≤ minColAt
  if newSeamlessBank || !s.foundSeamlessBank && decide (c.actAt bank ≤ s.minActAt) then
    let mask : Nat → BitVec 32 :=
      if !s.foundSeamlessBank && (newSeamlessBank || decide (c.actAt bank < s.minActAt)) then
        fun _ => 0
      else s.bankMask
    { bankMask := Function.update mask i (insertBits (mask i) j j 1)
      minActAt := c.actAt bank
      foundSeamlessBank := s.foundSeamlessBank || newSeamlessBank
      hiddenBankPrep := c.actAt bank ≤ hiddenActMax }
  else s

/-- One round of the loops of `minBankPrep`. Fails where the assert does. -/
def prepBank (queue : List DRAMPacket) (minColAt : Tick) (s : BankPrep) (at_ : Nat × Nat) :
    Option BankPrep :=
  if c.gotWaiting queue (BitVec.ofNat 16 (at_.1 * c.banksPerRank + at_.2)) then
    if (c.ranks at_.1).inRefIdleState then some (c.enterBank minColAt s at_.1 at_.2) else none
  else some s

/-- All banks of all ranks, in the order of the loops. -/
def allBanks : List (Nat × Nat) :=
  (List.range c.ranksPerChannel).flatMap fun i => (List.range c.banksPerRank).map fun j => (i, j)

def minBankPrep (queue : List DRAMPacket) (minColAt : Tick) :
    Option ((Nat → BitVec 32) × Bool) :=
  (c.allBanks.foldlM (c.prepBank queue minColAt) ⟨fun _ => 0, MaxTick, false, false⟩).map
    fun s => (s.bankMask, s.hiddenBankPrep)

structure Choice where
  earliestBanks : Nat → BitVec 32
  filledEarliestBanks : Bool
  hiddenBankPrep : Bool
  foundHiddenBank : Bool
  foundPreppedPkt : Bool
  foundEarliestPkt : Bool
  selected : Option Nat

/-- A row hit of an available rank. -/
def RowHit (p : DRAMPacket) : Prop :=
  (c.rankRef p).inRefIdleState = true ∧ (c.bankRef p).openRow = p.row

instance (p : DRAMPacket) : Decidable (c.RowHit p) := inferInstanceAs (Decidable (_ ∧ _))

/-- A row hit whose column command does not wait. -/
def Seamless (minColAt : Tick) (p : DRAMPacket) : Prop :=
  c.RowHit p ∧ c.colAllowedAt p ≤ minColAt

instance (minColAt : Tick) (p : DRAMPacket) : Decidable (c.Seamless minColAt p) :=
  inferInstanceAs (Decidable (_ ∧ _))

/-- `minBankPrep` is called at most once. -/
def fillEarliestBanks (queue : List DRAMPacket) (minColAt : Tick) (s : Choice) : Option Choice :=
  if !s.filledEarliestBanks then
    (c.minBankPrep queue minColAt).map fun (earliestBanks, hiddenBankPrep) =>
      { s with
        earliestBanks := earliestBanks
        hiddenBankPrep := hiddenBankPrep
        filledEarliestBanks := true }
  else some s

/-- A packet that is no seamless row hit, in place `k` of the queue. -/
def pass (queue : List DRAMPacket) (minColAt : Tick) (k : Nat) (p : DRAMPacket) (s : Choice) :
    Option Choice :=
  if (c.rankRef p).inRefIdleState then
    if (c.bankRef p).openRow = p.row then
      if !s.foundHiddenBank && !s.foundPreppedPkt then
        some { s with selected := some k, foundPreppedPkt := true }
      else some s
    else if !s.foundEarliestPkt then do
      let s ← c.fillEarliestBanks queue minColAt s
      if bits (s.earliestBanks p.rank.toNat) p.bank.toNat p.bank.toNat ≠ 0 then
        some { s with
          foundEarliestPkt := true
          foundHiddenBank := s.hiddenBankPrep
          selected := if s.hiddenBankPrep || !s.foundPreppedPkt then some k else s.selected }
      else some s
    else some s
  else some s

/-- The loop from place `k` on, which a seamless row hit ends. -/
def scan (queue : List DRAMPacket) (minColAt : Tick) :
    Nat → List DRAMPacket → Choice → Option (Option Nat)
  | _, [], s => some s.selected
  | k, p :: rest, s =>
    if c.Seamless minColAt p then some (some k)
    else (c.pass queue minColAt k p s).bind (scan queue minColAt (k + 1) rest)

def minColAt (extraColDelay : Tick) : Tick := latest (c.nextBurstAt + extraColDelay) c.curTick

/-- The place of the packet in the queue, `none` for its end. Fails where an assert does. -/
def chooseNextFRFCFS (queue : List DRAMPacket) (extraColDelay : Tick) : Option (Option Nat) :=
  c.scan queue (c.minColAt extraColDelay) 0 queue
    ⟨fun _ => 0, false, false, false, false, false, none⟩

def chooseNext (queue : List DRAMPacket) (extraColDelay : Tick) : Option (Option Nat) :=
  match queue with
  | [] => some none
  | [p] => some (if (c.rankRef p).inRefIdleState then some 0 else none)
  | queue =>
    match c.memSchedPolicy with
    | .fcfs => some (queue.findIdx? fun p => (c.rankRef p).inRefIdleState)
    | .frfcfs => c.chooseNextFRFCFS queue extraColDelay

/-- A packet as `decodeAddr` makes it. -/
structure Made (p : DRAMPacket) : Prop where
  rank : p.rank.toNat < c.ranksPerChannel
  bank : p.bank.toNat < c.banksPerRank
  bankId : p.bankId = BitVec.ofNat 16 (c.banksPerRank * p.rank.toNat + p.bank.toNat)

/-- Every bank has a number of its own and a bit in the mask of its rank. -/
structure Numbered : Prop where
  banks : c.banksPerRank ≤ 32
  total : c.ranksPerChannel * c.banksPerRank ≤ 2 ^ 16

variable {c} {queue : List DRAMPacket} {minColAt : Tick}

theorem decodeAddr_made {prm : DramAddresses.Params} {a : BitVec 64} {pkt : DramAddresses.DRAMPacket}
    (read : Bool) (ranks : prm.ranksPerChannel.toNat = c.ranksPerChannel)
    (banks : prm.banksPerRank.toNat = c.banksPerRank) (decoded : prm.decodeAddr a = some pkt) :
    c.Made { pkt with read := read } := by
  obtain ⟨⟨bank, rank, row⟩, -, decoded⟩ := Option.bind_eq_some_iff.mp decoded
  dsimp only at decoded
  split at decoded
  case isFalse => cases decoded
  case isTrue asserts =>
    cases decoded
    obtain ⟨rankFits, bankFits, -, -⟩ := asserts
    refine ⟨ranks ▸ rankFits, banks ▸ bankFits, ?_⟩
    apply eq_of_toNat_eq
    simp [← banks]

theorem Numbered.eq_of_bankId (numbered : c.Numbered) {p : DRAMPacket} (made : c.Made p) {i j : Nat}
    (rank : i < c.ranksPerChannel) (bank : j < c.banksPerRank)
    (same : p.bankId = BitVec.ofNat 16 (i * c.banksPerRank + j)) :
    p.rank.toNat = i ∧ p.bank.toNat = j := by
  have total := numbered.total
  have below {x y : Nat} (hx : x < c.ranksPerChannel) (hy : y < c.banksPerRank) :
      x * c.banksPerRank + y < 2 ^ 16 := by
    have next : (x + 1) * c.banksPerRank ≤ c.ranksPerChannel * c.banksPerRank :=
      Nat.mul_le_mul_right _ hx
    rw [Nat.add_mul] at next
    omega
  have ids := congrArg BitVec.toNat (made.bankId.symm.trans same)
  rw [toNat_ofNat, toNat_ofNat, Nat.mul_comm c.banksPerRank,
    Nat.mod_eq_of_lt (below made.rank made.bank), Nat.mod_eq_of_lt (below rank bank)] at ids
  have positive : 0 < c.banksPerRank := Nat.zero_lt_of_lt bank
  have ranks := congrArg (· / c.banksPerRank) ids
  have banks := congrArg (· % c.banksPerRank) ids
  simp only [Nat.mul_comm _ c.banksPerRank, Nat.mul_add_div positive, Nat.mul_add_mod,
    Nat.div_eq_of_lt made.bank, Nat.div_eq_of_lt bank, Nat.mod_eq_of_lt made.bank,
    Nat.mod_eq_of_lt bank] at ranks banks
  exact ⟨ranks, banks⟩

variable (c queue) in
/-- Some packet waits for the bank at a place of the loops. -/
def Waits (at_ : Nat × Nat) : Prop :=
  c.gotWaiting queue (BitVec.ofNat 16 (at_.1 * c.banksPerRank + at_.2)) = true

/-- After the banks of `done` the mask is not empty if one of them is waited for, and nothing is
known if there is none. -/
structure Prepared (c : DRAMCtrl) (queue : List DRAMPacket) (done : List (Nat × Nat))
    (s : BankPrep) : Prop where
  fresh : (∀ b ∈ done, ¬Waits c queue b) → s.foundSeamlessBank = false ∧ s.minActAt = MaxTick
  marked : ∀ b ∈ done, Waits c queue b →
    ∃ i j, Waits c queue (i, j) ∧ (i, j) ∈ done ∧ (s.bankMask i).getLsbD j = true

theorem le_MaxTick (t : Tick) : t ≤ MaxTick := by
  exact Nat.le_sub_one_of_lt t.isLt

variable (c minColAt) in
theorem enterBank_cases (s : BankPrep) (i : Nat) {j : Nat} (bit : j < 32) :
    ((c.enterBank minColAt s i j).bankMask i).getLsbD j = true ∨
      c.enterBank minColAt s i j = s ∧ ¬(s.foundSeamlessBank = false ∧ s.minActAt = MaxTick) := by
  simp only [enterBank]
  split
  case isTrue =>
    left
    dsimp only
    rw [Function.update_self, getLsbD_insertBits, if_pos (by omega), decide_eq_true bit,
      Nat.sub_self]
    rfl
  case isFalse worse =>
    refine .inr ⟨rfl, fun ⟨found, latest⟩ => worse ?_⟩
    rw [found, latest, decide_eq_true (le_MaxTick _)]
    simp

variable (minColAt) in
theorem prepBank_prepared {done : List (Nat × Nat)} {s : BankPrep} {at_ : Nat × Nat}
    (prepared : Prepared c queue done s) (bit : at_.2 < 32)
    (idle : Waits c queue at_ → (c.ranks at_.1).inRefIdleState = true) :
    ∃ s', c.prepBank queue minColAt s at_ = some s' ∧ Prepared c queue (done ++ [at_]) s' := by
  rw [prepBank]
  by_cases waits : Waits c queue at_
  case neg =>
    refine ⟨s, if_neg waits, fun none => ?_, fun b mem waits' => ?_⟩
    · exact prepared.fresh fun b mem => none b (mem_append_left _ mem)
    · rcases List.mem_append.mp mem with old | new_
      · obtain ⟨i, j, waits'', mem', set⟩ := prepared.marked b old waits'
        exact ⟨i, j, waits'', mem_append_left _ mem', set⟩
      · rw [List.mem_singleton.mp new_] at waits'
        exact absurd waits' waits
  case pos =>
    have here : at_ ∈ done ++ [at_] := mem_append_right _ List.mem_cons_self
    refine ⟨c.enterBank minColAt s at_.1 at_.2, ?_, fun none => absurd waits (none _ here),
      fun _ _ _ => ?_⟩
    · exact (if_pos waits).trans (if_pos (idle waits))
    · rcases enterBank_cases c minColAt s at_.1 bit with set | ⟨same, not⟩
      · exact ⟨at_.1, at_.2, waits, here, set⟩
      · -- The first bank that is waited for always enters the mask.
        obtain ⟨b, mem, waits'⟩ : ∃ b ∈ done, Waits c queue b := by
          by_contra none
          exact not (prepared.fresh fun b mem waits' => none ⟨b, mem, waits'⟩)
        obtain ⟨i, j, waits'', mem', set⟩ := prepared.marked b mem waits'
        rw [same]
        exact ⟨i, j, waits'', mem_append_left _ mem', set⟩

variable (minColAt) in
theorem foldlM_prepared (rest : List (Nat × Nat)) {done : List (Nat × Nat)} {s : BankPrep}
    (prepared : Prepared c queue done s) (bit : ∀ b ∈ rest, b.2 < 32)
    (idle : ∀ b ∈ rest, Waits c queue b → (c.ranks b.1).inRefIdleState = true) :
    ∃ s', rest.foldlM (c.prepBank queue minColAt) s = some s' ∧
      Prepared c queue (done ++ rest) s' :=
  Traversals.foldlM_succeeds (fun b mem _ _ prepared =>
    prepBank_prepared minColAt prepared (bit b mem) (idle b mem)) prepared

theorem mem_allBanks {i j : Nat} :
    (i, j) ∈ c.allBanks ↔ i < c.ranksPerChannel ∧ j < c.banksPerRank := by
  simp [allBanks]

theorem Numbered.exists_packet (numbered : c.Numbered) (made : ∀ p ∈ queue, c.Made p) {i j : Nat}
    (mem : (i, j) ∈ c.allBanks) (waits : Waits c queue (i, j)) :
    ∃ p ∈ queue, (c.rankRef p).inRefIdleState = true ∧ p.rank.toNat = i ∧ p.bank.toNat = j := by
  obtain ⟨rank, bank⟩ := mem_allBanks.mp mem
  obtain ⟨p, mem', both⟩ := List.any_eq_true.mp waits
  obtain ⟨idle, same⟩ := Bool.and_eq_true_iff.mp both
  exact ⟨p, mem', idle, numbered.eq_of_bankId (made p mem') rank bank (eq_of_beq same)⟩

/-- No assert fails, and if a rank is available some packet of an available rank has its bank in
the mask. -/
theorem minBankPrep_spec (numbered : c.Numbered) (made : ∀ p ∈ queue, c.Made p) (minColAt : Tick) :
    ∃ mask hidden, c.minBankPrep queue minColAt = some (mask, hidden) ∧
      ((∃ p ∈ queue, (c.rankRef p).inRefIdleState = true) →
        ∃ p ∈ queue, (c.rankRef p).inRefIdleState = true ∧
          (mask p.rank.toNat).getLsbD p.bank.toNat = true) := by
  have start : Prepared c queue [] ⟨fun _ => 0, MaxTick, false, false⟩ :=
    ⟨fun _ => ⟨rfl, rfl⟩, fun _ mem => absurd mem not_mem_nil⟩
  obtain ⟨s, run, prepared⟩ := foldlM_prepared minColAt c.allBanks start
    (fun b mem => Nat.lt_of_lt_of_le (mem_allBanks.mp mem).2 numbered.banks)
    (fun b mem waits => by
      obtain ⟨p, -, idle, rank, -⟩ := numbered.exists_packet made mem waits
      rw [← rank]
      exact idle)
  refine ⟨s.bankMask, s.hiddenBankPrep, by rw [minBankPrep, run]; rfl, ?_⟩
  rintro ⟨p, mem, idle⟩
  have made' := made p mem
  obtain ⟨i, j, waits, mem', set⟩ := prepared.marked (p.rank.toNat, p.bank.toNat)
    (mem_allBanks.mpr ⟨made'.rank, made'.bank⟩) (by
      refine List.any_eq_true.mpr ⟨p, mem, ?_⟩
      rw [idle, made'.bankId, Nat.mul_comm]
      simp)
  obtain ⟨p', mem'', idle', rfl, rfl⟩ := numbered.exists_packet made mem' waits
  exact ⟨p', mem'', idle', set⟩

/-- The rank of the packet in place `m` is available. -/
def Available (c : DRAMCtrl) (queue : List DRAMPacket) (m : Nat) : Prop :=
  ∃ p, queue[m]? = some p ∧ (c.rankRef p).inRefIdleState = true

/-- What the flags of the pass say, for the mask that `minBankPrep` returns. -/
structure Good (c : DRAMCtrl) (queue : List DRAMPacket) (mask : Nat → BitVec 32) (s : Choice) :
    Prop where
  filled : s.filledEarliestBanks = true → s.earliestBanks = mask
  found : s.foundHiddenBank = true ∨ s.foundPreppedPkt = true ∨ s.foundEarliestPkt = true →
    s.selected ≠ none
  available : ∀ m, s.selected = some m → Available c queue m

variable {mask : Nat → BitVec 32} {hidden : Bool} {k : Nat} {p : DRAMPacket} {s : Choice}

/-- A packet that must not be passed over if nothing else is selected. -/
def Wanted (c : DRAMCtrl) (mask : Nat → BitVec 32) (p : DRAMPacket) : Prop :=
  (c.rankRef p).inRefIdleState = true ∧
    ((c.bankRef p).openRow = p.row ∨ (mask p.rank.toNat).getLsbD p.bank.toNat = true)

theorem fillEarliestBanks_good (prep : c.minBankPrep queue minColAt = some (mask, hidden))
    (good : Good c queue mask s) :
    ∃ s', c.fillEarliestBanks queue minColAt s = some s' ∧ Good c queue mask s' ∧
      s'.earliestBanks = mask ∧ s'.selected = s.selected ∧
      s'.foundPreppedPkt = s.foundPreppedPkt := by
  rw [fillEarliestBanks]
  cases filled : s.filledEarliestBanks with
  | true => exact ⟨s, rfl, good, good.filled filled, rfl, rfl⟩
  | false =>
    rw [prep]
    exact ⟨_, rfl, ⟨fun _ => rfl, good.found, good.available⟩, rfl, rfl, rfl⟩

theorem pass_good (prep : c.minBankPrep queue minColAt = some (mask, hidden))
    (at_ : queue[k]? = some p) (good : Good c queue mask s) :
    ∃ s', c.pass queue minColAt k p s = some s' ∧ Good c queue mask s' ∧
      (s.selected ≠ none → s'.selected ≠ none) ∧ (Wanted c mask p → s'.selected ≠ none) := by
  rw [pass]
  by_cases idle : (c.rankRef p).inRefIdleState = true
  case neg =>
    rw [if_neg idle]
    exact ⟨s, rfl, good, id, fun wanted => absurd wanted.1 idle⟩
  rw [if_pos idle]
  have here : ∀ m, some k = some m → Available c queue m := fun m same =>
    Option.some.inj same ▸ ⟨p, at_, idle⟩
  by_cases hit : (c.bankRef p).openRow = p.row
  · rw [if_pos hit]
    by_cases first : (!s.foundHiddenBank && !s.foundPreppedPkt) = true
    · rw [if_pos first]
      exact ⟨_, rfl, ⟨good.filled, fun _ => some_ne_none k, here⟩,
        fun _ => some_ne_none k, fun _ => some_ne_none k⟩
    · rw [if_neg first]
      refine ⟨s, rfl, good, id, fun _ => good.found ?_⟩
      cases hiddenBank : s.foundHiddenBank with
      | true => exact .inl rfl
      | false => grind
  rw [if_neg hit]
  by_cases later : s.foundEarliestPkt = true
  · rw [later]
    exact ⟨s, rfl, good, id, fun _ => good.found (.inr (.inr later))⟩
  rw [Bool.eq_false_iff.mpr later]
  obtain ⟨s', filled, good', banks, selected, prepped⟩ := fillEarliestBanks_good prep good
  simp only [filled, bind_eq_bind, bind_some, banks]
  by_cases set : bits (mask p.rank.toNat) p.bank.toNat p.bank.toNat ≠ 0
  · rw [if_pos set]
    have chosen : (if s'.hiddenBankPrep || !s'.foundPreppedPkt then some k else s'.selected)
        ≠ none := by
      split
      case isTrue => exact some_ne_none k
      case isFalse no =>
        refine good'.found (.inr (.inl ?_))
        cases had : s'.foundPreppedPkt with
        | true => rfl
        | false => simp [had] at no
    refine ⟨_, rfl, ⟨fun _ => rfl, fun _ => chosen, fun m same => ?_⟩, fun _ => chosen,
      fun _ => chosen⟩
    split at same
    · exact here m same
    · exact good'.available m same
  · rw [if_neg set]
    refine ⟨s', rfl, good', fun some_ => selected ▸ some_, fun wanted => ?_⟩
    rcases wanted.2 with hit' | bit
    · exact absurd hit' hit
    · exact absurd ((bits_single_ne_zero _ _).mpr bit) set

theorem scan_spec (prep : c.minBankPrep queue minColAt = some (mask, hidden))
    (before rest : List DRAMPacket) (cut : queue = before ++ rest) (good : Good c queue mask s) :
    ∃ r, c.scan queue minColAt before.length rest s = some r ∧
      (∀ m, r = some m → Available c queue m) ∧ (s.selected ≠ none → r ≠ none) ∧
      ∀ p ∈ rest, Wanted c mask p → r ≠ none := by
  induction rest generalizing before s with
  | nil =>
    exact ⟨s.selected, rfl, good.available, id, fun _ mem => absurd mem not_mem_nil⟩
  | cons p rest ih =>
    have at_ : queue[before.length]? = some p := by rw [cut]; simp
    rw [scan]
    by_cases seamless : c.Seamless minColAt p
    · rw [if_pos seamless]
      refine ⟨some before.length, rfl, fun m same => ?_, fun _ => some_ne_none _,
        fun _ _ _ => some_ne_none _⟩
      exact Option.some.inj same ▸ ⟨p, at_, seamless.1.1⟩
    · rw [if_neg seamless]
      obtain ⟨s', passed, good', kept, wanted⟩ := pass_good prep at_ good
      obtain ⟨r, scanned, available, kept', wanted'⟩ := ih (before ++ [p])
        (by rw [cut, List.append_assoc]; rfl) good'
      rw [length_append, length_singleton] at scanned
      rw [passed, bind_some, scanned]
      refine ⟨r, rfl, available, fun some_ => kept' (kept some_), fun q mem want => ?_⟩
      rcases List.mem_cons.mp mem with rfl | later
      · exact kept' (wanted want)
      · exact wanted' q later want

theorem scan_seamless (prep : c.minBankPrep queue minColAt = some (mask, hidden))
    (before middle : List DRAMPacket) {after : List DRAMPacket}
    (cut : queue = before ++ (middle ++ p :: after)) (good : Good c queue mask s)
    (not : ∀ q ∈ middle, ¬c.Seamless minColAt q) (seamless : c.Seamless minColAt p) :
    c.scan queue minColAt before.length (middle ++ p :: after) s
      = some (some (before.length + middle.length)) := by
  induction middle generalizing before s with
  | nil => exact if_pos seamless
  | cons q middle ih =>
    have at_ : queue[before.length]? = some q := by rw [cut]; simp
    obtain ⟨s', passed, good', -⟩ := pass_good prep at_ good
    have rest := ih (before ++ [q]) (by rw [cut, List.append_assoc]; rfl) good'
      fun q' mem => not q' (List.mem_cons_of_mem q mem)
    rw [length_append, length_singleton] at rest
    rw [List.cons_append, scan, if_neg (not q List.mem_cons_self), passed, bind_some, rest,
      length_cons, Nat.add_assoc, Nat.add_comm 1]

/-- If every bank has a number of its own, the pass finds no packet just when no rank of a packet
is available, and it takes the oldest seamless row hit if there is one. -/
theorem chooseNextFRFCFS_spec (numbered : c.Numbered) (made : ∀ p ∈ queue, c.Made p)
    (extraColDelay : Tick) : ∃ r, c.chooseNextFRFCFS queue extraColDelay = some r ∧
      (r = none ↔ ∀ p ∈ queue, (c.rankRef p).inRefIdleState = false) ∧
      (∀ m, r = some m → Available c queue m) ∧
      ∀ before p after, queue = before ++ p :: after →
        (∀ q ∈ before, ¬c.Seamless (c.minColAt extraColDelay) q) →
        c.Seamless (c.minColAt extraColDelay) p → r = some before.length := by
  obtain ⟨mask, hidden, prep, marked⟩ := minBankPrep_spec numbered made (c.minColAt extraColDelay)
  have good : Good c queue mask ⟨fun _ => 0, false, false, false, false, false, none⟩ := by
    refine ⟨fun no => ?_, fun no => ?_, fun m no => ?_⟩
    · cases no
    · rcases no with no | no | no <;> cases no
    · cases no
  obtain ⟨r, scanned, available, -, wanted⟩ :=
    scan_spec prep [] queue (List.nil_append queue).symm good
  refine ⟨r, scanned, ⟨fun end_ p mem => ?_, fun busy => ?_⟩, available,
    fun before p after cut not seamless => ?_⟩
  · by_contra idle
    obtain ⟨q, mem', idle', set⟩ := marked ⟨p, mem, by simpa using idle⟩
    exact wanted q mem' ⟨idle', .inr set⟩ end_
  · by_contra some_
    obtain ⟨m, found⟩ := Option.ne_none_iff_exists'.mp some_
    obtain ⟨p, at_, idle⟩ := available m found
    rw [busy p (List.mem_of_getElem? at_)] at idle
    cases idle
  · have first := scan_seamless prep [] before (cut.trans (List.nil_append _).symm)
      good not seamless
    rw [← cut, List.length_nil, Nat.zero_add] at first
    exact Option.some.inj (scanned.symm.trans first)

/-- Two banks, of which the second has the row 7 open. -/
def twoBanks : DRAMCtrl where
  ranksPerChannel := 1
  banksPerRank := 2
  tRCD := 5
  tRP := 5
  memSchedPolicy := .frfcfs
  ranks _ := ⟨.REF_IDLE, fun j => ⟨if j = 1 then 7 else NO_ROW, 0, 0, 0, 0⟩⟩
  busState := .READ
  nextBurstAt := 20
  curTick := 0

/-- A read of row 7. -/
def readRow (bank : BitVec 8) : DRAMPacket := ⟨⟨0, bank, 7, bank.setWidth 16, 0⟩, true⟩

theorem chooseNextFRFCFS_spec_twoBanks :
    twoBanks.chooseNextFRFCFS [readRow 0, readRow 1] 0 = some (some 1) := by
  have numbered : twoBanks.Numbered := ⟨by decide, by decide⟩
  have made : ∀ p ∈ [readRow 0, readRow 1], twoBanks.Made p := by
    intro p mem
    simp only [List.mem_cons, List.not_mem_nil, or_false] at mem
    rcases mem with rfl | rfl
    · exact ⟨by decide, by decide, by decide⟩
    · exact ⟨by decide, by decide, by decide⟩
  obtain ⟨r, chosen, -, -, oldest⟩ := chooseNextFRFCFS_spec numbered made 0
  rw [chosen, oldest [readRow 0] (readRow 1) [] rfl (by simp; decide) (by decide)]
  rfl

theorem foldlM_skip {l : List (Nat × Nat)} (s : BankPrep) (none : ∀ b ∈ l, ¬Waits c queue b) :
    l.foldlM (c.prepBank queue minColAt) s = some s := by
  induction l with
  | nil => rfl
  | cons b l ih =>
    have same : c.prepBank queue minColAt s b = some s := if_neg (none b List.mem_cons_self)
    rw [foldlM_cons, same]
    exact ih fun b' mem => none b' (List.mem_cons_of_mem b mem)

/-- Ranks of one bank each, of which all but the first can be opened early. -/
def manyRanks : DRAMCtrl where
  ranksPerChannel := 2 ^ 17
  banksPerRank := 1
  tRCD := 5
  tRP := 5
  memSchedPolicy := .frfcfs
  ranks i := ⟨.REF_IDLE, fun _ => ⟨NO_ROW, 0, 0, 0, if i = 0 then 10 else 5⟩⟩
  busState := .READ
  nextBurstAt := 0
  curTick := 0

theorem allBanks_single (one : c.banksPerRank = 1) :
    c.allBanks = (List.range c.ranksPerChannel).map fun i => (i, 0) := by
  rw [allBanks, one, map_eq_flatMap]
  rfl

theorem waits_manyRanks (i : Nat) : Waits manyRanks [readRow 0] (i, 0) ↔ i % 2 ^ 16 = 0 := by
  have number : i * manyRanks.banksPerRank + 0 = i := Nat.mul_one i
  have idle : (manyRanks.rankRef (readRow 0)).inRefIdleState = true := by decide
  rw [Waits, number, gotWaiting, any_cons, any_nil, Bool.or_false, idle, Bool.true_and,
    beq_iff_eq, ← toNat_inj, toNat_ofNat]
  exact eq_comm

theorem minBankPrep_manyRanks : ∃ mask hidden,
    manyRanks.minBankPrep [readRow 0] 0 = some (mask, hidden) ∧ (mask 0).getLsbD 0 = false := by
  let start : BankPrep := ⟨fun _ => 0, MaxTick, false, false⟩
  let first := manyRanks.enterBank 0 start 0 0
  let last := manyRanks.enterBank 0 first (2 ^ 16) 0
  have enters {i : Nat} (s : BankPrep) (multiple : i % 2 ^ 16 = 0) :
      manyRanks.prepBank [readRow 0] 0 s (i, 0) = some (manyRanks.enterBank 0 s i 0) :=
    (if_pos ((waits_manyRanks i).mpr multiple)).trans (if_pos rfl)
  have skips (s : BankPrep) (from_ len : Nat) (inside : ∀ i, from_ ≤ i → i < from_ + len →
      i % 2 ^ 16 ≠ 0) :
      ((List.range' from_ len).map fun i => (i, 0)).foldlM (manyRanks.prepBank [readRow 0] 0) s
        = some s := by
    refine foldlM_skip s fun b mem => ?_
    obtain ⟨i, mem', rfl⟩ := List.mem_map.mp mem
    obtain ⟨low, high⟩ := List.mem_range'_1.mp mem'
    rw [waits_manyRanks]
    exact inside i low high
  have banks : manyRanks.allBanks = (0, 0) :: ((List.range' 1 (2 ^ 16 - 1)).map fun i => (i, 0)) ++
      (2 ^ 16, 0) :: ((List.range' (2 ^ 16 + 1) (2 ^ 16 - 1)).map fun i => (i, 0)) := by
    have cut : List.range (2 ^ 17) = 0 :: List.range' 1 (2 ^ 16 - 1) ++
        2 ^ 16 :: List.range' (2 ^ 16 + 1) (2 ^ 16 - 1) := by
      rw [range_eq_range', show 2 ^ 17 = 2 ^ 16 + 2 ^ 16 from rfl, ← range'_append_1]
      rfl
    rw [allBanks_single (show manyRanks.banksPerRank = 1 from rfl),
      show manyRanks.ranksPerChannel = 2 ^ 17 from rfl, cut, map_append, List.map_cons, List.map_cons]
  have run : manyRanks.allBanks.foldlM (manyRanks.prepBank [readRow 0] 0) start = some last := by
    rw [banks, foldlM_append, foldlM_cons, enters start (by decide), bind_eq_bind,
      bind_some, skips first 1 _ (fun i low high => by omega),
      bind_some, foldlM_cons, enters first (by decide), bind_eq_bind,
      bind_some, skips last _ _ (fun i low high => by omega)]
  exact ⟨last.bankMask, last.hiddenBankPrep, by rw [minBankPrep, run]; rfl, by decide⟩

/-- With more banks than numbers the pass may come to its end although all ranks are available. -/
theorem available_not_chosen : manyRanks.banksPerRank ≤ 32 ∧ manyRanks.Made (readRow 0) ∧
    (manyRanks.rankRef (readRow 0)).inRefIdleState = true ∧
    manyRanks.chooseNextFRFCFS [readRow 0] 0 = some none := by
  obtain ⟨mask, hidden, prep, clear⟩ := minBankPrep_manyRanks
  refine ⟨by decide, ⟨by decide, by decide, by decide⟩, by decide, ?_⟩
  have column : manyRanks.minColAt 0 = 0 := by decide
  have closed : ¬(manyRanks.bankRef (readRow 0)).openRow = (readRow 0).row := by decide
  have bit : ¬bits (mask (readRow 0).rank.toNat) (readRow 0).bank.toNat (readRow 0).bank.toNat ≠ 0 := by
    rw [bits_single_ne_zero]
    exact fun set => Bool.false_ne_true (clear.symm.trans set)
  rw [chooseNextFRFCFS, column, scan, if_neg (fun seamless => closed seamless.1.2), pass,
    if_pos (by decide), if_neg closed, fillEarliestBanks, prep]
  simp only [Bool.not_false, if_true, Option.map_some, Option.bind_eq_bind, Option.bind_some]
  rw [if_neg bit]
  rfl

end DRAMCtrl

end Gem5.Mem.DramScheduler
