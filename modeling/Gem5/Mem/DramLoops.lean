import Gem5.Mem.DramBursts

/-!
# The loops over the bursts of a packet

Each turn cuts off one burst. A write goes into the write queue unless its burst is there, and a
read into the read queue unless a queued write serves it.
-/

namespace Gem5.Mem.DRAMCtrl

open Dram Chunks List Multiset

variable {qos : Nat} {c : DRAMCtrl} {st : ReadLoop} {new : Multiset Burst}

variable {prm : Params} {pkt : Packet} {addr : Nat} {parts : List (Nat × Nat)} {left : Nat}

/-- The loop is at `addr`, has cut off `parts`, and has `left` turns to go. -/
structure Cut (prm : Params) (pkt : Packet) (addr : Nat) (parts : List (Nat × Nat))
    (left : Nat) : Prop where
  tiles : Tiles prm.burstSize pkt.addr parts (min addr (pkt.addr + pkt.size))
  left : left = if addr < pkt.addr + pkt.size then
    count prm.burstSize addr (pkt.addr + pkt.size) else 0

theorem Cut.start (fits : Fits prm pkt) (some_ : 0 < pkt.size) :
    Cut prm pkt pkt.addr [] (dramPktCount prm pkt) := by
  refine ⟨?_, ?_⟩
  · exact (Nat.min_eq_left (Nat.le_add_right _ _)).symm
  · rw [if_pos (by omega), dramPktCount_eq fits]

theorem Cut.turn (h : Cut prm pkt addr parts (left + 1)) (fits : Fits prm pkt) :
    Cut prm pkt (nextAddr prm addr) (parts ++ [(addr, partSize prm pkt addr)]) left ∧
      0 < partSize prm pkt addr ∧
      addr + partSize prm pkt addr ≤ burstAlign prm addr + prm.burstSize ∧
      addr + partSize prm pkt addr ≤ pkt.addr + pkt.size := by
  have pos := burstSize_pos prm
  have below : addr < pkt.addr + pkt.size := by
    by_contra beyond
    have none := h.left
    rw [if_neg beyond] at none
    exact absurd none (Nat.succ_ne_zero left)
  have room := fits.1
  have above := lt_next pos addr
  have turns := h.left
  rw [if_pos below] at turns
  have tiles := h.tiles
  rw [Nat.min_eq_left (Nat.le_of_lt below)] at tiles
  have align : burstAlign prm addr + prm.burstSize = (addr / prm.burstSize + 1) * prm.burstSize := by
    rw [burstAlign_eq, Nat.add_mul, Nat.one_mul]
  have next : addr + (min ((addr / prm.burstSize + 1) * prm.burstSize) (pkt.addr + pkt.size) - addr)
      = min ((addr / prm.burstSize + 1) * prm.burstSize) (pkt.addr + pkt.size) := by
    omega
  have size : 0 < min ((addr / prm.burstSize + 1) * prm.burstSize) (pkt.addr + pkt.size) - addr := by
    omega
  have inside : addr + (min ((addr / prm.burstSize + 1) * prm.burstSize) (pkt.addr + pkt.size) - addr)
      ≤ (addr / prm.burstSize + 1) * prm.burstSize :=
    next.trans_le (Nat.min_le_left _ _)
  rw [align, nextAddr_eq (by omega), partSize_eq fits below]
  refine ⟨⟨?_, ?_⟩, size, inside, next.trans_le (Nat.min_le_right _ _)⟩
  · have grown := tiles.snoc size inside
    rw [next] at grown
    exact grown
  · by_cases more : (addr / prm.burstSize + 1) * prm.burstSize < pkt.addr + pkt.size
    · rw [if_pos more]
      rw [count_more pos more] at turns
      exact Nat.succ.inj turns
    · rw [if_neg more]
      rw [count_last pos below (Nat.le_of_not_lt more)] at turns
      exact Nat.succ.inj turns

theorem Cut.done (h : Cut prm pkt addr parts 0) :
    Tiles prm.burstSize pkt.addr parts (pkt.addr + pkt.size) := by
  have pos := burstSize_pos prm
  have beyond : ¬ addr < pkt.addr + pkt.size := by
    intro below
    have turns := h.left
    rw [if_pos below] at turns
    rcases Nat.lt_or_ge ((addr / prm.burstSize + 1) * prm.burstSize) (pkt.addr + pkt.size)
      with more | last
    · rw [count_more pos more] at turns
      exact absurd turns.symm (Nat.succ_ne_zero _)
    · grind [count_last]
  have tiles := h.tiles
  rw [Nat.min_eq_right (Nat.le_of_not_lt beyond)] at tiles
  exact tiles

/-- The write queues, the set of the bursts in them, and the total. -/
structure WriteSide (prm : Params) (queues : Nat → List DRAMPacket) (isIn : Finset Nat)
    (total : Nat) : Prop where
  once : ((bursts prm.numPriorities queues).map fun b => burstAlign prm b.addr).Nodup
  members : ∀ a, a ∈ isIn ↔ a ∈ (bursts prm.numPriorities queues).map fun b => burstAlign prm b.addr
  inside : ∀ b ∈ bursts prm.numPriorities queues,
    b.addr + b.size ≤ burstAlign prm b.addr + prm.burstSize ∧
      b.addr + b.size + prm.burstSize ≤ 2 ^ 64
  counted : total = (bursts prm.numPriorities queues).card
  filed : Filed prm.numPriorities queues
  room : total ≤ prm.writeBufferSize

variable {queues : Nat → List DRAMPacket} {isIn : Finset Nat} {total : Nat}

theorem WriteSide.card (h : WriteSide prm queues isIn total) : isIn.card = total := by
  have same : isIn = ((bursts prm.numPriorities queues).map fun b => burstAlign prm b.addr).toFinset :=
    Finset.ext fun a => by rw [h.members, Multiset.mem_toFinset]
  rw [same, Multiset.toFinset_card_of_nodup h.once, card_map, h.counted]

theorem WriteSide.push (h : WriteSide prm queues isIn total) {p : DRAMPacket}
    (known : p.qosValue < prm.numPriorities) (fresh : burstAlign prm p.addr ∉ isIn) (inside : p.addr
    + p.size ≤ burstAlign prm p.addr + prm.burstSize ∧ p.addr + p.size + prm.burstSize ≤ 2 ^ 64)
    (room : total < prm.writeBufferSize) :
    WriteSide prm (Function.update queues p.qosValue (queues p.qosValue ++ [p]))
      (insert (burstAlign prm p.addr) isIn) (total + 1) := by
  have grown : bursts prm.numPriorities (Function.update queues p.qosValue (queues p.qosValue ++ [p]))
      = p.toBurst ::ₘ bursts prm.numPriorities queues := by
    rw [bursts_append known, add_comm]
    rfl
  refine ⟨?_, fun a => ?_, fun b mem => ?_, ?_, ?_, room⟩
  · rw [grown, Multiset.map_cons, Multiset.nodup_cons]
    exact ⟨fun mem => fresh ((h.members _).mpr mem), h.once⟩
  · rw [grown, Multiset.map_cons, Multiset.mem_cons, Finset.mem_insert, h.members]
  · rw [grown, Multiset.mem_cons] at mem
    rcases mem with rfl | mem
    · exact inside
    · exact h.inside b mem
  · rw [grown, card_cons, h.counted]
  · refine h.filed.append fun p' mem => ?_
    rw [List.mem_singleton.mp mem]

theorem WriteSide.erase (h : WriteSide prm queues isIn total) {p : DRAMPacket} {q i : Nat}
    (known : q < prm.numPriorities) (at_ : (queues q)[i]? = some p) :
    WriteSide prm (Function.update queues q ((queues q).eraseIdx i))
      (isIn.erase (burstAlign prm p.addr)) (total - 1) := by
  have shrunk := bursts_erase known at_
  have once := h.once
  rw [shrunk, Multiset.map_cons, Multiset.nodup_cons] at once
  have total := h.counted
  rw [shrunk, card_cons] at total
  have room := h.room
  refine ⟨once.2, fun a => ?_, fun b mem => ?_, ?_, ?_, ?_⟩
  · rw [Finset.mem_erase, h.members, shrunk, Multiset.map_cons, Multiset.mem_cons]
    constructor
    · grind
    · grind
  · exact h.inside b (shrunk ▸ Multiset.mem_cons_of_mem mem)
  · omega
  · exact h.filed.shrink fun p' mem => mem_of_mem_eraseIdx mem
  · omega

/-- Only the write queues, their set and their total differ. -/
def OnlyWrites (c c' : DRAMCtrl) : Prop :=
  ∃ queues isIn total, c' = { c with
    writeQueue := queues
    isInWriteQueue := isIn
    totalWriteQueueSize := total }

theorem writeTurn_keeps {st : WriteLoop} (num : Nat)
    (cut : Cut prm pkt st.addr st.bursts (left + 1)) (fits : Fits prm pkt)
    (known : qos < prm.numPriorities)
    (h : WriteSide prm st.ctrl.writeQueue st.ctrl.isInWriteQueue st.ctrl.totalWriteQueueSize)
    (room : st.ctrl.totalWriteQueueSize + (left + 1) ≤ prm.writeBufferSize) :
    ∃ st', writeTurn prm pkt num qos st = some st' ∧ Cut prm pkt st'.addr st'.bursts left ∧
      WriteSide prm st'.ctrl.writeQueue st'.ctrl.isInWriteQueue st'.ctrl.totalWriteQueueSize ∧
      st'.ctrl.totalWriteQueueSize + left ≤ prm.writeBufferSize ∧ OnlyWrites st.ctrl st'.ctrl := by
  obtain ⟨next, -, inside, below⟩ := cut.turn fits
  have top := fits.1
  rw [writeTurn]
  by_cases merged : burstAlign prm st.addr ∈ st.ctrl.isInWriteQueue
  · simp only [if_pos merged]
    exact ⟨_, rfl, next, h, by dsimp only; omega, _, _, _, rfl⟩
  · have free : st.ctrl.totalWriteQueueSize < prm.writeBufferSize := by omega
    have pushed := h.push (p := ⟨⟨num, pkt.masterId, st.addr, partSize prm pkt st.addr, none⟩, qos⟩)
      known merged ⟨inside, by dsimp only; omega⟩ free
    have card := pushed.card
    simp only [if_neg merged, if_pos free, if_pos card.symm]
    exact ⟨_, rfl, next, pushed, by dsimp only; omega, _, _, _, rfl⟩

theorem writeLoop_keeps (st : WriteLoop) (num : Nat) (cut : Cut prm pkt st.addr st.bursts left)
    (fits : Fits prm pkt) (known : qos < prm.numPriorities)
    (h : WriteSide prm st.ctrl.writeQueue st.ctrl.isInWriteQueue st.ctrl.totalWriteQueueSize)
    (room : st.ctrl.totalWriteQueueSize + left ≤ prm.writeBufferSize) :
    ∃ st', writeLoop prm pkt num qos left st = some st' ∧
      Tiles prm.burstSize pkt.addr st'.bursts (pkt.addr + pkt.size) ∧
      WriteSide prm st'.ctrl.writeQueue st'.ctrl.isInWriteQueue st'.ctrl.totalWriteQueueSize ∧
      OnlyWrites st.ctrl st'.ctrl := by
  induction left generalizing st with
  | zero => exact ⟨st, rfl, cut.done, h, _, _, _, rfl⟩
  | succ left ih =>
    obtain ⟨st₁, turned, cut₁, side₁, room₁, queues, isIn, total, only₁⟩ :=
      writeTurn_keeps num cut fits known h room
    obtain ⟨st', looped, tiles, side, only⟩ := ih st₁ cut₁ side₁ room₁
    refine ⟨st', ?_, tiles, side, ?_⟩
    · rw [writeLoop, turned]
      exact looped
    · aesop

theorem countP_any_le (n : Nat) (queues : Nat → List DRAMPacket) (f : Burst → Bool) :
    (List.range n).countP (fun q => (queues q).any fun p => f p.toBurst)
      ≤ (bursts n queues).countP (f · = true) := by
  induction n with
  | zero => simp
  | succ n ih =>
    have last : [n].countP (fun q => (queues q).any fun p => f p.toBurst)
        ≤ ((queues n).map DRAMPacket.toBurst).countP (f · = true) := by
      by_cases some_ : (queues n).any fun p => f p.toBurst
      · simp_all
      · grind
    rw [List.range_succ, countP_append, bursts, Finset.sum_range_succ, countP_add]
    refine Nat.add_le_add ih ?_
    simpa using last

theorem burstAlign_of_covers {addr size : Nat} {b : Burst} (some_ : 0 < size)
    (low : addr + size < 2 ^ 64) (inside : b.addr + b.size ≤ burstAlign prm b.addr + prm.burstSize ∧
    b.addr + b.size + prm.burstSize ≤ 2 ^ 64) (cov : covers addr size b = true) :
    burstAlign prm b.addr = burstAlign prm addr := by
  rw [covers, Bool.and_eq_true, decide_eq_true_iff, decide_eq_true_iff, Nat.mod_eq_of_lt low,
    Nat.mod_eq_of_lt (by omega)] at cov
  have split := Nat.div_add_mod b.addr prm.burstSize
  rw [burstAlign_eq, burstAlign_eq]
  rw [burstAlign_eq] at inside
  rw [Nat.mul_comm] at split
  have high : b.addr / prm.burstSize * prm.burstSize + prm.burstSize
      = (b.addr / prm.burstSize + 1) * prm.burstSize := by rw [Nat.add_mul, Nat.one_mul]
  rw [div_eq_of_between (y := addr) b.addr (by omega) (by omega)]

theorem servicedByWrQ_le {addr size : Nat} (some_ : 0 < size) (low : addr + size < 2 ^ 64)
    (h : WriteSide prm c.writeQueue c.isInWriteQueue c.totalWriteQueueSize) :
    c.servicedByWrQ prm addr size ≤ 1 := by
  rw [servicedByWrQ]
  split
  · refine Nat.le_trans (countP_any_le _ c.writeQueue (covers addr size)) ?_
    have once := Multiset.nodup_iff_count_le_one.mp h.once (burstAlign prm addr)
    rw [count_map] at once
    rw [countP_eq_card_filter]
    refine Nat.le_trans (card_le_card ?_) once
    rw [Multiset.le_filter]
    refine ⟨Multiset.filter_le _ _, fun b mem => ?_⟩
    obtain ⟨queued, cov⟩ := Multiset.mem_filter.mp mem
    exact (burstAlign_of_covers some_ low (h.inside b queued) cov).symm
  · exact Nat.zero_le 1

/-- The address and the size of a burst. -/
def part (b : Burst) : Nat × Nat := (b.addr, b.size)

/-- Only the read queues, their total and the helpers differ. -/
def OnlyReads (c c' : DRAMCtrl) : Prop :=
  ∃ queues total helpers, c' = { c with
    readQueue := queues
    totalReadQueueSize := total
    helpers := helpers }

/-- The loop has put `new` into the read queues of `c`; the helper is there once it is needed. -/
structure Reading (prm : Params) (pkt : Packet) (cnt num : Nat) (c : DRAMCtrl) (left : Nat)
    (st : ReadLoop) (new : Multiset Burst) : Prop where
  cut : Cut prm pkt st.addr st.bursts left
  counted : st.bursts.length + left = cnt
  parts : (st.bursts : Multiset (Nat × Nat)) = st.fromWrQ + new.map part
  serviced : st.pktsServicedByWrQ = st.fromWrQ.length
  queued : bursts prm.numPriorities st.ctrl.readQueue = bursts prm.numPriorities c.readQueue + new
  filed : Filed prm.numPriorities st.ctrl.readQueue
  total : st.ctrl.totalReadQueueSize = c.totalReadQueueSize + new.card
  own : ∀ b ∈ new, b.pkt = num ∧ b.burstHelper = st.burstHelper
  single : new = 0 ∨ cnt ≤ 1 → st.burstHelper = none ∧ st.ctrl.helpers = c.helpers
  split : new ≠ 0 → 1 < cnt → st.burstHelper = some num ∧
    st.ctrl.helpers = Function.update c.helpers num (some ⟨cnt, 0⟩)
  only : OnlyReads c st.ctrl

theorem Reading.card {cnt num : Nat} (h : Reading prm pkt cnt num c left st new) :
    new.card + st.pktsServicedByWrQ + left = cnt := by
  have sizes := congrArg Multiset.card h.parts
  rw [card_add, card_map, coe_card, coe_card] at sizes
  have counted := h.counted
  have serviced := h.serviced
  omega

theorem Reading.push {cnt num qos : Nat} {c : DRAMCtrl} {st : ReadLoop} {new : Multiset Burst}
    (h : Reading prm pkt cnt num c (left + 1) st new) (fits : Fits prm pkt)
    (known : qos < prm.numPriorities) {helper : Option Nat} {helpers : Nat → Option BurstHelper}
    (own : ∀ b ∈ new, b.burstHelper = helper)
    (single : cnt ≤ 1 → helper = none ∧ helpers = c.helpers)
    (split : 1 < cnt → helper = some num ∧
      helpers = Function.update c.helpers num (some ⟨cnt, 0⟩)) :
    Reading prm pkt cnt num c left
      { st with
        addr := nextAddr prm st.addr
        bursts := st.bursts ++ [(st.addr, partSize prm pkt st.addr)]
        burstHelper := helper
        ctrl := { st.ctrl with
          helpers := helpers
          readQueue := Function.update st.ctrl.readQueue qos (st.ctrl.readQueue qos ++
            [⟨⟨num, pkt.masterId, st.addr, partSize prm pkt st.addr, helper⟩, qos⟩])
          totalReadQueueSize := st.ctrl.totalReadQueueSize + 1 } }
      (⟨num, pkt.masterId, st.addr, partSize prm pkt st.addr, helper⟩ ::ₘ new) where
  cut := (h.cut.turn fits).1
  counted := by
    have counted := h.counted
    rw [length_append, length_singleton]
    omega
  parts := by
    rw [← coe_add, h.parts, Multiset.map_cons, ← singleton_add, add_assoc,
      add_comm (new.map part)]
    rfl
  serviced := h.serviced
  queued := by
    rw [bursts_append known, h.queued, add_assoc, ← singleton_add _ new, add_comm new]
    rfl
  filed := h.filed.append fun p mem => by rw [List.mem_singleton.mp mem]
  total := by
    rw [card_cons, h.total]
    rfl
  own := by
    intro b mem
    rcases Multiset.mem_cons.mp mem with rfl | old
    · exact ⟨rfl, rfl⟩
    · exact ⟨(h.own b old).1, own b old⟩
  single none := none.elim (fun none => absurd none cons_ne_zero) single
  split _ := split
  only := by
    obtain ⟨queues, total, helpers, only⟩ := h.only
    exact ⟨_, _, _, by rw [only]⟩

theorem readTurn_keeps {cnt num : Nat} (h : Reading prm pkt cnt num c (left + 1) st new)
    (fits : Fits prm pkt) (known : qos < prm.numPriorities)
    (side : WriteSide prm c.writeQueue c.isInWriteQueue c.totalWriteQueueSize)
    (room : c.totalReadQueueSize + c.respQueue.length + cnt ≤ prm.readBufferSize) :
    ∃ st' new', readTurn prm pkt cnt num qos st = some st' ∧
      Reading prm pkt cnt num c left st' new' := by
  obtain ⟨next, size, inside, below⟩ := h.cut.turn fits
  have pos := burstSize_pos prm
  have top := fits.1
  have card := h.card
  have counted := h.counted
  obtain ⟨queues, total, helpers, only⟩ := h.only
  have few : st.ctrl.servicedByWrQ prm st.addr (partSize prm pkt st.addr) ≤ 1 := by
    refine servicedByWrQ_le size (by omega) ?_
    rw [only]
    exact side
  rw [readTurn]
  by_cases found : 0 < st.ctrl.servicedByWrQ prm st.addr (partSize prm pkt st.addr)
  · have once : st.ctrl.servicedByWrQ prm st.addr (partSize prm pkt st.addr) = 1 := by omega
    simp only [once]
    refine ⟨_, new, rfl, { h with
      cut := next
      counted := ?_
      parts := ?_
      serviced := ?_ }⟩
    · grind
    · rw [← coe_add, ← coe_add, h.parts]
      ac_rfl
    · rw [length_append, length_singleton, h.serviced]
  · have resp : st.ctrl.respQueue = c.respQueue := by rw [only]
    have space : ∀ helpers,
        DRAMCtrl.readQueueFull prm { st.ctrl with helpers := helpers } 1 = false := by
      intro helpers
      have total := h.total
      rw [readQueueFull, decide_eq_false_iff_not]
      dsimp only
      rw [resp]
      omega
    simp only [if_neg found]
    by_cases create : 1 < cnt ∧ st.burstHelper = none
    · -- the first burst of several that goes there brings the helper
      have first : new = 0 := by
        by_contra some_
        have there := (h.split some_ create.1).1
        rw [create.2] at there
        cases there
      have untouched := (h.single (.inl first)).2
      simp only [if_pos create, space]
      refine ⟨_, _, rfl, h.push fits known (fun b mem => ?_) (fun few => ?_) fun _ => ?_⟩
      · grind
      · exact absurd create.1 (Nat.not_lt.mpr few)
      · rw [untouched]
        exact ⟨rfl, rfl⟩
    · have full := space st.ctrl.helpers
      simp only [if_neg create]
      rw [if_neg (by rw [full]; exact Bool.false_ne_true)]
      refine ⟨_, _, rfl, h.push fits known (fun b mem => (h.own b mem).2)
        (fun few => h.single (.inr few)) fun several => ?_⟩
      exact h.split (fun none => create ⟨several, (h.single (.inl none)).1⟩) several

theorem readLoop_keeps {cnt num : Nat} (h : Reading prm pkt cnt num c left st new)
    (fits : Fits prm pkt) (known : qos < prm.numPriorities)
    (side : WriteSide prm c.writeQueue c.isInWriteQueue c.totalWriteQueueSize)
    (room : c.totalReadQueueSize + c.respQueue.length + cnt ≤ prm.readBufferSize) :
    ∃ st' new', readLoop prm pkt cnt num qos left st = some st' ∧
      Reading prm pkt cnt num c 0 st' new' := by
  induction left generalizing st new with
  | zero => exact ⟨st, new, rfl, h⟩
  | succ left ih => grind [readLoop, readTurn_keeps]

end Gem5.Mem.DRAMCtrl
