import Gem5.Lib.Tables
import Gem5.Lib.Tiles
import Gem5.Mem.DramCtrl
import Mathlib.Algebra.BigOperators.Group.Multiset.Basic

/-!
# The bursts of a packet

Where no address wraps, the loops over the bursts of a packet cut its range at the boundaries of
the bursts.
-/

namespace Gem5.Mem.DRAMCtrl

open Dram Chunks

variable {prm : Params} {pkt : Packet} {addr : Nat}

theorem burstSize_pos (prm : Params) : 0 < prm.burstSize := by
  obtain ⟨k, pow⟩ := prm.burstPow
  exact pow ▸ Nat.two_pow_pos k

theorem offset_eq (prm : Params) (addr : Nat) :
    addr &&& (prm.burstSize - 1) = addr % prm.burstSize := by
  obtain ⟨k, pow⟩ := prm.burstPow
  rw [pow, Nat.and_two_pow_sub_one_eq_mod]

theorem burstAlign_eq (prm : Params) (addr : Nat) :
    burstAlign prm addr = addr / prm.burstSize * prm.burstSize := by
  have split := Nat.div_add_mod addr prm.burstSize
  rw [Nat.mul_comm] at split
  rw [burstAlign, offset_eq]
  omega

theorem or_low_bits (x k : Nat) : (x ||| (2 ^ k - 1)) + 1 = (x / 2 ^ k + 1) * 2 ^ k := by
  have pos := Nat.two_pow_pos k
  have whole : x ||| (2 ^ k - 1) = 2 ^ k * (x / 2 ^ k) + (2 ^ k - 1) := by
    rw [Nat.two_pow_add_eq_or_of_lt (by omega)]
    refine Nat.eq_of_testBit_eq fun i => ?_
    rw [Nat.testBit_or, Nat.testBit_or, Nat.testBit_two_pow_sub_one, Nat.testBit_two_pow_mul,
      Nat.testBit_div_two_pow]
    by_cases low : i < k
    · simp [low]
    · simp [Nat.le_of_not_lt low]
  rw [whole, Nat.add_mul, Nat.one_mul, Nat.mul_comm]
  omega

/-- The packet ends below the last burst of the address space, and its bursts can be counted. -/
def Fits (prm : Params) (pkt : Packet) : Prop :=
  pkt.addr + pkt.size + prm.burstSize ≤ 2 ^ 64 ∧
    pkt.addr % prm.burstSize + pkt.size + prm.burstSize ≤ 2 ^ 32

instance (prm : Params) (pkt : Packet) : Decidable (Fits prm pkt) :=
  inferInstanceAs (Decidable (_ ∧ _))

theorem next_le (inside : addr + prm.burstSize < 2 ^ 64) :
    (addr / prm.burstSize + 1) * prm.burstSize < 2 ^ 64 := by
  have split := Nat.div_add_mod addr prm.burstSize
  rw [Nat.add_mul, Nat.one_mul, Nat.mul_comm]
  omega

theorem nextAddr_eq (inside : addr + prm.burstSize < 2 ^ 64) :
    nextAddr prm addr = (addr / prm.burstSize + 1) * prm.burstSize := by
  have bound := next_le inside
  obtain ⟨k, pow⟩ := prm.burstPow
  rw [nextAddr, pow, or_low_bits, ← pow]
  exact Nat.mod_eq_of_lt bound

theorem partSize_eq (fits : Fits prm pkt) (below : addr < pkt.addr + pkt.size) :
    partSize prm pkt addr
      = min ((addr / prm.burstSize + 1) * prm.burstSize) (pkt.addr + pkt.size) - addr := by
  have pos := burstSize_pos prm
  have room := fits.1
  have above := lt_next pos addr
  have split := Nat.div_add_mod addr prm.burstSize
  have ranged := prm.ranged
  have next : (addr / prm.burstSize + 1) * prm.burstSize ≤ addr + prm.burstSize := by grind
  rw [partSize, nextAddr_eq (by omega), Nat.mod_eq_of_lt (a := pkt.addr + pkt.size) (by omega)]
  omega

theorem dramPktCount_eq (fits : Fits prm pkt) :
    dramPktCount prm pkt = count prm.burstSize pkt.addr (pkt.addr + pkt.size) := by
  have room := fits.2
  rw [dramPktCount, offset_eq, count, Nat.add_sub_cancel_left, Nat.mod_eq_of_lt (by omega)]

/-- The bursts of all priorities. -/
def bursts (n : Nat) (queues : Nat → List DRAMPacket) : Multiset Burst :=
  ∑ q ∈ Finset.range n, ((queues q).map DRAMPacket.toBurst : List Burst)

/-- A packet is in the queue of its priority. -/
def Filed (n : Nat) (queues : Nat → List DRAMPacket) : Prop :=
  ∀ q < n, ∀ p ∈ queues q, p.qosValue = q

variable {n q i : Nat} {queues : Nat → List DRAMPacket} {p : DRAMPacket}

theorem bursts_update (known : q < n) (queues : Nat → List DRAMPacket) (l : List DRAMPacket) :
    bursts n (Function.update queues q l) + ((queues q).map DRAMPacket.toBurst : List Burst)
      = bursts n queues + (l.map DRAMPacket.toBurst : List Burst) :=
  Sums.measure_update known queues l fun l : List DRAMPacket =>
    ((l.map DRAMPacket.toBurst : List Burst) : Multiset Burst)

theorem bursts_append (known : q < n) (queues : Nat → List DRAMPacket) (l : List DRAMPacket) :
    bursts n (Function.update queues q (queues q ++ l))
      = bursts n queues + (l.map DRAMPacket.toBurst : List Burst) := by
  have sum := bursts_update known queues (queues q ++ l)
  rw [List.map_append, ← Multiset.coe_add, add_comm (Multiset.ofList _) (Multiset.ofList (l.map _)),
    ← add_assoc] at sum
  exact add_right_cancel sum

theorem bursts_erase (known : q < n) (at_ : (queues q)[i]? = some p) :
    bursts n queues = p.toBurst ::ₘ bursts n (Function.update queues q ((queues q).eraseIdx i)) := by
  obtain ⟨inside, rfl⟩ := List.getElem?_eq_some_iff.mp at_
  have sum := bursts_update known queues ((queues q).eraseIdx i)
  have split : ((queues q).map DRAMPacket.toBurst : List Burst)
      = ((queues q)[i].toBurst ::ₘ (((queues q).eraseIdx i).map DRAMPacket.toBurst : List Burst)
        : Multiset Burst) :=
    Multiset.coe_eq_coe.mpr ((List.getElem_cons_eraseIdx_perm inside).symm.map _)
  rw [split, Multiset.add_cons, ← Multiset.cons_add] at sum
  exact (add_right_cancel sum).symm

theorem Filed.append (h : Filed n queues) {l : List DRAMPacket} (own : ∀ p ∈ l, p.qosValue = q) :
    Filed n (Function.update queues q (queues q ++ l)) := by
  intro t known p mem
  by_cases here : t = q
  · aesop
  · aesop

theorem Filed.shrink (h : Filed n queues) {l : List DRAMPacket} (fewer : ∀ p ∈ l, p ∈ queues q) :
    Filed n (Function.update queues q l) := by
  intro t known p mem
  by_cases here : t = q
  · aesop
  · aesop

theorem escalateQueues_keeps (h : Filed n queues) {mId currPrio tgtPrio : Nat}
    (curr : currPrio < n) (tgt : tgtPrio < n) :
    Filed n (escalateQueues queues mId currPrio tgtPrio) ∧
      bursts n (escalateQueues queues mId currPrio tgtPrio) = bursts n queues := by
  have fewer : ∀ p ∈ (queues currPrio).filter (·.masterId ≠ mId), p ∈ queues currPrio :=
    fun p mem => List.mem_of_mem_filter mem
  refine ⟨(h.shrink fewer).append fun p mem => ?_, ?_⟩
  · grind
  · have out := bursts_update curr queues ((queues currPrio).filter (·.masterId ≠ mId))
    have split : ((queues currPrio).map DRAMPacket.toBurst : List Burst)
        = ((((queues currPrio).filter (·.masterId = mId)).map DRAMPacket.toBurst : List Burst)
          + (((queues currPrio).filter (·.masterId ≠ mId)).map DRAMPacket.toBurst : List Burst)
          : Multiset Burst) := by
      rw [Multiset.coe_add, ← List.map_append]
      refine Multiset.coe_eq_coe.mpr (List.Perm.map _ ?_)
      have parts := List.filter_append_perm (fun p : DRAMPacket => decide (p.masterId = mId))
        (queues currPrio)
      simpa using parts.symm
    rw [split, ← add_assoc] at out
    rw [escalateQueues, bursts_append tgt, List.map_map]
    exact add_right_cancel out

theorem escalate_keeps (h : Filed prm.numPriorities queues) (mId : Nat) {tgtPrio : Nat}
    (tgt : tgtPrio < prm.numPriorities) :
    Filed prm.numPriorities (escalate prm queues mId tgtPrio) ∧
      bursts prm.numPriorities (escalate prm queues mId tgtPrio)
        = bursts prm.numPriorities queues := by
  have general : ∀ (l : List Nat) (qs : Nat → List DRAMPacket), (∀ t ∈ l, t < prm.numPriorities) →
      Filed prm.numPriorities qs →
      let qs' := l.foldl (fun queues currPrio =>
        if currPrio = tgtPrio then queues else escalateQueues queues mId currPrio tgtPrio) qs
      Filed prm.numPriorities qs' ∧ bursts prm.numPriorities qs' = bursts prm.numPriorities qs := by
    intro l
    induction l with
    | nil => exact fun qs _ filed => ⟨filed, rfl⟩
    | cons t rest ih =>
      intro qs known filed
      rw [List.foldl_cons]
      by_cases skip : t = tgtPrio
      · grind
      · rw [if_neg skip]
        obtain ⟨filed', same⟩ := escalateQueues_keeps filed (known t List.mem_cons_self) tgt
        obtain ⟨filed'', same'⟩ := ih _ (fun s mem => known s (List.mem_cons_of_mem t mem)) filed'
        exact ⟨filed'', same'.trans same⟩
  exact general _ queues (fun t mem => List.mem_range.mp mem) h

end Gem5.Mem.DRAMCtrl
