import Gem5.Lib.Runs
import Gem5.Mem.MemCmd

/-!
# Load locks on a cache block

A block lists the byte ranges its contexts have load-locked. A write removes the locks of other
contexts that it meets; the swap branch of `satisfyRequest` writes the block without a look at
the list, so a lock outlives the swap of another context.
-/

namespace Gem5.Mem.Locked

open List Bool

/-- A locked range, its ends included. -/
structure Lock where
  contextId : ContextID
  lowAddr : Nat
  highAddr : Nat
  deriving DecidableEq, Repr

namespace Lock

def new (contextId : ContextID) (req : Request) : Lock :=
  ⟨contextId, req.paddr, req.paddr + req.size - 1⟩

def within (l : Lock) (req : Request) : Bool :=
  l.lowAddr ≤ req.paddr && req.paddr + req.size - 1 ≤ l.highAddr

def isMatch (l : Lock) (contextId : ContextID) (req : Request) : Bool :=
  l.contextId == contextId && l.within req

def intersects (l : Lock) (req : Request) : Bool :=
  req.paddr ≤ l.highAddr && l.lowAddr ≤ req.paddr + req.size - 1

end Lock

structure CacheBlk where
  valid : Bool
  writable : Bool
  dirty : Bool
  data : Bytes
  lockList : List Lock

/-- The packet after the request, and whether the request wrote the block. -/
structure Outcome where
  pkt : Packet
  wrote : Bool

variable {pkt : Packet} {locks' : List Lock}

namespace CacheBlk

def trackLoadLocked (locks : List Lock) (contextId : ContextID) (req : Request) : List Lock :=
  .new contextId req :: locks.filter fun l => ! l.intersects req

def clearLoadLocks (locks : List Lock) (contextId : ContextID) (req : Request) : List Lock :=
  locks.filter fun l => ! (l.intersects req && l.contextId != contextId)

/-- Whether a write may proceed, and the locks after it. A store-conditional uses up the first
lock that matches it. `none` where a lock is compared with a request that has no context. -/
def checkWrite (locks : List Lock) (pkt : Packet) : Option (Bool × List Lock) :=
  if ! pkt.cmd.isLLSC && locks.isEmpty then some (true, locks)
  else
    match pkt.req.contextId with
    | some contextId =>
      if pkt.cmd.isLLSC then
        some (locks.any fun l => l.isMatch contextId pkt.req,
          clearLoadLocks (locks.eraseP fun l => l.isMatch contextId pkt.req) contextId pkt.req)
      else some (true, clearLoadLocks locks contextId pkt.req)
    | none =>
      if pkt.cmd.isLLSC && ! locks.isEmpty then none
      else if locks.any fun l => l.intersects pkt.req then none
      else some (! pkt.cmd.isLLSC, locks)

/-- A write sets the extra data of a store-conditional to its success. -/
def writeBlock (blkSize : Nat) (blk : CacheBlk) (pkt : Packet) : Option (CacheBlk × Outcome) :=
  match checkWrite blk.lockList pkt with
  | none => none
  | some (success, locks) =>
    some ({ blk with
      data := if success then pkt.writeData blk.data (pkt.getOffset blkSize) else blk.data
      dirty := true
      lockList := locks },
      ⟨if pkt.cmd.isLLSC then pkt.setExtraData success.toNat else pkt, success⟩)

def cmpAndSwap (blkSize : Nat) (blk : CacheBlk) (pkt : Packet) : Option (CacheBlk × Outcome) :=
  let offset := pkt.getOffset blkSize
  if 8 < pkt.getSize then none
  else
    match pkt.overwriteMem blk.data offset with
    | none => none
    | some overwrite =>
      let answer := pkt.setData blk.data offset
      if overwrite then
        some ({ blk with data := memcpy blk.data offset pkt.data pkt.getSize, dirty := true },
          ⟨answer, true⟩)
      else some (blk, ⟨answer, false⟩)

def swap (blkSize : Nat) (blk : CacheBlk) (pkt : Packet) : Option (CacheBlk × Outcome) :=
  match pkt.req.atomicOp with
  | some op =>
    let offset := pkt.getOffset blkSize
    let result := op fun i => blk.data (offset + i)
    some ({ blk with data := memcpy blk.data offset result pkt.getSize, dirty := true },
      ⟨pkt.setData blk.data offset, true⟩)
  | none => blk.cmpAndSwap blkSize pkt

def readBlock (blkSize : Nat) (blk : CacheBlk) (pkt : Packet) : Option (CacheBlk × Outcome) :=
  let answer := pkt.setData blk.data (pkt.getOffset blkSize)
  if pkt.cmd.isLLSC then
    match pkt.req.contextId with
    | some contextId =>
      some ({ blk with lockList := trackLoadLocked blk.lockList contextId pkt.req },
        ⟨answer, false⟩)
    | none => none
  else some (blk, ⟨answer, false⟩)

/-- A request on a block; `none` where an assertion or a panic stops the simulator. -/
def satisfyRequest (blkSize : Nat) (blk : CacheBlk) (pkt : Packet) :
    Option (CacheBlk × Outcome) :=
  if ! blk.valid || blkSize < pkt.getOffset blkSize + pkt.getSize then none
  else if pkt.cmd = .SwapReq then blk.swap blkSize pkt
  else if pkt.cmd.isWrite then
    if blk.writable then blk.writeBlock blkSize pkt else none
  else if pkt.cmd.isRead then blk.readBlock blkSize pkt
  else if pkt.cmd.isUpgrade then
    if pkt.hasSharers then none
    else
      some ({ blk with dirty := false },
        ⟨if blk.dirty then { pkt with cacheResponding := true } else pkt, false⟩)
  else if pkt.cmd.isClean then some ({ blk with dirty := false }, ⟨pkt, false⟩)
  else if pkt.cmd.isInvalidate then
    some ({ blk with valid := false, writable := false, dirty := false, lockList := [] },
      ⟨pkt, false⟩)
  else none

/-- What makes a swap write the block. -/
def SwapWrites (blkSize : Nat) (blk : CacheBlk) (pkt : Packet) : Prop :=
  pkt.cmd = .SwapReq ∧ (pkt.req.atomicOp.isSome = true ∨
    pkt.overwriteMem blk.data (pkt.getOffset blkSize) = some true)

theorem mem_clearLoadLocks {locks : List Lock} {contextId : ContextID} {req : Request} {l : Lock} :
    l ∈ clearLoadLocks locks contextId req ↔
      l ∈ locks ∧ (l.intersects req = true → l.contextId = contextId) := by
  rw [clearLoadLocks, List.mem_filter]
  cases l.intersects req with
  | true | false => simp

theorem satisfyRequest_locks {blkSize : Nat} {blk blk' : CacheBlk} {o : Outcome}
    (h : blk.satisfyRequest blkSize pkt = some (blk', o)) :
    (o.wrote = false ∧ blk'.lockList.Sublist blk.lockList) ∨
    (∃ contextId, o.wrote = false ∧ pkt.cmd.isRead = true ∧ pkt.cmd.isLLSC = true ∧
      pkt.cmd ≠ .SwapReq ∧ pkt.req.contextId = some contextId ∧
      blk'.lockList = trackLoadLocked blk.lockList contextId pkt.req) ∨
    (pkt.cmd.isWrite = true ∧ checkWrite blk.lockList pkt = some (o.wrote, blk'.lockList)) ∨
    (o.wrote = true ∧ SwapWrites blkSize blk pkt ∧ blk'.lockList = blk.lockList) := by
  rw [satisfyRequest] at h
  split at h
  · cases h
  · split at h
    · rename_i swapReq
      rw [swap] at h
      split at h
      · rename_i atomic
        cases h
        exact Or.inr (Or.inr (Or.inr ⟨rfl, ⟨swapReq, Or.inl (by simp [atomic])⟩, rfl⟩))
      · rw [cmpAndSwap] at h
        split at h
        · cases h
        · split at h
          · cases h
          · rename_i overwrite compared
            split at h
            · rename_i writes
              cases h
              rw [writes] at compared
              exact Or.inr (Or.inr (Or.inr ⟨rfl, ⟨swapReq, Or.inr compared⟩, rfl⟩))
            · grind
    · rename_i notSwap
      split at h
      · grind [writeBlock]
      · split at h
        · grind [readBlock]
        · split at h
          · grind
          · grind

/-- The locks of a block do not overlap, and none is empty. -/
structure Apart (locks : List Lock) : Prop where
  ends : ∀ l ∈ locks, l.lowAddr ≤ l.highAddr
  disjoint : locks.Pairwise fun a b => a.highAddr < b.lowAddr ∨ b.highAddr < a.lowAddr

theorem Apart.sublist {locks : List Lock} (h : Apart locks) (sub : locks'.Sublist locks) :
    Apart locks' :=
  ⟨fun l hl => h.ends l (sub.subset hl), h.disjoint.sublist sub⟩

theorem Apart.trackLoadLocked {locks : List Lock} (h : Apart locks) (contextId : ContextID)
    (req : Request) : Apart (trackLoadLocked locks contextId req) := by
  have rest := h.sublist (filter_sublist (p := fun l : Lock => ! l.intersects req))
  have pos := req.size_pos
  refine ⟨?_, List.Pairwise.cons ?_ rest.disjoint⟩
  · intro l hl
    rcases List.mem_cons.mp hl with rfl | hl
    · simp only [Lock.new]
      omega
    · exact rest.ends l hl
  · intro l hl
    have away := (List.mem_filter.mp hl).2
    simp only [Lock.intersects, not_eq_true', and_eq_false_iff, decide_eq_false_iff_not]
      at away
    simp only [Lock.new]
    omega

theorem Apart.erase_not_within {locks : List Lock} (h : Apart locks) {contextId : ContextID}
    {req : Request} {l : Lock} (found : (locks.any fun l => l.isMatch contextId req) = true)
    (stays : l ∈ locks.eraseP fun l => l.isMatch contextId req) : l.within req = false := by
  induction locks with
  | nil => simp at found
  | cons k locks ih =>
    have pos := req.size_pos
    obtain ⟨first, rest⟩ := List.pairwise_cons.mp h.disjoint
    by_cases hit : k.isMatch contextId req = true
    · simp only [eraseP_cons, hit] at stays
      have away := first l stays
      simp only [Lock.isMatch, Lock.within, and_eq_true, decide_eq_true_eq] at hit
      simp only [Lock.within, and_eq_false_iff, decide_eq_false_iff_not]
      omega
    · simp only [eraseP_cons, hit] at stays
      have later : (locks.any fun l => l.isMatch contextId req) = true := by grind
      rcases List.mem_cons.mp stays with rfl | stays
      · obtain ⟨m, hm, matched⟩ := List.any_eq_true.mp later
        have away := first m hm
        simp only [Lock.isMatch, Lock.within, and_eq_true, decide_eq_true_eq] at matched
        simp only [Lock.within, and_eq_false_iff, decide_eq_false_iff_not]
        omega
      · exact ih (h.sublist (sublist_cons_self _ _)) later stays

/-- The write of another context to bytes of the lock, or the store-conditional that uses it. -/
def Breaks (l : Lock) (e : Packet × Outcome) : Prop :=
  e.2.wrote = true ∧
    ((e.1.req.contextId ≠ some l.contextId ∧ l.intersects e.1.req = true) ∨
      (e.1.cmd.isLLSC = true ∧ e.1.req.contextId = some l.contextId ∧ l.within e.1.req = true))

/-- The load-locked that made a lock. -/
def Locks (l : Lock) (e : Packet × Outcome) : Prop :=
  e.1.cmd = .LoadLockedReq ∧ e.1.req.contextId = some l.contextId ∧
    l = .new l.contextId e.1.req

theorem checkWrite_sublist {locks : List Lock} {success : Bool}
    (h : checkWrite locks pkt = some (success, locks')) : locks'.Sublist locks := by
  rw [checkWrite] at h
  split at h
  · cases h
    exact List.Sublist.refl _
  · split at h
    · split at h
      · cases h
        exact List.filter_sublist.trans eraseP_sublist
      · cases h
        exact filter_sublist
    · grind

theorem checkWrite_spares {locks : List Lock} {o : Outcome} {success : Bool}
    (h : checkWrite locks pkt = some (success, locks')) (same : o.wrote = success)
    (apart : Apart locks) {l : Lock} (stays : l ∈ locks') : ¬ Breaks l (pkt, o) := by
  rintro ⟨wrote, broken⟩
  rw [same] at wrote
  rw [checkWrite] at h
  split at h
  · grind
  · split at h
    · rename_i contextId hasContext
      rw [hasContext] at broken
      split at h
      · cases h
        obtain ⟨mem, own⟩ := mem_clearLoadLocks.mp stays
        rcases broken with ⟨other, met⟩ | ⟨-, -, used⟩
        · exact other (by rw [own met])
        · rw [apart.erase_not_within wrote mem] at used
          cases used
      · rename_i plain
        cases h
        obtain ⟨-, own⟩ := mem_clearLoadLocks.mp stays
        rcases broken with ⟨other, met⟩ | ⟨isLLSC, -⟩
        · exact other (by rw [own met])
        · exact plain isLLSC
    · grind

/-- No swap writes bytes that another context has locked. -/
def SwapSpares (blkSize : Nat) (blk : CacheBlk) (pkt : Packet) : Prop :=
  SwapWrites blkSize blk pkt →
    ∀ l ∈ blk.lockList, l.intersects pkt.req = true → pkt.req.contextId = some l.contextId

/-- `SCUpgradeFailReq` stays in the MSHRs. -/
abbrev Sent (pkt : Packet) : Prop := pkt.cmd ≠ .SCUpgradeFailReq

/-- What the past says of the locks. -/
structure Accounted (blk : CacheBlk) (past : List (Packet × Outcome)) : Prop where
  apart : Apart blk.lockList
  since : ∀ l ∈ blk.lockList, Past.Since (Locks l) (Breaks l) past

theorem Accounted.step {blkSize : Nat} {blk blk' : CacheBlk} {pkt : Packet} {o : Outcome}
    {past : List (Packet × Outcome)} (h : Accounted blk past) (sent : Sent pkt)
    (spares : SwapSpares blkSize blk pkt)
    (satisfied : blk.satisfyRequest blkSize pkt = some (blk', o)) :
    Accounted blk' ((pkt, o) :: past) := by
  rcases satisfyRequest_locks satisfied with ⟨noWrite, sub⟩ |
    ⟨contextId, noWrite, isRead, isLLSC, notSwap, hasContext, locks⟩ | ⟨-, checked⟩ |
    ⟨-, writes, locks⟩
  · refine ⟨h.apart.sublist sub, fun l hl => Or.inr ⟨?_, h.since l (sub.subset hl)⟩⟩
    rintro ⟨wrote, -⟩
    rw [noWrite] at wrote
    cases wrote
  · rw [trackLoadLocked] at locks
    refine ⟨?_, fun l hl => ?_⟩
    · rw [locks]
      exact h.apart.trackLoadLocked contextId pkt.req
    · rw [locks] at hl
      rcases List.mem_cons.mp hl with rfl | hl
      · refine Or.inl ⟨?_, hasContext, rfl⟩
        exact (MemCmd.llsc_read isRead isLLSC).resolve_right sent
      · refine Or.inr ⟨?_, h.since l (List.mem_filter.mp hl).1⟩
        rintro ⟨wrote, -⟩
        rw [noWrite] at wrote
        cases wrote
  · have sub := checkWrite_sublist checked
    exact ⟨h.apart.sublist sub, fun l hl =>
      Or.inr ⟨checkWrite_spares checked rfl h.apart hl, h.since l (sub.subset hl)⟩⟩
  · refine ⟨locks ▸ h.apart, fun l hl => Or.inr ⟨?_, h.since l (locks ▸ hl)⟩⟩
    rintro ⟨-, ⟨other, met⟩ | ⟨isLLSC, -⟩⟩
    · exact other (spares writes l (locks ▸ hl) met)
    · rw [writes.1] at isLLSC
      cases isLLSC

/-- A valid, writable block without locks. -/
def fresh (data : Bytes) (dirty : Bool) : CacheBlk := ⟨true, true, dirty, data, []⟩

/-- The runs on a fresh block; each request meets a condition on the block it finds. -/
abbrev Run (blkSize : Nat) (ok : CacheBlk → Packet → Prop) (data : Bytes) (dirty : Bool)
    (blk : CacheBlk) (past : List (Packet × Outcome)) : Prop :=
  Past.Logged (satisfyRequest blkSize) (fun blk pkt => Sent pkt ∧ ok blk pkt) (fresh data dirty)
    blk past

theorem Run.accounted {blkSize : Nat} {data : Bytes} {dirty : Bool} {blk : CacheBlk}
    {past : List (Packet × Outcome)} (run : Run blkSize (SwapSpares blkSize) data dirty blk past) :
    Accounted blk past := by
  refine Past.Logged.invariant run ⟨⟨?_, List.Pairwise.nil⟩, ?_⟩ ?_
  · simp [fresh]
  · simp [fresh]
  · rintro blk past pkt blk' o h ⟨sent, spares⟩ satisfied
    exact h.step sent spares satisfied

/-- The store-conditional has a lock: its context load-locked a range that holds it, and since
then neither used that lock nor saw another context write to the range. -/
def Holds (pkt : Packet) (past : List (Packet × Outcome)) : Prop :=
  ∃ l : Lock, pkt.req.contextId = some l.contextId ∧ l.within pkt.req = true ∧
    Past.Since (Locks l) (Breaks l) past

/-- In runs whose swaps spare the locks of other contexts, a store-conditional that succeeds has
a lock. -/
theorem storeCond_holds {blkSize : Nat} {data : Bytes} {dirty : Bool} {blk : CacheBlk}
    {past : List (Packet × Outcome)} {pkt : Packet} {locks : List Lock}
    (run : Run blkSize (SwapSpares blkSize) data dirty blk past)
    (storeCond : pkt.cmd.isLLSC = true)
    (success : checkWrite blk.lockList pkt = some (true, locks)) : Holds pkt past := by
  rw [checkWrite] at success
  simp only [storeCond, Bool.not_true, Bool.false_and, Bool.false_eq_true, if_false, if_true]
    at success
  split at success
  · rename_i contextId hasContext
    obtain ⟨found, -⟩ := Prod.mk.inj (Option.some.inj success)
    obtain ⟨l, hl, matched⟩ := List.any_eq_true.mp found
    simp only [Lock.isMatch, Bool.and_eq_true, beq_iff_eq] at matched
    exact ⟨l, by rw [hasContext, matched.1], matched.2, run.accounted.since l hl⟩
  · split at success
    · cases success
    · split at success
      · cases success
      · cases success

/-- Eight bytes, from a context. -/
def eightBytes (contextId : ContextID) (paddr : Nat) : Request :=
  ⟨paddr, 8, some contextId, [], none, false, 0, by decide⟩

def plain (cmd : MemCmd) (req : Request) : Packet := ⟨cmd, req, fun _ => 1, false, false⟩

/-- Another context swaps the bytes between the load-locked and the store-conditional. -/
theorem swap_keeps_lock :
    ¬ ∀ (blkSize : Nat) (data : Bytes) (dirty : Bool) (blk : CacheBlk)
      (past : List (Packet × Outcome)) (pkt : Packet) (locks : List Lock),
      Run blkSize (fun _ _ => True) data dirty blk past → pkt.cmd.isLLSC = true →
      checkWrite blk.lockList pkt = some (true, locks) → Holds pkt past := by
  intro claim
  have first : Run 64 (fun _ _ => True) (fun _ => 0) false _ _ :=
    Past.Logged.log (e := plain .LoadLockedReq (eightBytes 0 0x40)) Past.Logged.start
      ⟨by decide, trivial⟩ rfl
  have second := Past.Logged.log (e := plain .SwapReq (eightBytes 1 0x40)) first
    ⟨by decide, trivial⟩ rfl
  obtain ⟨l, own, -, since⟩ := claim 64 (fun _ => 0) false _ _
    (plain .StoreCondReq (eightBytes 0 0x40)) _ second rfl rfl
  rcases since with ⟨swap, -⟩ | ⟨kept, ⟨-, -, made⟩ | ⟨-, none⟩⟩
  · cases swap
  · apply kept
    rw [made]
    refine ⟨rfl, Or.inl ⟨fun same => ?_, rfl⟩⟩
    exact absurd (Eq.trans same own.symm) (by decide)
  · exact none

theorem storeCond_holds_plain :
    ∃ (blk : CacheBlk) (past : List (Packet × Outcome)),
      Run 64 (SwapSpares 64) (fun _ => 0) false blk past ∧ past.length = 1 ∧
      Holds (plain .StoreCondReq (eightBytes 0 0x40)) past := by
  have run : Run 64 (SwapSpares 64) (fun _ => 0) false _ _ :=
    Past.Logged.log (e := plain .LoadLockedReq (eightBytes 0 0x40)) Past.Logged.start
      ⟨by decide, fun writes => absurd writes.1 (by decide)⟩ rfl
  exact ⟨_, _, run, rfl, storeCond_holds run rfl rfl⟩

end CacheBlk

end Gem5.Mem.Locked
