import Gem5.Lib.Runs
import Gem5.Mem.MemCmd

/-!
# Locked addresses of a memory

The memory keeps at most one record for each context: the 16-byte granule of its latest
load-locked. A write removes the records of the granule it starts in; a swap removes none. So a
record outlives the writes that reach its granule from another one, and the swaps.
-/

namespace Gem5.Mem.Locked

structure LockedAddr where
  addr : Nat
  contextId : ContextID
  deriving DecidableEq, Repr

/-- `paddr & ~0xf`. -/
def LockedAddr.mask (paddr : Nat) : Nat := paddr - paddr % 16

/-- A memory: whether an access lies in its range, whether host memory is behind it, the bytes
by address, the records, and the contexts whose exclusive monitors it has cleared. -/
structure AbstractMemory where
  inRange : Nat → Nat → Bool
  pmemAddr : Bool
  data : Bytes
  lockedAddrList : List LockedAddr
  clearedExclusive : List ContextID

/-- The packet after the access, and whether the access performed a write. -/
structure Access where
  pkt : Packet
  wrote : Bool

variable {m m' : AbstractMemory} {pkt : Packet} {contextId : ContextID}
    {locks locks' : List LockedAddr}

namespace AbstractMemory

/-- Move the record of a context; `none` when it has none. -/
def modifyRecord (contextId : ContextID) (paddr : Nat) :
    List LockedAddr → Option (List LockedAddr)
  | [] => none
  | i :: locks =>
    if i.contextId = contextId then some ({ i with addr := paddr } :: locks)
    else (modifyRecord contextId paddr locks).map (i :: ·)

def trackLoadLocked (locks : List LockedAddr) (contextId : ContextID) (req : Request) :
    List LockedAddr :=
  let paddr := LockedAddr.mask req.paddr
  match modifyRecord contextId paddr locks with
  | some locks' => locks'
  | none => ⟨paddr, contextId⟩ :: locks

/-- Whether the store is allowed. `none` where the record of a granule is compared with a
store-conditional that has no context. -/
def allowStore (locks : List LockedAddr) (pkt : Packet) : Option Bool :=
  let paddr := LockedAddr.mask pkt.req.paddr
  if pkt.cmd.isLLSC then
    match pkt.req.contextId with
    | some contextId => some (locks.any fun i => i.addr == paddr && i.contextId == contextId)
    | none => if locks.any fun i => i.addr == paddr then none else some false
  else some true

/-- An allowed store removes the records of its granule, and clears the exclusive monitors of
the other contexts among them. -/
def checkLockedAddrList (locks : List LockedAddr) (pkt : Packet) :
    Option (Bool × List LockedAddr × List ContextID) :=
  let paddr := LockedAddr.mask pkt.req.paddr
  match allowStore locks pkt with
  | none => none
  | some false => some (false, locks, [])
  | some true =>
    some (true, locks.filter fun i => i.addr != paddr,
      (locks.filter fun i => i.addr == paddr && pkt.req.contextId != some i.contextId).map
        LockedAddr.contextId)

def writeOK (locks : List LockedAddr) (pkt : Packet) :
    Option (Bool × List LockedAddr × List ContextID) :=
  if locks.isEmpty then some (! pkt.cmd.isLLSC, locks, []) else checkLockedAddrList locks pkt

def swap (m : AbstractMemory) (pkt : Packet) : Option (AbstractMemory × Access) :=
  match pkt.req.atomicOp with
  | some op =>
    if m.pmemAddr then
      let result := op fun i => m.data (pkt.getAddr + i)
      some ({ m with data := memcpy m.data pkt.getAddr result pkt.getSize },
        ⟨pkt.setData m.data pkt.getAddr, true⟩)
    else some (m, ⟨pkt, false⟩)
  | none =>
    if m.pmemAddr then
      match pkt.overwriteMem m.data pkt.getAddr with
      | none => none
      | some overwrite =>
        let answer := pkt.setData m.data pkt.getAddr
        if overwrite then
          some ({ m with data := memcpy m.data pkt.getAddr pkt.data pkt.getSize },
            ⟨answer, true⟩)
        else some (m, ⟨answer, false⟩)
    else none

def read (m : AbstractMemory) (pkt : Packet) : Option (AbstractMemory × Access) :=
  let answer := if m.pmemAddr then pkt.setData m.data pkt.getAddr else pkt
  if pkt.cmd.isLLSC then
    match pkt.req.contextId with
    | some contextId =>
      if pkt.cmd.fromCache then none
      else
        some ({ m with lockedAddrList := trackLoadLocked m.lockedAddrList contextId pkt.req },
          ⟨answer, false⟩)
    | none => none
  else some (m, ⟨answer, false⟩)

/-- The extra data of a store-conditional say whether it was performed. -/
def write (m : AbstractMemory) (pkt : Packet) : Option (AbstractMemory × Access) :=
  match writeOK m.lockedAddrList pkt with
  | none => none
  | some (ok, locks, cleared) =>
    some ({ m with
      data := if ok && m.pmemAddr then pkt.writeData m.data pkt.getAddr else m.data
      lockedAddrList := locks
      clearedExclusive := cleared ++ m.clearedExclusive },
      ⟨if pkt.cmd.isLLSC then pkt.setExtraData ok.toNat else pkt, ok⟩)

/-- An access; `none` where an assertion or a panic stops the simulator. -/
def access (m : AbstractMemory) (pkt : Packet) : Option (AbstractMemory × Access) :=
  if pkt.cacheResponding then some (m, ⟨pkt, false⟩)
  else if pkt.cmd = .CleanEvict ∨ pkt.cmd = .WritebackClean then some (m, ⟨pkt, false⟩)
  else if ! m.inRange pkt.getAddr pkt.getSize then none
  else if pkt.cmd = .SwapReq then m.swap pkt
  else if pkt.cmd.isRead then m.read pkt
  else if pkt.cmd.isInvalidate || pkt.cmd.isClean then some (m, ⟨pkt, false⟩)
  else if pkt.cmd.isWrite then m.write pkt
  else none

/-- An access that gets past the two tests for packets the memory leaves alone. -/
def Answers (pkt : Packet) : Prop := pkt.cacheResponding = false ∧ pkt.cmd ≠ .WritebackClean

/-- What makes a swap write. -/
def SwapWrites (m : AbstractMemory) (pkt : Packet) : Prop :=
  pkt.cmd = .SwapReq ∧ m.pmemAddr = true ∧ (pkt.req.atomicOp.isSome = true ∨
    pkt.overwriteMem m.data pkt.getAddr = some true)

/-- The load-locked of a context. -/
def LoadLocked (contextId : ContextID) (pkt : Packet) : Prop :=
  pkt.cmd = .LoadLockedReq ∧ pkt.cacheResponding = false ∧ pkt.req.contextId = some contextId

theorem swap_locks {o : Access} (h : m.swap pkt = some (m', o)) (swapReq : pkt.cmd = .SwapReq) :
    m'.lockedAddrList = m.lockedAddrList ∧ (o.wrote = true → SwapWrites m pkt) := by
  rw [swap] at h
  split at h
  · rename_i atomic
    split at h
    · rename_i backed
      cases h
      exact ⟨rfl, fun _ => ⟨swapReq, backed, Or.inl (by simp [atomic])⟩⟩
    · cases h
      exact ⟨rfl, by simp⟩
  · split at h
    · rename_i backed
      split at h
      · cases h
      · rename_i compared
        split at h
        · rename_i overwrite
          cases h
          rw [overwrite] at compared
          exact ⟨rfl, fun _ => ⟨swapReq, backed, Or.inr compared⟩⟩
        · cases h
          exact ⟨rfl, by simp⟩
    · cases h

theorem read_locks {o : Access} (h : m.read pkt = some (m', o)) (isRead : pkt.cmd.isRead = true)
    (quiet : pkt.cacheResponding = false) :
    o.wrote = false ∧
      ((m'.lockedAddrList = m.lockedAddrList ∧ ∀ contextId, ¬ LoadLocked contextId pkt) ∨
      (∃ contextId, LoadLocked contextId pkt ∧
        m'.lockedAddrList = trackLoadLocked m.lockedAddrList contextId pkt.req)) := by
  rw [read] at h
  split at h
  · rename_i isLLSC
    split at h
    · rename_i contextId hasContext
      split at h
      · cases h
      · rename_i notCache
        cases h
        have isLoad := (MemCmd.llsc_read isRead isLLSC).resolve_right fun failed =>
          notCache (by rw [failed]; rfl)
        exact ⟨rfl, Or.inr ⟨contextId, ⟨isLoad, quiet, hasContext⟩, rfl⟩⟩
    · cases h
  · rename_i plain
    cases h
    refine ⟨rfl, Or.inl ⟨rfl, ?_⟩⟩
    rintro contextId ⟨isLoad, -⟩
    rw [isLoad] at plain
    exact plain rfl

theorem access_locks {o : Access} (h : m.access pkt = some (m', o)) :
    (o.wrote = false ∧ m'.lockedAddrList = m.lockedAddrList ∧
      ∀ contextId, ¬ LoadLocked contextId pkt) ∨
    (∃ contextId, o.wrote = false ∧ LoadLocked contextId pkt ∧
      m'.lockedAddrList = trackLoadLocked m.lockedAddrList contextId pkt.req) ∨
    (∃ cleared, Answers pkt ∧ pkt.cmd.isWrite = true ∧ pkt.cmd ≠ .SwapReq ∧
      writeOK m.lockedAddrList pkt = some (o.wrote, m'.lockedAddrList, cleared)) ∨
    (o.wrote = true ∧ Answers pkt ∧ SwapWrites m pkt ∧ m'.lockedAddrList = m.lockedAddrList) := by
  rw [access] at h
  split at h
  · rename_i responding
    cases h
    refine Or.inl ⟨rfl, rfl, ?_⟩
    rintro contextId ⟨-, quiet, -⟩
    rw [quiet] at responding
    cases responding
  · rename_i quiet
    split at h
    · rename_i ignored
      cases h
      refine Or.inl ⟨rfl, rfl, ?_⟩
      rintro contextId ⟨isLoad, -⟩
      rw [isLoad] at ignored
      rcases ignored with evict | clean
      · cases evict
      · cases clean
    · rename_i taken
      have answers : Answers pkt := ⟨by simpa using quiet, fun clean => taken (Or.inr clean)⟩
      split at h
      · cases h
      · split at h
        · rename_i swapReq
          obtain ⟨locks, writes⟩ := swap_locks h swapReq
          cases wrote : o.wrote with
          | true => exact Or.inr (Or.inr (Or.inr ⟨rfl, answers, writes wrote, locks⟩))
          | false =>
            refine Or.inl ⟨rfl, locks, ?_⟩
            rintro contextId ⟨isLoad, -⟩
            rw [isLoad] at swapReq
            cases swapReq
        · rename_i notSwap
          split at h
          · grind [read_locks]
          · rename_i notRead
            have noLoad : ∀ contextId, ¬ LoadLocked contextId pkt := by
              rintro contextId ⟨isLoad, -⟩
              rw [isLoad] at notRead
              exact notRead rfl
            split at h
            · grind
            · grind [write]

theorem modifyRecord_none {paddr : Nat}
    (h : modifyRecord contextId paddr locks = none) : ∀ i ∈ locks, i.contextId ≠ contextId := by
  induction locks with
  | nil => simp
  | cons i locks ih =>
    rw [modifyRecord] at h
    split at h
    · cases h
    · simp_all

theorem modifyRecord_some {paddr : Nat} (h : modifyRecord contextId paddr locks = some locks') :
    locks'.map LockedAddr.contextId = locks.map LockedAddr.contextId ∧
      ((locks.map LockedAddr.contextId).Nodup → ∀ i ∈ locks',
        i = ⟨paddr, contextId⟩ ∨ (i ∈ locks ∧ i.contextId ≠ contextId)) := by
  induction locks generalizing locks' with
  | nil => cases h
  | cons i locks ih =>
    rw [modifyRecord] at h
    split at h
    · grind
    · rename_i other
      obtain ⟨rest, moved, rfl⟩ := Option.map_eq_some_iff.mp h
      obtain ⟨ids, mem⟩ := ih moved
      refine ⟨by rw [List.map_cons, List.map_cons, ids], fun nodup j hj => ?_⟩
      rw [List.map_cons, List.nodup_cons] at nodup
      rcases List.mem_cons.mp hj with rfl | hj
      · exact Or.inr ⟨List.mem_cons_self, other⟩
      · exact (mem nodup.2 j hj).imp id fun ⟨mem, ne⟩ => ⟨List.mem_cons_of_mem _ mem, ne⟩

/-- At most one record for each context. -/
def OneEach (locks : List LockedAddr) : Prop := (locks.map LockedAddr.contextId).Nodup

theorem OneEach.trackLoadLocked (h : OneEach locks)
    (contextId : ContextID) (req : Request) : OneEach (trackLoadLocked locks contextId req) := by
  rw [AbstractMemory.trackLoadLocked]
  split
  · grind [OneEach, modifyRecord_some]
  · rename_i none
    refine List.nodup_cons.mpr ⟨?_, h⟩
    rintro hmem
    obtain ⟨i, hi, same⟩ := List.mem_map.mp hmem
    exact modifyRecord_none none i hi same

theorem mem_trackLoadLocked (h : OneEach locks)
    {req : Request} {i : LockedAddr} (mem : i ∈ trackLoadLocked locks contextId req) :
    i = ⟨LockedAddr.mask req.paddr, contextId⟩ ∨ (i ∈ locks ∧ i.contextId ≠ contextId) := by
  rw [AbstractMemory.trackLoadLocked] at mem
  split at mem
  · rename_i moved
    exact (modifyRecord_some moved).2 h i mem
  · grind [modifyRecord_none]

theorem writeOK_locks {ok : Bool}
    {cleared : List ContextID} (h : writeOK locks pkt = some (ok, locks', cleared)) :
    locks'.Sublist locks ∧ (ok = true → (∀ i ∈ locks', i.addr ≠ LockedAddr.mask pkt.req.paddr)) := by
  rw [writeOK] at h
  split at h
  · grind
  · grind [checkLockedAddrList, List.filter_sublist]

theorem writeOK_storeCond {cleared : List ContextID} (isLLSC : pkt.cmd.isLLSC = true)
    (h : writeOK locks pkt = some (true, locks', cleared)) :
    ∃ contextId, pkt.req.contextId = some contextId ∧
      ⟨LockedAddr.mask pkt.req.paddr, contextId⟩ ∈ locks := by
  rw [writeOK] at h
  split at h
  · simp [isLLSC] at h
  · rw [checkLockedAddrList] at h
    split at h
    · cases h
    · cases h
    · rename_i allowed
      rw [allowStore] at allowed
      rw [if_pos isLLSC] at allowed
      split at allowed
      · rename_i contextId hasContext
        obtain ⟨i, hi, matched⟩ := List.any_eq_true.mp (Option.some.inj allowed)
        simp only [Bool.and_eq_true, beq_iff_eq] at matched
        refine ⟨contextId, hasContext, ?_⟩
        rw [← matched.1, ← matched.2]
        exact hi
      · grind

/-- Some byte of the access lies in a granule. -/
def Touches (pkt : Packet) (granule : Nat) : Prop :=
  pkt.getAddr < granule + 16 ∧ granule < pkt.getAddr + pkt.getSize

/-- The load-locked that made a record. -/
def Locks (i : LockedAddr) (e : Packet × Access) : Prop :=
  LoadLocked i.contextId e.1 ∧ i.addr = LockedAddr.mask e.1.req.paddr

/-- A load-locked of the context to another granule, or a write that reaches the granule. -/
def Breaks (i : LockedAddr) (e : Packet × Access) : Prop :=
  (LoadLocked i.contextId e.1 ∧ i.addr ≠ LockedAddr.mask e.1.req.paddr) ∨
    (e.2.wrote = true ∧ Touches e.1 i.addr)

/-- A write that the memory performs, unless it is a store-conditional without its record. -/
def Stores (m : AbstractMemory) (pkt : Packet) : Prop :=
  pkt.cmd.isWrite = true ∧ pkt.cmd ≠ .SwapReq ∧
    (pkt.cmd.isLLSC = true → ∃ contextId, pkt.req.contextId = some contextId ∧
      ⟨LockedAddr.mask pkt.req.paddr, contextId⟩ ∈ m.lockedAddrList)

/-- A write reaches no locked granule but the one it starts in, and a swap that writes none. -/
def WriteSpares (m : AbstractMemory) (pkt : Packet) : Prop :=
  Answers pkt → ∀ i ∈ m.lockedAddrList, Touches pkt i.addr →
    ¬ SwapWrites m pkt ∧ (Stores m pkt → i.addr = LockedAddr.mask pkt.req.paddr)

/-- What the past says of the records. -/
structure Accounted (m : AbstractMemory) (past : List (Packet × Access)) : Prop where
  oneEach : OneEach m.lockedAddrList
  since : ∀ i ∈ m.lockedAddrList, Past.Since (Locks i) (Breaks i) past

theorem Accounted.step {m m' : AbstractMemory} {pkt : Packet} {o : Access}
    {past : List (Packet × Access)} (h : Accounted m past) (spares : WriteSpares m pkt)
    (accessed : m.access pkt = some (m', o)) : Accounted m' ((pkt, o) :: past) := by
  rcases access_locks accessed with ⟨wrote, locks, noLoad⟩ | ⟨contextId, wrote, load, locks⟩ |
    ⟨cleared, answers, isWrite, notSwap, checked⟩ | ⟨-, answers, writes, locks⟩
  · refine ⟨locks ▸ h.oneEach, fun i hi => Or.inr ⟨?_, h.since i (locks ▸ hi)⟩⟩
    rintro (⟨load, -⟩ | ⟨performed, -⟩)
    · exact noLoad _ load
    · rw [wrote] at performed
      cases performed
  · refine ⟨?_, fun i hi => ?_⟩
    · rw [locks]
      exact h.oneEach.trackLoadLocked contextId pkt.req
    · rw [locks] at hi
      rcases mem_trackLoadLocked h.oneEach hi with rfl | ⟨mem, other⟩
      · exact Or.inl ⟨load, rfl⟩
      · refine Or.inr ⟨?_, h.since i mem⟩
        rintro (⟨own, -⟩ | ⟨performed, -⟩)
        · exact other (Option.some.inj (own.2.2.symm.trans load.2.2))
        · grind
  · obtain ⟨sub, removed⟩ := writeOK_locks checked
    refine ⟨h.oneEach.sublist (sub.map _), fun i hi => Or.inr ⟨?_, h.since i (sub.subset hi)⟩⟩
    rintro (⟨load, -⟩ | ⟨performed, touches⟩)
    · rw [load.1] at isWrite
      cases isWrite
    · refine removed performed i hi ((spares answers i (sub.subset hi) touches).2 ?_)
      refine ⟨isWrite, notSwap, fun isLLSC => ?_⟩
      rw [performed] at checked
      exact writeOK_storeCond isLLSC checked
  · refine ⟨locks ▸ h.oneEach, fun i hi => Or.inr ⟨?_, h.since i (locks ▸ hi)⟩⟩
    rintro (⟨load, -⟩ | ⟨-, touches⟩)
    · exact absurd (load.1.symm.trans writes.1) (by decide)
    · exact (spares answers i (locks ▸ hi) touches).1 writes

/-- The runs of a memory that starts without records; each access meets a condition on the
memory it finds. -/
abbrev Run (ok : AbstractMemory → Packet → Prop) (start m : AbstractMemory)
    (past : List (Packet × Access)) : Prop :=
  start.lockedAddrList = [] ∧ Past.Logged access ok start m past

theorem Run.accounted {start : AbstractMemory} {past : List (Packet × Access)}
    (run : Run WriteSpares start m past) : Accounted m past := by
  obtain ⟨empty, logged⟩ := run
  refine logged.invariant ⟨?_, ?_⟩ fun r past e r' o h spares accessed => h.step spares accessed
  · rw [OneEach, empty]
    exact List.nodup_nil
  · simp [empty]

/-- The latest load-locked of the context was to the granule, which no write has reached since. -/
def Reserved (contextId : ContextID) (paddr : Nat) (past : List (Packet × Access)) : Prop :=
  Past.Since (Locks ⟨LockedAddr.mask paddr, contextId⟩) (Breaks ⟨LockedAddr.mask paddr, contextId⟩)
    past

/-- There is one record at most for each context, and a store-conditional is performed for a
reserved granule only. -/
def Atomic (m : AbstractMemory) (past : List (Packet × Access)) : Prop :=
  OneEach m.lockedAddrList ∧
    ∀ pkt m' o, pkt.cmd.isLLSC = true → m.access pkt = some (m', o) → o.wrote = true →
      ∃ contextId, pkt.req.contextId = some contextId ∧
        Reserved contextId pkt.req.paddr past

/-- The memory is atomic in every run whose writes reach no locked granule but the one they start
in and whose swaps write to none. -/
theorem run_atomic {start m : AbstractMemory} {past : List (Packet × Access)}
    (run : Run WriteSpares start m past) : Atomic m past := by
  refine ⟨run.accounted.oneEach, fun pkt m' o isLLSC accessed performed => ?_⟩
  rcases access_locks accessed with ⟨wrote, -⟩ | ⟨contextId, wrote, -⟩ |
    ⟨cleared, -, -, -, checked⟩ | ⟨-, -, writes, -⟩
  · rw [wrote] at performed
    cases performed
  · rw [wrote] at performed
    cases performed
  · rw [performed] at checked
    obtain ⟨contextId, hasContext, mem⟩ := writeOK_storeCond isLLSC checked
    exact ⟨contextId, hasContext, run.accounted.since _ mem⟩
  · rw [writes.1] at isLLSC
    cases isLLSC

/-- Bytes from a context. -/
def request (contextId : ContextID) (paddr size : Nat) (pos : 0 < size) : Request :=
  ⟨paddr, size, some contextId, [], none, false, 0, pos⟩

def zeroed : AbstractMemory := ⟨fun _ _ => true, true, fun _ => 0, [], []⟩

def packet (cmd : MemCmd) (req : Request) : Packet := ⟨cmd, req, fun _ => 1, false, false⟩

/-- The write of a whole line leaves the records of all but its first granule. -/
theorem line_write_keeps_record :
    ¬ ∀ (start m : AbstractMemory) (past : List (Packet × Access)),
      Run (fun _ _ => True) start m past → Atomic m past := by
  intro claim
  have first : Past.Logged access (fun _ _ => True) zeroed _ _ :=
    Past.Logged.log (e := packet .LoadLockedReq (request 0 0x90 8 (by decide)))
      Past.Logged.start trivial rfl
  have second := Past.Logged.log (e := packet .WriteReq (request 1 0x80 64 (by decide)))
    first trivial rfl
  obtain ⟨contextId, own, since⟩ := (claim zeroed _ _ ⟨rfl, second⟩).2
    (packet .StoreCondReq (request 0 0x90 8 (by decide))) _ _ rfl rfl rfl
  rcases since with ⟨⟨isLoad, -⟩, -⟩ | ⟨kept, -⟩
  · cases isLoad
  · have below : 0x80 < 0x90 + 16 := by decide
    have above : 0x90 < 0x80 + 64 := by decide
    exact kept (Or.inr ⟨rfl, below, above⟩)

theorem run_atomic_plain :
    ∃ (m : AbstractMemory) (past : List (Packet × Access)), Run WriteSpares zeroed m past ∧
      past.length = 1 ∧ Atomic m past := by
  have run : Past.Logged access WriteSpares zeroed _ _ :=
    Past.Logged.log (e := packet .LoadLockedReq (request 0 0x90 8 (by decide)))
      Past.Logged.start (fun _ i hi => absurd hi (by simp [zeroed])) rfl
  exact ⟨_, _, ⟨rfl, run⟩, rfl, run_atomic ⟨rfl, run⟩⟩

end AbstractMemory

end Gem5.Mem.Locked
