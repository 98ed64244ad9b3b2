import Gem5.Lib.Runs
import Gem5.Riscv.Registers

/-!
# Reservations of the RISC-V load-reserved and store-conditional

Each context keeps a stack of reserved 16-byte granules. A snoop inspects only the top of the
stack and a store-conditional never pops it, so a reservation can outlive the
store-conditional that used it and the snoop that should have ended it.
-/

namespace Gem5.Riscv

open List Function

abbrev ContextID := Nat

/-- The fields of a `Request` that the locked accesses read and set. -/
structure LockedRequest where
  paddr : Addr
  isUncacheable : Bool
  extraData : Nat
  deriving DecidableEq, Repr

structure LockedMem where
  lockedAddrs : ContextID → List Addr
  stCondFailures : ContextID → Nat
  warnings : List (ContextID × Nat)

namespace LockedMem

def warnFailure : Nat := 10000

def init : LockedMem := ⟨fun _ => [], fun _ => 0, []⟩

/-- `paddr & ~0xF`. -/
def granule (paddr : Addr) : Addr := paddr &&& ~~~0xF#64

def setStack (s : LockedMem) (c : ContextID) (stack : List Addr) : LockedMem :=
  { s with lockedAddrs := Function.update s.lockedAddrs c stack }

def handleLockedSnoop (s : LockedMem) (c : ContextID) (pktAddr cacheBlockMask : Addr) :
    LockedMem :=
  match s.lockedAddrs c with
  | [] => s
  | top :: rest =>
    if top &&& cacheBlockMask = pktAddr &&& cacheBlockMask then s.setStack c rest else s

def handleLockedRead (s : LockedMem) (c : ContextID) (paddr : Addr) : LockedMem :=
  s.setStack c (granule paddr :: s.lockedAddrs c)

/-- The failing branch: `setExtraData(0)`, one more failure, a warning at every 10000th. -/
def failStore (s : LockedMem) (c : ContextID) (req : LockedRequest) :
    Bool × LockedRequest × LockedMem :=
  let failures := s.stCondFailures c + 1
  (false, { req with extraData := 0 },
    { s with
      stCondFailures := Function.update s.stCondFailures c failures
      warnings := if failures % warnFailure = 0 then (c, failures) :: s.warnings
        else s.warnings })

def handleLockedWrite (s : LockedMem) (c : ContextID) (req : LockedRequest) :
    Bool × LockedRequest × LockedMem :=
  match s.lockedAddrs c with
  | [] => s.failStore c req
  | top :: _ =>
    if top ≠ granule req.paddr then s.failStore c req
    else (true, if req.isUncacheable then { req with extraData := 2 } else req, s)

/-- The calls a CPU makes; each snoop brings its own cache block mask. -/
inductive Call where
  | read (c : ContextID) (paddr : Addr)
  | snoop (c : ContextID) (pktAddr cacheBlockMask : Addr)
  | write (c : ContextID) (req : LockedRequest)
  deriving DecidableEq, Repr

def step (s : LockedMem) : Call → LockedMem
  | .read c paddr => s.handleLockedRead c paddr
  | .snoop c pktAddr cacheBlockMask => s.handleLockedSnoop c pktAddr cacheBlockMask
  | .write c req => (s.handleLockedWrite c req).2.2

/-- The monitors after a past of calls, newest first. -/
def run (past : List Call) : LockedMem := Past.after step init past

theorem write_stacks (s : LockedMem) (c : ContextID) (req : LockedRequest) :
    (s.handleLockedWrite c req).2.2.lockedAddrs = s.lockedAddrs := by
  rw [handleLockedWrite]
  split
  · rfl
  · split
    · rfl
    · rfl

theorem write_succeeds_iff (s : LockedMem) (c : ContextID) (req : LockedRequest) :
    (s.handleLockedWrite c req).1 = true ↔ (s.lockedAddrs c).head? = some (granule req.paddr) := by
  rw [handleLockedWrite]
  split
  · rename_i h
    simp [h, failStore]
  · grind [failStore]

/-- A load-reserved of the context to the granule. -/
def Reserves (c : ContextID) (g : Addr) : Call → Prop
  | .read d paddr => d = c ∧ granule paddr = g
  | _ => False

/-- A store-conditional of the context, or a snoop of its monitor for the granule's block. -/
def Ends (c : ContextID) (g : Addr) : Call → Prop
  | .read _ _ => False
  | .snoop d pktAddr mask => d = c ∧ g &&& mask = pktAddr &&& mask
  | .write d _ => d = c

/-- A load-reserved to the granule with neither a store-conditional of the context nor a
snoop of the granule's block after it. -/
def LiveReservation (c : ContextID) (g : Addr) (past : List Call) : Prop :=
  Past.Since (Reserves c g) (Ends c g) past

/-- A stack entry; `leftover` once a store-conditional has found it on the stack or a snoop
of its block has passed it over. -/
structure Entry where
  addr : Addr
  leftover : Bool
  deriving DecidableEq, Repr

def Entry.passOver (pktAddr mask : Addr) (e : Entry) : Entry :=
  { e with leftover := e.leftover || (e.addr &&& mask == pktAddr &&& mask) }

def Entry.keep (e : Entry) : Entry := { e with leftover := true }

/-- The stack of one context through a call, each entry with its mark. -/
def mark (c : ContextID) (stack : List Entry) : Call → List Entry
  | .read d paddr => if d = c then ⟨granule paddr, false⟩ :: stack else stack
  | .snoop d pktAddr mask =>
    if d = c then
      match stack with
      | [] => []
      | top :: rest =>
        if top.addr &&& mask = pktAddr &&& mask then rest.map (Entry.passOver pktAddr mask)
        else (top :: rest).map (Entry.passOver pktAddr mask)
    else stack
  | .write d _ => if d = c then stack.map Entry.keep else stack

def marked (c : ContextID) (past : List Call) : List Entry := Past.after (mark c) [] past

theorem map_addr_passOver (pktAddr mask : Addr) (stack : List Entry) :
    (stack.map (Entry.passOver pktAddr mask)).map Entry.addr = stack.map Entry.addr := by
  rw [List.map_map]
  exact map_congr_left fun _ _ => rfl

theorem map_addr_keep (stack : List Entry) :
    (stack.map Entry.keep).map Entry.addr = stack.map Entry.addr := by
  rw [List.map_map]
  exact map_congr_left fun _ _ => rfl

theorem step_stack (s : LockedMem) (c : ContextID) (stack : List Entry)
    (h : stack.map Entry.addr = s.lockedAddrs c) (e : Call) :
    (mark c stack e).map Entry.addr = (s.step e).lockedAddrs c := by
  cases e with
  | read d paddr =>
    by_cases hd : d = c
    · subst hd
      simp [mark, step, handleLockedRead, setStack, h]
    · simp [mark, step, handleLockedRead, setStack, hd, update_of_ne (Ne.symm hd), h]
  | snoop d pktAddr mask =>
    by_cases hd : d = c
    · subst hd
      cases stack with
      | nil => grind [mark, step, handleLockedSnoop]
      | cons top rest =>
        have hs : s.lockedAddrs d = top.addr :: rest.map Entry.addr := by simpa using h.symm
        simp only [mark, step, handleLockedSnoop, hs, if_true]
        split
        · simp only [setStack, update_self]
          exact map_addr_passOver pktAddr mask rest
        · grind [map_addr_passOver]
    · simp only [mark, hd, if_false, step, handleLockedSnoop]
      split
      · exact h
      · split
        · simpa [setStack, update_of_ne (Ne.symm hd)] using h
        · exact h
  | write d req => grind [map_addr_keep, mark, step, write_stacks]

theorem marked_stack (c : ContextID) (past : List Call) :
    (marked c past).map Entry.addr = (run past).lockedAddrs c := by
  induction past with
  | nil => rfl
  | cons e past ih => exact step_stack (run past) c (marked c past) ih e

theorem fresh_mem_passOver {g pktAddr mask : Addr} {stack : List Entry} :
    ⟨g, false⟩ ∈ stack.map (Entry.passOver pktAddr mask) ↔
      ¬ g &&& mask = pktAddr &&& mask ∧ ⟨g, false⟩ ∈ stack := by
  rw [List.mem_map]
  constructor
  · rintro ⟨⟨addr, leftover⟩, he, heq⟩
    simp only [Entry.passOver, Entry.mk.injEq, Bool.or_eq_false_iff, beq_eq_false_iff_ne] at heq
    obtain ⟨rfl, rfl, hne⟩ := heq
    exact ⟨hne, he⟩
  · grind [Entry.passOver]

theorem not_fresh_mem_keep {g : Addr} {stack : List Entry} : ⟨g, false⟩ ∉ stack.map Entry.keep := by
  simp [Entry.keep]

theorem fresh_mark (c : ContextID) (g : Addr) (stack : List Entry) (e : Call) :
    ⟨g, false⟩ ∈ mark c stack e ↔ Reserves c g e ∨ (¬ Ends c g e ∧ ⟨g, false⟩ ∈ stack) := by
  cases e with
  | read d paddr =>
    by_cases hd : d = c
    · simp [mark, Reserves, Ends, hd, eq_comm]
    · simp [mark, Reserves, Ends, hd]
  | snoop d pktAddr mask =>
    by_cases hd : d = c
    · cases stack with
      | nil => simp [mark, Reserves]
      | cons top rest =>
        simp only [mark, Reserves, Ends, hd, if_true, true_and, false_or]
        split
        · grind [fresh_mem_passOver]
        · exact fresh_mem_passOver
    · simp [mark, Reserves, Ends, hd]
  | write d req =>
    by_cases hd : d = c
    · simp only [mark, Reserves, Ends, hd, not_true, false_and, or_false, iff_false]
      exact not_fresh_mem_keep
    · simp [mark, Reserves, Ends, hd]

theorem fresh_iff_live (c : ContextID) (g : Addr) (past : List Call) :
    ⟨g, false⟩ ∈ marked c past ↔ LiveReservation c g past := by
  induction past with
  | nil => simp [marked, Past.after, LiveReservation, Past.Since]
  | cons e past ih =>
    rw [LiveReservation, Past.Since, ← LiveReservation, ← ih]
    exact fresh_mark c g (marked c past) e

/-- Under a leftover entry every entry of the same granule is left over. -/
def LeftoverBelow (stack : List Entry) : Prop :=
  stack.Pairwise fun above below =>
    above.addr = below.addr → above.leftover = true → below.leftover = true

theorem LeftoverBelow.passOver {stack : List Entry} (h : LeftoverBelow stack)
    (pktAddr mask : Addr) : LeftoverBelow (stack.map (Entry.passOver pktAddr mask)) := by
  rw [LeftoverBelow, pairwise_map]
  refine List.Pairwise.imp ?_ h
  intro above below keep haddr hleft
  simp only [Entry.passOver, Bool.or_eq_true] at haddr hleft ⊢
  rcases hleft with hleft | hit
  · exact Or.inl (keep haddr hleft)
  · exact Or.inr (haddr ▸ hit)

theorem LeftoverBelow.mark {c : ContextID} {stack : List Entry} (h : LeftoverBelow stack)
    (e : Call) : LeftoverBelow (mark c stack e) := by
  cases e with
  | read =>
    simp only [LockedMem.mark]
    split
    · exact List.Pairwise.cons (fun _ _ _ hleft => by simp at hleft) h
    · exact h
  | snoop d pktAddr mask =>
    simp only [LockedMem.mark]
    split
    · cases stack with
      | nil => exact h
      | cons =>
        dsimp only
        split
        · exact LeftoverBelow.passOver (List.Pairwise.of_cons h) pktAddr mask
        · exact h.passOver pktAddr mask
    · exact h
  | write =>
    simp only [LockedMem.mark]
    split
    · rw [LeftoverBelow, pairwise_map]
      exact List.Pairwise.imp (fun _ _ _ => rfl) h
    · exact h

theorem marked_leftoverBelow (c : ContextID) (past : List Call) :
    LeftoverBelow (marked c past) := by
  induction past with
  | nil => exact List.Pairwise.nil
  | cons e past ih => exact ih.mark e

/-- The entry on top of the stack is one of the granule that was left over. -/
def TopLeftover (c : ContextID) (g : Addr) (past : List Call) : Prop :=
  (marked c past).head? = some ⟨g, true⟩

theorem top_addr (c : ContextID) (past : List Call) :
    ((run past).lockedAddrs c).head? = (marked c past).head?.map Entry.addr := by
  rw [← marked_stack, List.head?_map]

theorem not_live_of_topLeftover {c : ContextID} {g : Addr} {past : List Call}
    (h : TopLeftover c g past) : ¬ LiveReservation c g past := by
  rw [← fresh_iff_live]
  intro hmem
  have below := marked_leftoverBelow c past
  rw [TopLeftover] at h
  cases hs : marked c past with
  | nil => simp [hs] at h
  | cons top rest =>
    rw [hs] at h hmem below
    have htop : top = ⟨g, true⟩ := by simpa using h
    subst htop
    rcases List.mem_cons.mp hmem with heq | hrest
    · simp at heq
    · have hleft := rel_of_pairwise_cons below hrest rfl rfl
      simp at hleft

/-- A store-conditional that succeeds has a live reservation, unless the reservation it
finds on top of the stack is a leftover. -/
theorem store_live_iff (past : List Call) (c : ContextID) (req : LockedRequest) :
    (((run past).handleLockedWrite c req).1 = true →
        LiveReservation c (granule req.paddr) past) ↔
      ¬ TopLeftover c (granule req.paddr) past := by
  rw [write_succeeds_iff, top_addr]
  constructor
  · intro live left
    refine not_live_of_topLeftover left (live ?_)
    rw [TopLeftover] at left
    simp [left]
  · intro fresh found
    rw [← fresh_iff_live]
    cases hs : marked c past with
    | nil => simp [hs] at found
    | cons top rest =>
      rw [TopLeftover, hs] at fresh
      have haddr : top.addr = granule req.paddr := by simpa [hs] using found
      have hleft : top.leftover = false := by
        by_contra hne
        apply fresh
        rw [List.head?_cons, ← haddr, ← (Bool.not_eq_false _).mp hne]
      rw [← haddr, ← hleft]
      exact List.mem_cons_self

/-- Two store-conditionals after one load-reserved both succeed. -/
theorem two_stores_succeed :
    ¬ ∀ (past : List Call) (c : ContextID) (req : LockedRequest),
      ((run past).handleLockedWrite c req).1 = true →
        LiveReservation c (granule req.paddr) past := by
  intro claim
  have live := claim [.write 0 ⟨0x80#64, false, 0⟩, .read 0 0x80#64] 0 ⟨0x80#64, false, 0⟩
    (by decide)
  simp [LiveReservation, Past.Since, Reserves, Ends] at live

/-- A snoop passes over a buried reservation, which a later snoop brings back to the top. -/
example : ((run [.snoop 0 0x40#64 (~~~0x3F#64), .snoop 0 0x80#64 (~~~0x3F#64),
    .read 0 0x40#64, .read 0 0x80#64]).handleLockedWrite 0 ⟨0x80#64, false, 0⟩).1 = true := by
  decide

end LockedMem

end Gem5.Riscv
