import Gem5.FlexCPU.Step
import Gem5.Riscv.Decoder
import Mathlib.Logic.Relation

/-!
# The fetch loop of a FlexCPU thread

`attemptFetch` and `onInstDataFetched` take the words of an instruction from the fetch
buffer, which is filled again when a word is missing. Between the turns of the loop the
thread does any other work that leaves the fetch alone.
-/

namespace Gem5.FlexCPU

open List Option BitVec Bool

open Decoder (InStep Offered wordAddr)

variable {k : Nat}

variable {cfg : Config} {code : Code}

/-- The block that a fetch of the word at `a` asks for. -/
def fetchBlock (cfg : Config) (a : Addr) : Addr := a &&& Thread.fetchBufMask cfg

/-- The fetch buffer holds some whole words. -/
structure Config.WholeWords (cfg : Config) : Prop where
  pos : 0 < cfg.fetchBufSize
  words : cfg.fetchBufSize % 4 = 0
  small : cfg.fetchBufSize < 2 ^ 32

/-- The block of the word at `a` is not the one at address 0 and ends below the last
address. -/
structure Fetchable (cfg : Config) (a : Addr) : Prop where
  nonzero : fetchBlock cfg a ≠ 0
  inside : (fetchBlock cfg a).toNat + cfg.fetchBufSize < 2 ^ 64

theorem Config.WholeWords.low_toNat (whole : cfg.WholeWords) :
    (BitVec.ofNat 64 cfg.fetchBufSize - 1).toNat = cfg.fetchBufSize - 1 := by
  have := whole.pos
  have := whole.small
  have one : (1 : Addr).toNat = 1 := rfl
  rw [toNat_sub_of_le]
  · simp only [toNat_ofNat]
    omega
  · simp only [le_def, toNat_ofNat]
    omega

theorem fetchBlock_covers (whole : cfg.WholeWords) {a : Addr} (aligned : a.toNat % 4 = 0) :
    (fetchBlock cfg a).toNat ≤ a.toNat
      ∧ a.toNat + 4 ≤ (fetchBlock cfg a).toNat + cfg.fetchBufSize := by
  have := whole.pos
  have := whole.words
  have low := whole.low_toNat
  have block : fetchBlock cfg a = a - (a &&& (BitVec.ofNat 64 cfg.fetchBufSize - 1)) :=
    and_not_eq_sub a _
  have offset : (a &&& (BitVec.ofNat 64 cfg.fetchBufSize - 1)).toNat
      = a.toNat &&& (cfg.fetchBufSize - 1) := by
    rw [toNat_and, low]
  have below : a.toNat &&& (cfg.fetchBufSize - 1) ≤ a.toNat := Nat.and_le_left
  have small : a.toNat &&& (cfg.fetchBufSize - 1) ≤ cfg.fetchBufSize - 1 := Nat.and_le_right
  have words : (a.toNat &&& (cfg.fetchBufSize - 1)) % 4 = 0 := by
    have := Nat.and_mod_two_pow (a := a.toNat) (b := cfg.fetchBufSize - 1) (n := 2)
    simp only [aligned, Nat.zero_and] at this
    exact this
  have base : (fetchBlock cfg a).toNat = a.toNat - (a.toNat &&& (cfg.fetchBufSize - 1)) := by
    rw [block, toNat_sub_of_le, offset]
    rw [le_def, offset]
    exact below
  omega

/-- `data` holds the words of the block at `base`. -/
def HoldsBlock (cfg : Config) (code : Code) (base : Addr) (data : Addr → MachInst) : Prop :=
  ∀ a : Addr, a.toNat % 4 = 0 → base.toNat ≤ a.toNat →
    a.toNat + 4 ≤ base.toNat + cfg.fetchBufSize → data a = code.word a

/-- The fetch buffer is invalid or holds a block of code. -/
def Buffered (cfg : Config) (code : Code) (t : Thread) : Prop :=
  t.fetchBufBase ≠ 0 → t.fetchBufBase.toNat + cfg.fetchBufSize < 2 ^ 64
    ∧ HoldsBlock cfg code t.fetchBufBase t.fetchBuf

/-- The words of the instruction at `pc` can be fetched. -/
structure InstFetchable (cfg : Config) (code : Code) (pc : Addr) : Prop where
  first : Fetchable cfg (wordAddr pc)
  second : code.size pc = 4 → Fetchable cfg (wordAddr (pc + 2))

theorem wordAddr_aligned (pc : Addr) : (wordAddr pc).toNat % 4 = 0 := by
  rw [wordAddr, toNat_sub_of_le]
  · simp only [toNat_ofNat]
    omega
  · simp only [le_def, toNat_ofNat]
    omega

theorem Decoder.InStep.fetchable {d : Decoder} {pc cursor : Addr} (inStep : InStep code d pc cursor)
    (fetchable : InstFetchable cfg code pc) : Fetchable cfg cursor ∧ cursor.toNat % 4 = 0 := by
  cases inStep with
  | fresh _ _ next => exact ⟨next ▸ fetchable.first, next ▸ wordAddr_aligned pc⟩
  | middle _ _ half long odd next =>
    have size : code.size pc = 4 := by simp [Code.size, ← half, long]
    have same : wordAddr (pc + 2) = cursor := by
      have whole : (pc + 2).toNat % 4 = 0 := by grind
      rw [next, wordAddr, whole]
      exact BitVec.sub_zero _
    exact ⟨same ▸ fetchable.second size, same ▸ wordAddr_aligned _⟩

namespace Thread

theorem fetchBuf_of_hit {t : Thread} {a : Addr} (buffered : Buffered cfg code t)
    (whole : cfg.WholeWords) (fetchable : Fetchable cfg a) (aligned : a.toNat % 4 = 0)
    (hit : t.fetchBufHit cfg a = true) : t.fetchBuf a = code.word a := by
  have covers := fetchBlock_covers whole aligned
  have inside := fetchable.inside
  simp only [fetchBufHit, and_eq_true, bne_iff_ne, decide_eq_true_eq] at hit
  obtain ⟨⟨valid, below⟩, above⟩ := hit
  obtain ⟨fits, holds⟩ := buffered valid
  have four : (4 : Addr).toNat = 4 := rfl
  simp only [le_def, toNat_add, toNat_ofNat] at below above
  refine holds a aligned below ?_
  omega

theorem hit_of_block {t : Thread} {a : Addr} (whole : cfg.WholeWords)
    (fetchable : Fetchable cfg a) (aligned : a.toNat % 4 = 0)
    (base : t.fetchBufBase = fetchBlock cfg a) : t.fetchBufHit cfg a = true := by
  have covers := fetchBlock_covers whole aligned
  have inside := fetchable.inside
  have four : (4 : Addr).toNat = 4 := rfl
  simp only [fetchBufHit, base, and_eq_true, bne_iff_ne, decide_eq_true_eq]
  refine ⟨⟨fetchable.nonzero, ?_⟩, ?_⟩
  · simp only [le_def]
    omega
  · simp only [le_def, toNat_add, toNat_ofNat]
    omega

end Thread

/-- The requests on behalf of a fetch. -/
def Request.fetches (i : InstId) : Request → Bool
  | .itb j _ => j == i
  | .fetch j _ => j == i
  | .fetchResp j _ => j == i
  | _ => false

/-- The answer to a fetch: no fault, and the words of the block. -/
structure Delivers (cfg : Config) (code : Code) (ans : Answer) (r : Request) : Prop where
  fault : ans.fault = none
  data : ∀ i vaddr, r = .fetchResp i vaddr → HoldsBlock cfg code vaddr ans.fetched

/-- The machine takes a turn of the loop for instruction `i` in its next step. -/
inductive FetchTurn (cfg : Config) (code : Code) (i : InstId) (t : Thread) : Event → Prop where
  | attempt {rest : List Call} {e : Event} (calls : t.calls = .attemptFetch i :: rest) :
      FetchTurn cfg code i t e
  | serve {k : Nat} {ans : Answer} {r : Request} (calls : t.calls = [])
      (request : t.requests[k]? = some r) (own : r.fetches i = true)
      (servable : t.servable k r ans = true) (delivers : Delivers cfg code ans r) :
      FetchTurn cfg code i t (.serve k ans)

/-- Work that leaves the fetch of instruction `i` alone. The fetch buffer may be filled for
another instruction before the words for `i` are there. -/
structure FetchFrame (cfg : Config) (code : Code) (i : InstId) (t t' : Thread) : Prop where
  panicked : t'.panicked = none
  decoder : t'.decoder = t.decoder
  fetchOffset : t'.fetchOffset = t.fetchOffset
  mem : i ∈ t'.inflightInsts
  unsquashed : (t'.insts i).squashed = false
  pcState : (t'.insts i).pcState = (t.insts i).pcState
  requests : t'.requests.filter (Request.fetches i) = t.requests.filter (Request.fetches i)
  calls : t'.calls.count (.attemptFetch i) = t.calls.count (.attemptFetch i)
  buffer : t'.fetchBufBase = t.fetchBufBase ∧ t'.fetchBuf = t.fetchBuf
    ∨ Buffered cfg code t' ∧ .attemptFetch i ∉ t'.calls

/-- The thread in its fetch loop: the instruction it is fetching, what it has extracted,
and the number of turns. -/
structure FetchLoop where
  thread : Thread
  fetching : Option InstId := none
  out : List (PCState × StaticInst) := []
  turns : Nat := 0

namespace FetchLoop

/-- The program counter of the next instruction, when none is predicted taken. -/
def pc (start : PCState) (out : List (PCState × StaticInst)) : PCState :=
  (out.getLast?.map fun x => x.1.advance).getD start

/-- A step of the thread in its fetch loop. -/
inductive Step (cfg : Config) (code : Code) (start : PCState) : FetchLoop → FetchLoop → Prop where
  | advance {t : Thread} {out n} (active : t.tc.status = .active) (room : t.bufferFull cfg = false)
      (plain : t.curMacroOp = none) (ram : isRomMicroPC (pc start out).upc = false)
      (unused : t.requests.filter (Request.fetches t.nextInst) = [])
      (unasked : t.calls.count (.attemptFetch t.nextInst) = 0)
      (fetchable : InstFetchable cfg code (pc start out).pc) :
      Step cfg code start ⟨t, none, out, n⟩
        ⟨t.advanceInst cfg (pc start out), some t.nextInst, out, n⟩
  | turn {t : Thread} {i out n e} (turn : FetchTurn cfg code i t e)
      (more : (t.step cfg e).decodes = t.decodes) :
      Step cfg code start ⟨t, some i, out, n⟩ ⟨t.step cfg e, some i, out, n + 1⟩
  | decode {t : Thread} {i out n e si} (turn : FetchTurn cfg code i t e)
      (decoded : (t.step cfg e).decodes = t.decodes ++ [(i, si)]) :
      Step cfg code start ⟨t, some i, out, n⟩
        ⟨t.step cfg e, none, out ++ [(((t.step cfg e).insts i).pcState, si)], n + 1⟩
  | other {t t' : Thread} {i out n} (frame : FetchFrame cfg code i t t') :
      Step cfg code start ⟨t, some i, out, n⟩ ⟨t', some i, out, n⟩
  | between {t t' : Thread} {out n} (panicked : t'.panicked = none)
      (decoder : t'.decoder = t.decoder) (buffered : Buffered cfg code t') :
      Step cfg code start ⟨t, none, out, n⟩ ⟨t', none, out, n⟩

end FetchLoop

/-- The thread is fetching instruction `i` at `pc`. -/
structure Fetching (cfg : Config) (code : Code) (t : Thread) (i : InstId) (pc : PCState) :
    Prop where
  panicked : t.panicked = none
  mem : i ∈ t.inflightInsts
  unsquashed : (t.insts i).squashed = false
  here : (t.insts i).pcState = pc
  even : pc.pc.toNat % 2 = 0
  fetchable : InstFetchable cfg code pc.pc
  inStep : InStep code t.decoder pc.pc (t.fetchAddr i)
  buffered : Buffered cfg code t

/-- The one call or request that carries the fetch on, with the number of turns it takes to
offer the next word. -/
inductive Awaits (cfg : Config) (t : Thread) (i : InstId) : Nat → Prop where
  | hit (calls : t.calls.count (.attemptFetch i) = 1)
      (requests : t.requests.filter (Request.fetches i) = [])
      (hit : t.fetchBufHit cfg (t.fetchAddr i) = true) : Awaits cfg t i 1
  | miss (calls : t.calls.count (.attemptFetch i) = 1)
      (requests : t.requests.filter (Request.fetches i) = []) : Awaits cfg t i 5
  | itb (calls : t.calls.count (.attemptFetch i) = 0)
      (requests : t.requests.filter (Request.fetches i)
        = [.itb i (fetchBlock cfg (t.fetchAddr i))]) : Awaits cfg t i 4
  | fetch (calls : t.calls.count (.attemptFetch i) = 0)
      (requests : t.requests.filter (Request.fetches i)
        = [.fetch i (fetchBlock cfg (t.fetchAddr i))]) : Awaits cfg t i 3
  | fetchResp (calls : t.calls.count (.attemptFetch i) = 0)
      (requests : t.requests.filter (Request.fetches i)
        = [.fetchResp i (fetchBlock cfg (t.fetchAddr i))]) : Awaits cfg t i 2

/-- A turn goes on with the fetch of its instruction, or decodes it. -/
inductive Took (cfg : Config) (code : Code) (i : InstId) (pc : PCState) (t t' : Thread) (k : Nat) :
    Prop where
  | more {k' : Nat} (fetching : Fetching cfg code t' i pc) (awaits : Awaits cfg t' i k')
      (decodes : t'.decodes = t.decodes)
      (less : k' + (if t'.decoder.mid then 0 else 5) < k + if t.decoder.mid then 0 else 5)
  | inst (panicked : t'.panicked = none) (whole : t'.decoder.mid = false)
      (idle : t'.decoder.instDone = false) (buffered : Buffered cfg code t')
      (decodes : t'.decodes = t.decodes ++ [(i, cfg.decodeInst (code.inst pc.pc))])
      (pcState : (t'.insts i).pcState = code.pcState pc)

namespace Fetching

variable {t : Thread} {i : InstId} {pc : PCState}

theorem onInstDataFetched (fetching : Fetching cfg code t i pc)
    (calls : t.calls.count (.attemptFetch i) = 0)
    (requests : t.requests.filter (Request.fetches i) = []) (pos : 0 < k) :
    Took cfg code i pc t (t.onInstDataFetched cfg i (code.word (t.fetchAddr i))) k := by
  obtain ⟨panicked, mem, unsquashed, here, even, fetchable, inStep, buffered⟩ := fetching
  have offered := inStep.offer even
  simp only [Thread.onInstDataFetched, here]
  generalize t.decoder.moreBytes pc (code.word (t.fetchAddr i)) = d at offered ⊢
  cases offered with
  | ready done inst mid next fits reach =>
    have successor := Decoder.decodeWord_pc (d := d) inst
    have word : (d.decodeWord pc).2.1 = code.inst pc.pc := inst
    have decoded : d.decode cfg.decodeInst pc
        = ((d.decodeWord pc).1, some (cfg.decodeInst (code.inst pc.pc), code.pcState pc)) := by
      rw [Decoder.decode_eq]
      simp [Decoder.instReady, done, word, successor]
    rw [decoded]
    refine .inst panicked mid rfl buffered rfl ?_
    simp [Thread.issueInstruction, Thread.request, Thread.update]
  | more needs next before after reach start =>
    have idle : d.instDone = false := by
      cases next with
      | fresh _ idle _ => exact idle
      | middle _ idle _ _ _ _ => exact idle
    have decoded : d.decode cfg.decodeInst pc = (d, none) := by
      rw [Decoder.decode_eq]
      simp [Decoder.instReady, idle]
    rw [decoded]
    have further : Thread.fetchAddr { t with
        decoder := d
        fetchOffset := t.fetchOffset + 4
        calls := .attemptFetch i :: t.calls } i = t.fetchAddr i + 4 :=
      (BitVec.add_assoc ..).symm
    refine .more ⟨panicked, mem, unsquashed, here, even, fetchable, ?_, buffered⟩
      (.miss ?_ requests) rfl ?_
    · rw [further]
      exact next
    · simp [calls]
    · grind

theorem attemptFetch (whole : cfg.WholeWords) (fetching : Fetching cfg code t i pc)
    (calls : t.calls.count (.attemptFetch i) = 0)
    (requests : t.requests.filter (Request.fetches i) = [])
    (await : k = 5 ∨ k = 1 ∧ t.fetchBufHit cfg (t.fetchAddr i) = true) :
    Took cfg code i pc t (t.attemptFetch cfg i) k := by
  obtain ⟨fetchable, aligned⟩ := fetching.inStep.fetchable fetching.fetchable
  simp only [Thread.attemptFetch]
  split
  next hit =>
    rw [Thread.fetchBuf_of_hit fetching.buffered whole fetchable aligned hit]
    refine fetching.onInstDataFetched calls requests ?_
    omega
  next miss =>
    obtain rfl : k = 5 := by grind
    obtain ⟨panicked, mem, unsquashed, here, even, insts, inStep, buffered⟩ := fetching
    refine .more ⟨panicked, mem, unsquashed, here, even, insts, inStep, buffered⟩
      (.itb calls ?_) rfl ?_
    · simp only [Thread.request, filter_append, requests]
      simp [Request.fetches, fetchBlock, Thread.fetchAddr]
    · change 4 + (if t.decoder.mid then 0 else 5) < 5 + if t.decoder.mid then 0 else 5
      omega

end Fetching

theorem filter_eraseIdx {α : Type} {p : α → Bool} {l : List α} {r x : α} (single : l.filter p = [x])
    (request : l[k]? = some r) (own : p r = true) : r = x ∧ (l.eraseIdx k).filter p = [] := by
  obtain ⟨inside, rfl⟩ := List.getElem?_eq_some_iff.mp request
  have split : l = l.take k ++ l[k] :: l.drop (k + 1) := by
    rw [← drop_eq_getElem_cons inside, take_append_drop]
  rw [split, filter_append, List.filter_cons_of_pos own] at single
  cases before : (l.take k).filter p with
  | nil => grind
  | cons =>
    rw [before] at single
    have := congrArg List.length single
    simp at this

namespace Fetching

variable {t : Thread} {i : InstId} {pc : PCState}

theorem serveRequest (whole : cfg.WholeWords) (fetching : Fetching cfg code t i pc)
    {r : Request} {ans : Answer} {left : List Request}
    (awaits : Awaits cfg t i k) (own : r ∈ t.requests.filter (Request.fetches i))
    (delivers : Delivers cfg code ans r) (calls : t.calls = [])
    (none : left.filter (Request.fetches i) = []) :
    Took cfg code i pc t (({ t with requests := left }).serveRequest cfg ans r) k := by
  obtain ⟨word, aligned⟩ := fetching.inStep.fetchable fetching.fetchable
  obtain ⟨panicked, mem, unsquashed, here, even, fetchable, inStep, buffered⟩ := fetching
  have live : Thread.live { t with requests := left } i = true := by
    simp [Thread.live, Thread.alive, mem, unsquashed]
  have less : ∀ k' k, k' < k → k' + (if t.decoder.mid then 0 else 5)
      < k + if t.decoder.mid then 0 else 5 := by
    intros
    omega
  cases awaits with
  | hit asked requests hit => simp [requests] at own
  | miss asked requests => simp [requests] at own
  | itb asked requests =>
    obtain rfl : r = .itb i (fetchBlock cfg (t.fetchAddr i)) := by simpa [requests] using own
    simp only [Thread.serveRequest, live, if_true, delivers.fault]
    refine .more ⟨panicked, mem, unsquashed, here, even, fetchable, inStep, buffered⟩
      (.fetch asked ?_) rfl (less 3 4 (by omega))
    simp only [Thread.request, filter_append, none]
    simp [Request.fetches, Thread.fetchAddr]
  | fetch asked requests =>
    obtain rfl : r = .fetch i (fetchBlock cfg (t.fetchAddr i)) := by simpa [requests] using own
    simp only [Thread.serveRequest, unsquashed, false_eq_true, if_false]
    refine .more ⟨panicked, mem, unsquashed, here, even, fetchable, inStep, buffered⟩
      (.fetchResp asked ?_) rfl (less 2 3 (by omega))
    simp only [Thread.request, filter_append, none]
    simp [Request.fetches, Thread.fetchAddr]
  | fetchResp asked requests =>
    obtain rfl : r = .fetchResp i (fetchBlock cfg (t.fetchAddr i)) := by simpa [requests] using own
    have live : Thread.live (Thread.bufferInstructionData { t with requests := left }
        (fetchBlock cfg (t.fetchAddr i)) ans.fetched) i = true := live
    simp only [Thread.serveRequest, live]
    refine .more ⟨panicked, mem, unsquashed, here, even, fetchable, inStep, ?_⟩
      (.hit ?_ none (Thread.hit_of_block whole word aligned rfl)) rfl (less 1 2 (by omega))
    · intro nonzero
      have data := delivers.data i _ rfl
      simp only [Thread.bufferInstructionData, word.nonzero]
      exact ⟨word.inside, data⟩
    · simp [Thread.push, Thread.bufferInstructionData, calls]

theorem turn (whole : cfg.WholeWords) (fetching : Fetching cfg code t i pc)
    (awaits : Awaits cfg t i k) {e : Event} (turn : FetchTurn cfg code i t e) :
    Took cfg code i pc t (t.step cfg e) k := by
  have settled : ∀ r : Thread, Took cfg code i pc t r k → Took cfg code i pc t (Thread.settle t r) k := by
    intro r took
    have fine : r.panicked = none := by
      cases took with
      | more fetching _ _ _ => exact fetching.panicked
      | inst panicked _ _ _ _ _ => exact panicked
    simpa only [Thread.settle, fine] using took
  cases turn with
  | @attempt rest _ calls =>
    have step : t.step cfg e
        = Thread.settle t (Thread.attemptFetch cfg { t with calls := rest } i) := by
      simp [Thread.step, fetching.panicked, calls, Thread.runCall]
    rw [step]
    apply settled
    have once : t.calls.count (.attemptFetch i) = rest.count (.attemptFetch i) + 1 := by
      rw [calls, List.count_cons_self]
    have popped : Fetching cfg code { t with calls := rest } i pc := { fetching with }
    have from_popped : ∀ u, Took cfg code i pc { t with calls := rest } u k → Took cfg code i pc t u k := by
      intro u took
      cases took with
      | more fetching awaits decodes less => exact .more fetching awaits decodes less
      | inst panicked whole idle buffered decodes pcState =>
        exact .inst panicked whole idle buffered decodes pcState
    apply from_popped
    cases awaits with
    | hit asked requests hit =>
      exact popped.attemptFetch whole (by simp only; omega) requests (.inr ⟨rfl, hit⟩)
    | miss asked requests =>
      exact popped.attemptFetch whole (by simp only; omega) requests (.inl rfl)
    | itb asked requests => omega
    | fetch asked requests => omega
    | fetchResp asked requests => omega
  | @serve k' ans r calls request own servable delivers =>
    have step : t.step cfg (.serve k' ans) = Thread.settle t
        (Thread.serveRequest cfg { t with requests := t.requests.eraseIdx k' } ans r) := by
      simp [Thread.step, fetching.panicked, calls, Thread.handleEvent, request, servable]
    rw [step]
    apply settled
    have mine : r ∈ t.requests.filter (Request.fetches i) :=
      List.mem_filter.mpr ⟨mem_of_getElem? request, own⟩
    have single : ∃ x, t.requests.filter (Request.fetches i) = [x] := by
      cases awaits with
      | hit _ requests _ => simp [requests] at mine
      | miss _ requests => simp [requests] at mine
      | itb _ requests => exact ⟨_, requests⟩
      | fetch _ requests => exact ⟨_, requests⟩
      | fetchResp _ requests => exact ⟨_, requests⟩
    obtain ⟨x, single⟩ := single
    exact fetching.serveRequest whole awaits mine delivers calls
      (filter_eraseIdx single request own).2

end Fetching

theorem Thread.advanceInst_eq {t : Thread} {pc : PCState} (active : t.tc.status = .active)
    (room : t.bufferFull cfg = false) (plain : t.curMacroOp = none)
    (ram : isRomMicroPC pc.upc = false) :
    t.advanceInst cfg pc = { t.allocate (t.freshInst pc) with
      advanceInstNeedsRetry := false
      fetchOffset := 0
      calls := .attemptFetch t.nextInst :: t.calls } := by
  simp [Thread.advanceInst, active, room, plain, ram, Thread.allocate, Thread.freshInst]

theorem Fetching.advance {t : Thread} {pc : PCState} (active : t.tc.status = .active)
    (room : t.bufferFull cfg = false) (plain : t.curMacroOp = none)
    (ram : isRomMicroPC pc.upc = false) (fetchable : InstFetchable cfg code pc.pc)
    (panicked : t.panicked = none) (mid : t.decoder.mid = false)
    (idle : t.decoder.instDone = false) (buffered : Buffered cfg code t)
    (even : pc.pc.toNat % 2 = 0) : Fetching cfg code (t.advanceInst cfg pc) t.nextInst pc := by
  rw [Thread.advanceInst_eq active room plain ram]
  have here : (Thread.allocate t (t.freshInst pc)).insts t.nextInst = t.freshInst pc :=
    Function.update_self ..
  refine ⟨panicked, ?_, ?_, ?_, even, fetchable, .fresh mid idle ?_, buffered⟩
  · simp [Thread.allocate]
  · simp only [here]
    rfl
  · simp only [here]
    rfl
  · simp only [Thread.fetchAddr, here]
    have rounded : pc.pc &&& Thread.pcMask = wordAddr pc.pc :=
      and_not_low pc.pc (k := 2) (by decide)
    change (pc.pc &&& Thread.pcMask) + 0 = wordAddr pc.pc
    rw [rounded]
    exact BitVec.add_zero _

theorem Fetching.frame {t t' : Thread} {i : InstId} {pc : PCState}
    (fetching : Fetching cfg code t i pc) (frame : FetchFrame cfg code i t t') :
    Fetching cfg code t' i pc := by
  have addr : t'.fetchAddr i = t.fetchAddr i := by
    simp [Thread.fetchAddr, frame.pcState, frame.fetchOffset]
  refine ⟨frame.panicked, frame.mem, frame.unsquashed, frame.pcState.trans fetching.here,
    fetching.even, fetching.fetchable, ?_, ?_⟩
  · rw [addr, frame.decoder]
    exact fetching.inStep
  · rcases frame.buffer with ⟨base, data⟩ | ⟨buffered, -⟩
    · simp only [Buffered, base, data]
      exact fetching.buffered
    · exact buffered

theorem Awaits.pos {t : Thread} {i : InstId} (awaits : Awaits cfg t i k) : 0 < k := by
  cases awaits <;> omega

theorem Awaits.frame {t t' : Thread} {i : InstId} (awaits : Awaits cfg t i k)
    (frame : FetchFrame cfg code i t t') : Awaits cfg t' i k := by
  have addr : t'.fetchAddr i = t.fetchAddr i := by
    simp [Thread.fetchAddr, frame.pcState, frame.fetchOffset]
  have calls := frame.calls
  have requests := frame.requests
  cases awaits with
  | hit asked none hit =>
    refine .hit (calls.trans asked) (requests.trans none) ?_
    rcases frame.buffer with ⟨base, -⟩ | ⟨-, absent⟩
    · grind [Thread.fetchBufHit]
    · have := List.count_eq_zero.mpr absent
      omega
  | miss asked none => exact .miss (calls.trans asked) (requests.trans none)
  | itb asked one => exact .itb (calls.trans asked) (addr ▸ requests.trans one)
  | fetch asked one => exact .fetch (calls.trans asked) (addr ▸ requests.trans one)
  | fetchResp asked one => exact .fetchResp (calls.trans asked) (addr ▸ requests.trans one)

namespace FetchLoop

/-- An instruction of the reference parse, as the thread decodes it. -/
def decodedAs (cfg : Config) (inst : PCState × ExtMachInst) : PCState × StaticInst :=
  (inst.1, cfg.decodeInst inst.2)

/-- What the loop has extracted begins every reference parse that is long enough. -/
def Parsed (cfg : Config) (code : Code) (start : PCState) (out : List (PCState × StaticInst)) :
    Prop :=
  ∀ bytes, 4 * out.length ≤ bytes → ∃ bytes', bytes ≤ bytes' + 4 * out.length
    ∧ (code.insts start bytes).map (decodedAs cfg)
      = out ++ (code.insts (pc start out) bytes').map (decodedAs cfg)

variable {start : PCState} {out : List (PCState × StaticInst)}

theorem parsed_nil : Parsed cfg code start [] := fun bytes _ => ⟨bytes, by simp, by simp [pc]⟩

theorem pc_concat (x : PCState × StaticInst) : pc start (out ++ [x]) = x.1.advance := by
  simp [pc]

theorem Parsed.concat (parsed : Parsed cfg code start out) :
    Parsed cfg code start (out ++ [(code.pcState (pc start out),
      cfg.decodeInst (code.inst (pc start out).pc))]) := by
  intro bytes room
  rw [length_append, length_singleton] at room
  obtain ⟨bytes', left, same⟩ := parsed bytes (by omega)
  have size := code.size_cases (pc start out).pc
  have fits : code.size (pc start out).pc ≤ bytes' := by omega
  refine ⟨bytes' - code.size (pc start out).pc, ?_, ?_⟩
  · grind
  · rw [same, Code.insts_of_fits fits, pc_concat, List.map_cons, List.append_assoc]
    rfl

/-- The loop is in step with the parse. -/
inductive InLoop (cfg : Config) (code : Code) (start : PCState) : FetchLoop → Prop where
  | between {t : Thread} {out n} (panicked : t.panicked = none) (mid : t.decoder.mid = false)
      (idle : t.decoder.instDone = false) (buffered : Buffered cfg code t)
      (even : (pc start out).pc.toNat % 2 = 0) (parsed : Parsed cfg code start out)
      (turns : n ≤ 10 * out.length) : InLoop cfg code start ⟨t, none, out, n⟩
  | fetching {t : Thread} {i out n k} (fetching : Fetching cfg code t i (pc start out))
      (awaits : Awaits cfg t i k) (parsed : Parsed cfg code start out)
      (turns : n + (k + if t.decoder.mid then 0 else 5) ≤ 10 * (out.length + 1)) :
      InLoop cfg code start ⟨t, some i, out, n⟩

theorem InLoop.step (whole : cfg.WholeWords) {s s' : FetchLoop} (inLoop : InLoop cfg code start s)
    (step : Step cfg code start s s') : InLoop cfg code start s' := by
  cases step with
  | advance active room plain ram unused unasked fetchable =>
    obtain ⟨panicked, mid, idle, buffered, even, parsed, turns⟩ := inLoop
    have fetching := Fetching.advance active room plain ram fetchable panicked mid idle buffered even
    refine .fetching (k := 5) fetching (.miss ?_ ?_) parsed ?_
    · grind [Thread.advanceInst_eq]
    · rw [Thread.advanceInst_eq active room plain ram]
      exact unused
    · split <;> omega
  | turn turn more =>
    cases inLoop with
    | fetching fetching awaits parsed turns =>
      cases fetching.turn whole awaits turn with
      | more fetching' awaits' decodes less =>
        exact .fetching fetching' awaits' parsed (by omega)
      | inst panicked mid idle buffered decodes pcState => simp_all
  | @decode t i out n e si turn decoded =>
    cases inLoop with
    | fetching fetching awaits parsed turns =>
      cases fetching.turn whole awaits turn with
      | more fetching' awaits' decodes less => simp_all
      | inst panicked mid idle buffered decodes pcState =>
        rw [decodes] at decoded
        obtain rfl : cfg.decodeInst (code.inst (pc start out).pc) = si := by simpa using decoded
        rw [pcState]
        refine .between panicked mid idle buffered ?_ parsed.concat ?_
        · rw [pc_concat]
          change ((pc start out).pc + BitVec.ofNat 64 (code.size (pc start out).pc)).toNat % 2 = 0
          rw [toNat_add_mod _ _ (by decide)]
          have := fetching.even
          rcases code.size_cases (pc start out).pc with size | size <;> rw [size] <;> omega
        · rw [length_append, length_singleton]
          have pos := awaits.pos
          omega
  | other frame =>
    cases inLoop with
    | fetching fetching awaits parsed turns =>
      exact .fetching (fetching.frame frame) (awaits.frame frame) parsed (frame.decoder ▸ turns)
  | between panicked decoder buffered =>
    cases inLoop with
    | between _ mid idle _ even parsed turns =>
      exact .between panicked (decoder ▸ mid) (decoder ▸ idle) buffered even parsed turns

/-- A thread that fetches nothing, before the loop. -/
structure Fresh (cfg : Config) (code : Code) (t : Thread) : Prop where
  panicked : t.panicked = none
  mid : t.decoder.mid = false
  idle : t.decoder.instDone = false
  buffered : Buffered cfg code t

/-- The loop extracts the instructions of the reference parse in order, with ten turns at
most for each, and the next turn for an instruction is always pending. -/
theorem run_parse (whole : cfg.WholeWords) {t : Thread} (fresh : Fresh cfg code t)
    (even : start.pc.toNat % 2 = 0) {s : FetchLoop}
    (run : Relation.ReflTransGen (Step cfg code start) ⟨t, none, [], 0⟩ s) :
    (∀ bytes, 4 * s.out.length ≤ bytes →
        s.out <+: (code.insts start bytes).map (decodedAs cfg))
      ∧ s.turns ≤ 10 * (s.out.length + 1)
      ∧ ∀ i, s.fetching = some i →
        .attemptFetch i ∈ s.thread.calls ∨ ∃ r ∈ s.thread.requests, r.fetches i = true := by
  have inLoop : InLoop cfg code start s := by
    induction run with
    | refl =>
      exact .between fresh.panicked fresh.mid fresh.idle fresh.buffered even parsed_nil (Nat.zero_le _)
    | tail _ step ih => exact ih.step whole step
  have found : ∀ {t : Thread} {i : InstId} {r : Request},
      t.requests.filter (Request.fetches i) = [r] → ∃ r ∈ t.requests, r.fetches i = true := by
    intro t i r single
    have inside : r ∈ t.requests.filter (Request.fetches i) := by rw [single]; exact List.mem_cons_self
    exact ⟨r, List.mem_filter.mp inside⟩
  cases inLoop with
  | between _ _ _ _ _ parsed turns =>
    refine ⟨fun bytes room => ?_, turns.trans (by simp only; omega), fun i none => by cases none⟩
    obtain ⟨bytes', -, same⟩ := parsed bytes room
    exact same ▸ prefix_append _ _
  | @fetching t i out n k fetching awaits parsed turns =>
    refine ⟨fun bytes room => ?_, (Nat.le_add_right _ _).trans turns, fun j current => ?_⟩
    · obtain ⟨bytes', -, same⟩ := parsed bytes room
      exact same ▸ prefix_append _ _
    · obtain rfl : i = j := Option.some.inj current
      cases awaits with
      | hit calls _ _ => grind
      | miss calls _ => grind
      | itb _ single => exact .inr (found single)
      | fetch _ single => exact .inr (found single)
      | fetchResp _ single => exact .inr (found single)

end FetchLoop

end Gem5.FlexCPU
