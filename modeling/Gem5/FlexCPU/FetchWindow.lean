import Gem5.FlexCPU.FetchLoop
import Gem5.FlexCPU.Reachable

/-!
# The window of the fetch buffer

The fetch buffer as the bytes that a fetch has brought in. The window that is asked for is
aligned by a mask, which rounds down only for a power of two; for any other size it clears
the bits of `size - 1` wherever they are.
-/

namespace Gem5.FlexCPU

open BitVec

/-- `fetchBuf` and `fetchBufBase`: the bytes from `base` on, none while `base` is 0. -/
structure FetchBuffer (size : Nat) where
  base : Addr := 0
  bytes : Vector (BitVec 8) size

/-- What an attempt to fetch a word does: it decodes what it reads, where `none` is a read
outside of the buffer, or asks for a window. -/
inductive FetchAttempt where
  | decode (inst_data : Option MachInst)
  | request (new_buf_base : Addr) (req_size : Nat)
  deriving DecidableEq

/-- Four bytes in the order of the guest. -/
def machInst (b0 b1 b2 b3 : BitVec 8) : MachInst := b3 ++ b2 ++ b1 ++ b0

namespace FetchBuffer

variable {size : Nat}

def bufferInstructionData (buf : FetchBuffer size) (vaddr : Addr)
    (data : Vector (BitVec 8) size) : FetchBuffer size :=
  { base := vaddr, bytes := if vaddr = 0 then buf.bytes else data }

@[simp] theorem bufferInstructionData_base (buf : FetchBuffer size) (vaddr : Addr)
    (data : Vector (BitVec 8) size) : (buf.bufferInstructionData vaddr data).base = vaddr := rfl

def hit (buf : FetchBuffer size) (req_vaddr : Addr) : Bool :=
  buf.base != 0 && buf.base ≤ req_vaddr
    && req_vaddr + 4 ≤ buf.base + BitVec.ofNat 64 size

/-- `*reinterpret_cast<MachInst*>(fetchBuf.data() + off)`. -/
def readInst (buf : FetchBuffer size) (off : Nat) : Option MachInst := do
  return machInst (← buf.bytes[off]?) (← buf.bytes[off + 1]?) (← buf.bytes[off + 2]?)
    (← buf.bytes[off + 3]?)

def attemptFetch (cfg : Config) (buf : FetchBuffer size) (req_vaddr : Addr) : FetchAttempt :=
  if buf.hit req_vaddr then .decode (buf.readInst (req_vaddr - buf.base).toNat)
  else .request (fetchBlock cfg req_vaddr) size

end FetchBuffer

/-- The bytes that a fetch of the window at `vaddr` brings in. -/
def fetchedBytes (mem : Addr → BitVec 8) (vaddr : Addr) (size : Nat) :
    Vector (BitVec 8) size :=
  Vector.ofFn fun k => mem (vaddr + BitVec.ofNat 64 k)

def instAt (mem : Addr → BitVec 8) (a : Addr) : MachInst :=
  machInst (mem a) (mem (a + 1)) (mem (a + 2)) (mem (a + 3))

theorem fetchedBytes_get {size : Nat} (mem : Addr → BitVec 8) {base a : Addr} {off k : Nat}
    (back : base + BitVec.ofNat 64 off = a) (inside : off + k < size) :
    (fetchedBytes mem base size)[off + k]? = some (mem (a + BitVec.ofNat 64 k)) := by
  rw [Vector.getElem?_eq_getElem inside, fetchedBytes, Vector.getElem_ofFn, ofNat_add,
    ← BitVec.add_assoc, back]

theorem readInst_fetched {size : Nat} (buf : FetchBuffer size) (mem : Addr → BitVec 8)
    {base a : Addr} (valid : base ≠ 0) (low : base ≤ a) (high : a.toNat + 4 ≤ base.toNat + size) :
    (buf.bufferInstructionData base (fetchedBytes mem base size)).readInst (a - base).toNat
      = some (instAt mem a) := by
  have off : (a - base).toNat = a.toNat - base.toNat := toNat_sub_of_le low
  have back : base + BitVec.ofNat 64 (a.toNat - base.toNat) = a := by grind
  rw [le_def] at low
  have byte (k : Nat) (small : k < 4) := @fetchedBytes_get size mem base a _ k back (by omega)
  have first := byte 0 (by decide)
  rw [Nat.add_zero, BitVec.add_zero] at first
  rw [FetchBuffer.readInst, FetchBuffer.bufferInstructionData, if_neg valid, off, first,
    byte 1 (by decide), byte 2 (by decide), byte 3 (by decide)]
  rfl

/-- The fetch buffer of the thread holds the words of `buf`. -/
structure Thread.Buffers (t : Thread) (cfg : Config)
    (buf : FetchBuffer cfg.fetchBufSize) : Prop where
  base : t.fetchBufBase = buf.base
  words : buf.base ≠ 0 → ∀ a, buf.base ≤ a →
    a.toNat + 4 ≤ buf.base.toNat + cfg.fetchBufSize →
    buf.readInst (a - buf.base).toNat = some (t.fetchBuf a)

theorem Thread.buffers_fetched {cfg : Config} (t : Thread)
    (buf : FetchBuffer cfg.fetchBufSize) (vaddr : Addr) (mem : Addr → BitVec 8) :
    (t.bufferInstructionData vaddr (instAt mem)).Buffers cfg
      (buf.bufferInstructionData vaddr (fetchedBytes mem vaddr _)) := by
  refine ⟨rfl, fun valid a low high => ?_⟩
  rw [FetchBuffer.bufferInstructionData_base] at valid low high ⊢
  rw [readInst_fetched buf mem valid low high, Thread.bufferInstructionData, if_neg valid]

/-- What the thread does about an attempt. -/
def FetchAttempt.perform (cfg : Config) (t : Thread) (i : InstId) : FetchAttempt → Thread
  | .decode none => t
  | .decode (some data) => t.onInstDataFetched cfg i data
  | .request vaddr _ => t.request (.itb i vaddr)

theorem Thread.Buffers.attemptFetch {cfg : Config} {t : Thread}
    {buf : FetchBuffer cfg.fetchBufSize} (buffers : t.Buffers cfg buf) (i : InstId)
    (inside : (t.fetchAddr i).toNat + 4 ≤ buf.base.toNat + cfg.fetchBufSize) :
    t.attemptFetch cfg i = (buf.attemptFetch cfg (t.fetchAddr i)).perform cfg t i := by
  have same : t.fetchBufHit cfg (t.fetchAddr i) = buf.hit (t.fetchAddr i) := by
    rw [Thread.fetchBufHit, FetchBuffer.hit, buffers.base]
  rw [Thread.attemptFetch, FetchBuffer.attemptFetch, same]
  cases hit : buf.hit (t.fetchAddr i) with
  | false => rfl
  | true =>
    have covered := hit
    simp only [FetchBuffer.hit, Bool.and_eq_true, bne_iff_ne, decide_eq_true_eq] at covered
    rw [if_pos rfl, if_pos rfl, buffers.words covered.1.1 _ covered.1.2 inside]
    rfl

/-- The constructor's checks on the size of the buffer, for a line size that is a power of
two. -/
structure Config.Accepted (cfg : Config) : Prop where
  words : cfg.fetchBufSize % 4 = 0
  fits : cfg.fetchBufSize ≤ cfg.cacheLineSize
  powerOfTwo : ∃ k < 32, cfg.cacheLineSize = 2 ^ k

/-- What is wanted of the fetch of the word at `req_vaddr`: its window is in one line and
contains the word, and the attempt that follows reads the bytes that were fetched for it. -/
structure WindowCovers (cfg : Config) (req_vaddr : Addr) : Prop where
  oneLine : ∀ a, (fetchBlock cfg req_vaddr).toNat ≤ a →
    a < (fetchBlock cfg req_vaddr).toNat + cfg.fetchBufSize →
    a / cfg.cacheLineSize = (fetchBlock cfg req_vaddr).toNat / cfg.cacheLineSize
  contains : (fetchBlock cfg req_vaddr).toNat ≤ req_vaddr.toNat
    ∧ req_vaddr.toNat + 4 ≤ (fetchBlock cfg req_vaddr).toNat + cfg.fetchBufSize
  hits : fetchBlock cfg req_vaddr ≠ 0 →
    ∀ (buf : FetchBuffer cfg.fetchBufSize) (mem : Addr → BitVec 8),
      (buf.bufferInstructionData (fetchBlock cfg req_vaddr) (fetchedBytes mem
        (fetchBlock cfg req_vaddr) _)).attemptFetch cfg req_vaddr
          = .decode (some (instAt mem req_vaddr))

/-- The window of the word at `req_vaddr` ends with the address space: all bits that the
mask keeps are set. -/
def LastWindow (cfg : Config) (req_vaddr : Addr) : Prop :=
  req_vaddr ||| (BitVec.ofNat 64 cfg.fetchBufSize - 1) = BitVec.allOnes 64

instance (cfg : Config) (req_vaddr : Addr) : Decidable (LastWindow cfg req_vaddr) :=
  inferInstanceAs (Decidable (_ = _))

section Windows

variable {cfg : Config}

theorem Config.Accepted.wholeWords (accepted : cfg.Accepted) (nonempty : cfg.fetchBufSize ≠ 0) :
    cfg.WholeWords := by
  obtain ⟨k, small, line⟩ := accepted.powerOfTwo
  have : 2 ^ k < 2 ^ 32 := Nat.pow_lt_pow_right (by decide) small
  have := accepted.fits
  exact ⟨by omega, accepted.words, by omega⟩

/-- The offset of a window in its line has no bit in common with the size less one, so
that the last address of the window is put together without a carry. -/
theorem fetchBlock_fits (whole : cfg.WholeWords) (req_vaddr : Addr) {k : Nat}
    (fits : cfg.fetchBufSize ≤ 2 ^ k) :
    (fetchBlock cfg req_vaddr).toNat % 2 ^ k + cfg.fetchBufSize ≤ 2 ^ k := by
  have disjoint : fetchBlock cfg req_vaddr &&& (BitVec.ofNat 64 cfg.fetchBufSize - 1) = 0#64 := by
    rw [fetchBlock, Thread.fetchBufMask, BitVec.and_assoc, BitVec.and_comm (~~~_)]
    simp
  have apart : (fetchBlock cfg req_vaddr).toNat &&& (cfg.fetchBufSize - 1) = 0 := by
    rw [← whole.low_toNat, ← toNat_and, disjoint]
    rfl
  have := whole.pos
  have below : cfg.fetchBufSize - 1 < 2 ^ k := by omega
  have offset : (fetchBlock cfg req_vaddr).toNat % 2 ^ k &&& (cfg.fetchBufSize - 1) = 0 := by
    have := Nat.and_mod_two_pow (a := (fetchBlock cfg req_vaddr).toNat)
      (b := cfg.fetchBufSize - 1) (n := k)
    rw [apart, Nat.zero_mod, Nat.mod_eq_of_lt below] at this
    exact this.symm
  have := add_lt_of_disjoint offset (Nat.mod_lt _ (Nat.two_pow_pos k)) below
  omega

theorem fetchBlock_end (whole : cfg.WholeWords) (req_vaddr : Addr) {k : Nat} (small : k < 64)
    (fits : cfg.fetchBufSize ≤ 2 ^ k) :
    (fetchBlock cfg req_vaddr).toNat + cfg.fetchBufSize ≤ 2 ^ 64 := by
  have offset := fetchBlock_fits whole req_vaddr fits
  have lines : (2 : Nat) ^ 64 = 2 ^ (64 - k) * 2 ^ k := by
    rw [← Nat.pow_add]
    congr 1
    omega
  have block : (fetchBlock cfg req_vaddr).toNat / 2 ^ k < 2 ^ (64 - k) := by
    rw [Nat.div_lt_iff_lt_mul (Nat.two_pow_pos k), ← lines]
    exact (fetchBlock cfg req_vaddr).isLt
  calc (fetchBlock cfg req_vaddr).toNat + cfg.fetchBufSize
      = (fetchBlock cfg req_vaddr).toNat / 2 ^ k * 2 ^ k
          + ((fetchBlock cfg req_vaddr).toNat % 2 ^ k + cfg.fetchBufSize) := by
        have := Nat.div_add_mod' (fetchBlock cfg req_vaddr).toNat (2 ^ k)
        omega
    _ ≤ (fetchBlock cfg req_vaddr).toNat / 2 ^ k * 2 ^ k + 2 ^ k := by omega
    _ = ((fetchBlock cfg req_vaddr).toNat / 2 ^ k + 1) * 2 ^ k := (Nat.succ_mul _ _).symm
    _ ≤ 2 ^ (64 - k) * 2 ^ k := Nat.mul_le_mul_right _ block
    _ = 2 ^ 64 := lines.symm

theorem fetchBlock_oneLine (whole : cfg.WholeWords) (req_vaddr : Addr) {k : Nat}
    (fits : cfg.fetchBufSize ≤ 2 ^ k) {a : Nat} (low : (fetchBlock cfg req_vaddr).toNat ≤ a)
    (high : a < (fetchBlock cfg req_vaddr).toNat + cfg.fetchBufSize) :
    a / 2 ^ k = (fetchBlock cfg req_vaddr).toNat / 2 ^ k := by
  have offset := fetchBlock_fits whole req_vaddr fits
  have whole := Nat.div_add_mod' (fetchBlock cfg req_vaddr).toNat (2 ^ k)
  apply Nat.div_eq_of_lt_le
  · omega
  · rw [Nat.succ_mul]
    omega

theorem lastWindow_iff (whole : cfg.WholeWords) (req_vaddr : Addr) :
    LastWindow cfg req_vaddr ↔ (fetchBlock cfg req_vaddr).toNat + cfg.fetchBufSize = 2 ^ 64 := by
  have kept : LastWindow cfg req_vaddr ↔ fetchBlock cfg req_vaddr = Thread.fetchBufMask cfg :=
    or_eq_allOnes_iff _ _
  have mask : (Thread.fetchBufMask cfg).toNat = 2 ^ 64 - cfg.fetchBufSize := by
    have := whole.pos
    rw [Thread.fetchBufMask, toNat_not, whole.low_toNat]
    omega
  rw [kept, ← toNat_inj, mask]
  have := whole.small
  omega

theorem hit_fetched_iff (whole : cfg.WholeWords) {req_vaddr base : Addr} (valid : base ≠ 0)
    (low : base ≤ req_vaddr) (high : req_vaddr.toNat + 4 ≤ base.toNat + cfg.fetchBufSize)
    (inside : base.toNat + cfg.fetchBufSize ≤ 2 ^ 64) (buf : FetchBuffer cfg.fetchBufSize)
    (based : buf.base = base) :
    buf.hit req_vaddr = true ↔ (base.toNat + cfg.fetchBufSize = 2 ^ 64 → req_vaddr + 4 = 0) := by
  have := whole.small
  have sizes : (req_vaddr + 4 ≤ base + BitVec.ofNat 64 cfg.fetchBufSize)
      ↔ (req_vaddr.toNat + 4) % 2 ^ 64 ≤ (base.toNat + cfg.fetchBufSize) % 2 ^ 64 := by
    rw [le_def, toNat_add, toNat_add, toNat_ofNat,
      Nat.mod_eq_of_lt (by omega : cfg.fetchBufSize < 2 ^ 64)]
    rfl
  have wraps : req_vaddr + 4 = 0 ↔ (req_vaddr.toNat + 4) % 2 ^ 64 = 0 := by
    rw [← toNat_inj, toNat_add]
    rfl
  simp only [FetchBuffer.hit, based, Bool.and_eq_true, bne_iff_ne, decide_eq_true_eq, valid, low,
    ne_eq, not_false_eq_true, true_and, sizes, wraps]
  omega

end Windows

theorem LastWindow.fetchBlock_ne_zero {cfg : Config} {req_vaddr : Addr}
    (last : LastWindow cfg req_vaddr) (whole : cfg.WholeWords) : fetchBlock cfg req_vaddr ≠ 0 := by
  intro zero
  rw [lastWindow_iff whole, zero] at last
  have := whole.small
  have : (0 : Addr).toNat = 0 := rfl
  omega

theorem WindowCovers.attempt_hits {cfg : Config} {req_vaddr : Addr}
    (covers : WindowCovers cfg req_vaddr) (valid : fetchBlock cfg req_vaddr ≠ 0) :
    (FetchBuffer.mk (fetchBlock cfg req_vaddr)
      (fetchedBytes (fun _ => 0) (fetchBlock cfg req_vaddr) cfg.fetchBufSize)).hit req_vaddr
        = true := by
  have read := covers.hits valid { bytes := .replicate _ 0 } fun _ => 0
  by_contra miss
  rw [FetchBuffer.bufferInstructionData, if_neg valid, FetchBuffer.attemptFetch,
    if_neg miss] at read
  cases read

/-- A buffer of one line. -/
def lineConfig : Config := .sample fun _ => .nop

theorem lineConfig_accepted : lineConfig.Accepted :=
  ⟨rfl, Nat.le_refl 64, 6, by decide, rfl⟩

/-- The window of a buffer that is not empty covers every word, except where it ends with
the address space: its end is then computed to be 0, and only the last word, whose end is 0
too, is found. -/
theorem windowCovers_iff {cfg : Config} (accepted : cfg.Accepted) {req_vaddr : Addr}
    (aligned : req_vaddr.toNat % 4 = 0) :
    WindowCovers cfg req_vaddr ↔
      cfg.fetchBufSize ≠ 0 ∧ (LastWindow cfg req_vaddr → req_vaddr + 4 = 0) := by
  by_cases empty : cfg.fetchBufSize = 0
  · refine ⟨fun covers => ?_, fun cond => absurd empty cond.1⟩
    have := covers.contains
    rw [empty] at this
    omega
  have whole := accepted.wholeWords empty
  have contains := fetchBlock_covers whole aligned
  obtain ⟨k, small, line⟩ := accepted.powerOfTwo
  have fits := line ▸ accepted.fits
  have inside := fetchBlock_end whole req_vaddr (by omega) fits
  have hit (valid : fetchBlock cfg req_vaddr ≠ 0) (buf : FetchBuffer cfg.fetchBufSize)
      (based : buf.base = fetchBlock cfg req_vaddr) :
      buf.hit req_vaddr = true ↔ (LastWindow cfg req_vaddr → req_vaddr + 4 = 0) := by
    rw [lastWindow_iff whole]
    exact hit_fetched_iff whole valid contains.1 contains.2 inside buf based
  constructor
  · refine fun covers => ⟨empty, fun last => ?_⟩
    have valid := last.fetchBlock_ne_zero whole
    have hits := covers.attempt_hits valid
    exact (hit valid _ rfl).mp hits last
  · rintro ⟨-, reaches⟩
    refine ⟨fun a => ?_, contains, fun valid buf mem => ?_⟩
    · rw [line]
      exact fetchBlock_oneLine whole req_vaddr fits
    · rw [FetchBuffer.attemptFetch, if_pos ((hit valid _ rfl).mpr reaches),
        FetchBuffer.bufferInstructionData_base,
        readInst_fetched buf mem valid contains.1 contains.2]

/-- The constructor accepts a buffer of one line of 64 bytes, and the address space is made
of whole words. -/
theorem windowCovers_iff_line :
    WindowCovers lineConfig 0x1000 ↔ lineConfig.fetchBufSize ≠ 0
      ∧ (LastWindow lineConfig 0x1000 → (0x1000 : Addr) + 4 = 0) :=
  windowCovers_iff lineConfig_accepted (by decide)

/-- With a buffer of one line, the first word of the last line is never found. -/
theorem last_line_misses :
    lineConfig.Accepted ∧ (0xFFFFFFFFFFFFFFC0 : Addr).toNat % 4 = 0
      ∧ ¬WindowCovers lineConfig 0xFFFFFFFFFFFFFFC0 := by
  refine ⟨lineConfig_accepted, by decide, fun covers => ?_⟩
  have hits := covers.attempt_hits (by decide)
  revert hits
  decide

/-- The thread reads the word that was fetched, so that it is asked for once. -/
theorem WindowCovers.attemptFetch_thread {cfg : Config} {t : Thread} {i : InstId}
    (covers : WindowCovers cfg (t.fetchAddr i)) (valid : fetchBlock cfg (t.fetchAddr i) ≠ 0)
    (mem : Addr → BitVec 8) :
    let fetched := t.bufferInstructionData (fetchBlock cfg (t.fetchAddr i)) (instAt mem)
    fetched.attemptFetch cfg i = fetched.onInstDataFetched cfg i (instAt mem (t.fetchAddr i)) := by
  intro fetched
  let buf : FetchBuffer cfg.fetchBufSize := { bytes := .replicate _ 0 }
  have buffers := t.buffers_fetched buf (fetchBlock cfg (t.fetchAddr i)) mem
  have attempt := buffers.attemptFetch i covers.contains.2
  rw [attempt]
  have read := covers.hits valid buf mem
  show FetchAttempt.perform cfg fetched i (FetchBuffer.attemptFetch cfg _ (t.fetchAddr i)) = _
  rw [read]
  rfl

end Gem5.FlexCPU
