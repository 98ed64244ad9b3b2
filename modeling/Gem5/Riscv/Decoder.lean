import Gem5.FlexCPU.Isa
import Gem5.Lib.Bits

/-!
# The streaming decoder

`RiscvISA::Decoder` builds machine instructions from the aligned words of the code. A
reference parse reads the code in parcels of 16 bits. A decoder that is in step with the
parse needs the word at `cursor` next, and each word brings it to the next instruction or
to the middle of one.
-/

namespace Gem5.FlexCPU

open BitVec

/-- Code memory. -/
abbrev Code := Addr → BitVec 8

variable {code : Code}

namespace Code

def parcel (code : Code) (a : Addr) : BitVec 16 := code (a + 1) ++ code a

/-- The aligned word that a fetch delivers. -/
def word (code : Code) (a : Addr) : MachInst := code.parcel (a + 2) ++ code.parcel a

/-- The instruction at `pc`: one parcel, or two when its two low bits are set. -/
def inst (code : Code) (pc : Addr) : ExtMachInst :=
  let h := (code.parcel pc).setWidth 64
  if Decoder.compressed h then h else h ||| ((code.parcel (pc + 2)).setWidth 64 <<< 16)

/-- The number of its bytes. -/
def size (code : Code) (pc : Addr) : Nat :=
  if Decoder.compressed ((code.parcel pc).setWidth 64) then 2 else 4

theorem size_cases (code : Code) (pc : Addr) : code.size pc = 2 ∨ code.size pc = 4 := by
  simp only [size]
  split
  · exact .inl rfl
  · exact .inr rfl

/-- The program counter of the instruction at `pc`, with its fall-through successor. -/
def pcState (code : Code) (pc : PCState) : PCState :=
  { pc with npc := pc.pc + BitVec.ofNat 64 (code.size pc.pc) }

/-- The instructions that lie within `bytes` bytes from `pc`, with their program
counters; `fuel` bounds their number. -/
def parse (code : Code) : Nat → PCState → Nat → List (PCState × ExtMachInst)
  | 0, _, _ => []
  | fuel + 1, pc, bytes =>
    if code.size pc.pc ≤ bytes then
      (code.pcState pc, code.inst pc.pc)
        :: code.parse fuel (code.pcState pc).advance (bytes - code.size pc.pc)
    else []

/-- The reference parse of `bytes` bytes. -/
def insts (code : Code) (pc : PCState) (bytes : Nat) : List (PCState × ExtMachInst) :=
  code.parse bytes pc bytes

variable {pc : PCState} {bytes : Nat}

theorem parse_fuel (code : Code) {fuel : Nat} (fuel' : Nat) (enough : bytes ≤ fuel)
    (enough' : bytes ≤ fuel') : code.parse fuel pc bytes = code.parse fuel' pc bytes := by
  induction fuel generalizing fuel' pc bytes with
  | zero =>
    have none : bytes = 0 := by omega
    cases fuel' with
    | zero => rfl
    | succ => rcases code.size_cases pc.pc with size | size <;> simp [parse, none, size]
  | succ fuel ih =>
    cases fuel' with
    | zero => grind
    | succ fuel' =>
      simp only [parse]
      split
      · have size := code.size_cases pc.pc
        rw [ih fuel' (by omega) (by omega)]
      · rfl

theorem insts_of_fits (fits : code.size pc.pc ≤ bytes) :
    code.insts pc bytes = (code.pcState pc, code.inst pc.pc)
      :: code.insts (code.pcState pc).advance (bytes - code.size pc.pc) := by
  have size := code.size_cases pc.pc
  obtain ⟨fuel, rfl⟩ : ∃ fuel, bytes = fuel + 1 := ⟨bytes - 1, by omega⟩
  simp only [insts, parse, fits, if_true]
  rw [parse_fuel code (fuel + 1 - code.size pc.pc) (by omega) (by omega)]

theorem insts_of_short (short : bytes < code.size pc.pc) : code.insts pc bytes = []:= by
  cases bytes with
  | zero => rfl
  | succ => simp [insts, parse, Nat.not_le.mpr short]

end Code

namespace Decoder

def needMoreBytes (d : Decoder) : Bool := d.more

def instReady (d : Decoder) : Bool := d.instDone

/-- `decode(PCState&)` up to the table of instructions: the machine instruction and the
program counter with its fall-through successor. -/
def decodeWord (d : Decoder) (pc : PCState) : Decoder × ExtMachInst × PCState :=
  ({ d with instDone := false }, d.emi,
    { pc with npc := pc.pc + if compressed d.emi then 2 else 4 })

theorem decode_eq (d : Decoder) (decodeInst : ExtMachInst → StaticInst) (pc : PCState) :
    d.decode decodeInst pc =
      if d.instReady then
        ((d.decodeWord pc).1, some (decodeInst (d.decodeWord pc).2.1, (d.decodeWord pc).2.2))
      else (d, none) := rfl

theorem setWidth_word (code : Code) (a : Addr) :
    (code.word a).setWidth 64
      = (code.parcel a).setWidth 64 ||| ((code.parcel (a + 2)).setWidth 64 <<< 16) :=
  (setWidth_or_shiftLeft _ _).symm

theorem lowerHalf_word (code : Code) (a : Addr) :
    lowerHalf (code.word a) = (code.parcel a).setWidth 64 := by
  apply eq_of_getLsbD_eq
  intro i inside
  have low : (0xffff#64).getLsbD i = decide (i < 16) := by
    have := getLsbD_mask (w := 64) 16 i
    simpa [mask, inside] using this
  simp only [lowerHalf, getLsbD_and, low, getLsbD_setWidth, Code.word, getLsbD_append]
  by_cases half : i < 16
  · simp [half]
  · grind

theorem upperHalf_word (code : Code) (a : Addr) :
    upperHalf (code.word a) = (code.parcel (a + 2)).setWidth 64 := by
  apply eq_of_getLsbD_eq
  intro i inside
  simp only [upperHalf, getLsbD_ushiftRight, getLsbD_setWidth, Code.word, getLsbD_append, inside]
  by_cases half : 16 + i < 64
  · simp [half]
  · grind

theorem compressed_or_shiftLeft (x y : ExtMachInst) :
    compressed (x ||| (y <<< 16)) = compressed x := by
  have low : (x ||| (y <<< 16)) &&& 3#64 = x &&& 3#64 := by
    apply eq_of_getLsbD_eq
    intro i inside
    have three : (3#64).getLsbD i = decide (i < 2) := by
      have := getLsbD_mask (w := 64) 2 i
      simpa [mask, inside] using this
    simp only [getLsbD_and, three]
    by_cases small : i < 2
    · simp [show i < 16 by omega]
    · simp [small]
  simp [compressed, low]

theorem compressed_inst (code : Code) (pc : Addr) :
    compressed (code.inst pc) = compressed ((code.parcel pc).setWidth 64) := by
  simp only [Code.inst]
  split
  · rfl
  · exact compressed_or_shiftLeft ..

theorem decodeWord_pc {d : Decoder} {pc : PCState} (inst : d.emi = code.inst pc.pc) :
    (d.decodeWord pc).2.2 = code.pcState pc := by
  simp only [decodeWord, inst, compressed_inst, Code.pcState, Code.size]
  split <;> rfl

/-- The word that holds the lower half of the instruction at `pc`. -/
def wordAddr (pc : Addr) : Addr := pc - BitVec.ofNat 64 (pc.toNat % 4)

/-- The decoder has read the code up to `cursor` and is to find the instruction at `pc`. -/
inductive InStep (code : Code) (d : Decoder) (pc cursor : Addr) : Prop where
  | fresh (mid : d.mid = false) (idle : d.instDone = false) (next : cursor = wordAddr pc)
  | middle (mid : d.mid = true) (idle : d.instDone = false)
      (half : d.emi = (code.parcel pc).setWidth 64) (long : compressed d.emi = false)
      (odd : pc.toNat % 4 = 2) (next : cursor = pc + 2)

/-- How far the words read so far reach beyond `pc - 4`. -/
def seen (d : Decoder) (pc : Addr) : Nat := if d.mid then 6 else 4 - pc.toNat % 4

/-- What decoder `d` becomes with the word at `cursor`: it holds the instruction at `pc`
and then stands before the next one, or it holds only the first half. -/
inductive Offered (code : Code) (pc cursor : Addr) (d d' : Decoder) : Prop where
  | ready (done : d'.instDone = true) (inst : d'.emi = code.inst pc) (mid : d'.mid = false)
      (next : (if d'.more then cursor + 4 else cursor)
        = wordAddr (pc + BitVec.ofNat 64 (code.size pc)))
      (fits : code.size pc ≤ d.seen pc)
      (reach : (if d'.more then 4 else 0) + d.seen pc
        = code.size pc + d'.seen (pc + BitVec.ofNat 64 (code.size pc)))
  | more (needs : d'.more = true) (next : InStep code d' pc (cursor + 4)) (before : d.mid = false)
      (after : d'.mid = true) (reach : 4 + d.seen pc = d'.seen pc) (start : cursor = wordAddr pc)

theorem wordAddr_add {pc : Addr} {n : Nat} :
    wordAddr (pc + BitVec.ofNat 64 n)
      = pc + BitVec.ofNat 64 n - BitVec.ofNat 64 ((pc.toNat + n) % 4) := by
  rw [wordAddr, toNat_add_mod pc n (by decide)]

theorem moreBytes_aligned (d : Decoder) {pc : PCState} (aligned : pc.pc.toNat % 4 = 0) :
    d.moreBytes pc (code.word pc.pc) =
      { d with
        emi := code.inst pc.pc
        more := code.size pc.pc == 4
        instDone := true } := by
  have test : pc.pc % 4#64 = 0#64 := (umod_eq_iff pc.pc (m := 4) (by decide) (by decide)).mpr aligned
  have kind : compressed ((code.word pc.pc).setWidth 64)
      = compressed ((code.parcel pc.pc).setWidth 64) := by
    rw [setWidth_word, compressed_or_shiftLeft]
  by_cases short : compressed ((code.parcel pc.pc).setWidth 64) = true
  · simp [moreBytes, test, kind, short, Code.inst, Code.size, lowerHalf_word]
  · grind [moreBytes, Code.inst, Code.size, setWidth_word]

theorem moreBytes_fresh {d : Decoder} (mid : d.mid = false) {pc : PCState}
    (odd : pc.pc.toNat % 4 = 2) :
    d.moreBytes pc (code.word (wordAddr pc.pc)) =
      { emi := (code.parcel pc.pc).setWidth 64
        mid := code.size pc.pc == 4
        more := true
        instDone := code.size pc.pc == 2 } := by
  have test : ¬ pc.pc % 4#64 = 0#64 := by
    rw [umod_eq_iff pc.pc (m := 4) (by decide) (by decide)]
    omega
  have upper : wordAddr pc.pc + 2 = pc.pc := by simp [wordAddr, odd]
  have half : upperHalf (code.word (wordAddr pc.pc)) = (code.parcel pc.pc).setWidth 64 := by
    rw [upperHalf_word, upper]
  by_cases short : compressed ((code.parcel pc.pc).setWidth 64) = true
  · simp [moreBytes, test, mid, half, short, Code.size]
  · simp [moreBytes, test, mid, half, short, Code.size]

theorem moreBytes_middle {d : Decoder} {pc : PCState} (mid : d.mid = true)
    (half : d.emi = (code.parcel pc.pc).setWidth 64) (long : compressed d.emi = false)
    (odd : pc.pc.toNat % 4 = 2) :
    d.moreBytes pc (code.word (pc.pc + 2)) =
      { emi := code.inst pc.pc, mid := false, more := false, instDone := true } := by
  have test : ¬ pc.pc % 4#64 = 0#64 := by
    rw [umod_eq_iff pc.pc (m := 4) (by decide) (by decide)]
    omega
  rw [half] at long
  simp [moreBytes, test, mid, half, lowerHalf_word, Code.inst, long]

theorem InStep.offer {d : Decoder} {pc : PCState} {cursor : Addr}
    (step : InStep code d pc.pc cursor) (even : pc.pc.toNat % 2 = 0) :
    Offered code pc.pc cursor d (d.moreBytes pc (code.word cursor)) := by
  have long_size (long : compressed ((code.parcel pc.pc).setWidth 64) = false) :
      code.size pc.pc = 4 := by
    simp [Code.size, long]
  cases step with
  | fresh mid idle next =>
    subst next
    by_cases aligned : pc.pc.toNat % 4 = 0
    · have start : wordAddr pc.pc = pc.pc := by
        rw [wordAddr, aligned]
        exact BitVec.sub_zero _
      rw [start, moreBytes_aligned d aligned]
      rcases code.size_cases pc.pc with size | size
      · have half : (pc.pc.toNat + 2) % 4 = 2 := by omega
        refine .ready rfl rfl mid ?_ ?_ ?_
        · rw [wordAddr_add]
          simp [size, half]
        · simp [seen, mid, aligned, size]
        · simp [seen, mid, aligned, size, half]
      · have whole : (pc.pc.toNat + 4) % 4 = 0 := by omega
        refine .ready rfl rfl mid ?_ ?_ ?_
        · rw [wordAddr_add]
          simp [size, whole]
        · simp [seen, mid, aligned, size]
        · simp [seen, size]
    · have odd : pc.pc.toNat % 4 = 2 := by omega
      rw [moreBytes_fresh mid odd]
      have passed : wordAddr pc.pc + 4 = pc.pc + 2 := by
        rw [wordAddr, odd]
        bv_omega
      rcases code.size_cases pc.pc with size | size
      · have whole : (pc.pc.toNat + 2) % 4 = 0 := by omega
        have short : compressed ((code.parcel pc.pc).setWidth 64) = true := by grind
        refine .ready (by simp [size]) (by simp [Code.inst, short]) (by simp [size]) ?_ ?_ ?_
        · grind [wordAddr_add]
        · simp [seen, mid, odd, size]
        · simp [seen, mid, odd, size, whole]
      · have long : compressed ((code.parcel pc.pc).setWidth 64) = false := by
          by_contra other
          simp [Code.size, other] at size
        refine .more rfl (.middle (by simp [size]) (by simp [size]) rfl long odd passed) mid
          (by simp [size]) ?_ rfl
        simp [seen, mid, odd, size]
  | middle mid idle half long odd next =>
    subst next
    have size := long_size (half ▸ long)
    have same : (pc.pc.toNat + 4) % 4 = 2 := by omega
    rw [moreBytes_middle mid half long odd]
    refine .ready rfl rfl rfl ?_ ?_ ?_
    · rw [wordAddr_add, size]
      simp only [Bool.false_eq_true, if_false]
      bv_omega
    · simp [seen, mid, size]
    · simp [seen, mid, size, same]

end Decoder

end Gem5.FlexCPU
