import Gem5.Riscv.BaseInsts

/-!
# The compressed instructions

The bodies of the 16-bit encodings with their scrambled immediates, and the
quadrants of the decoder that select them.
-/

namespace Gem5.Riscv.Inst

variable (machInst : ExtMachInst)

def ra : BitVec 5 := 1
def sp : BitVec 5 := 2

section Immediates

/-- `imm |= ~mask` where the sign bit of the encoding is set. -/
def orSign (sign : RegVal) (low : Nat) (imm : RegVal) : RegVal :=
  if sign ≠ 0 then imm ||| ~~~mask 64 low else imm

def addi4spnImm : RegVal :=
  (bits (CIMM8 machInst) 1 1 <<< 2) ||| (bits (CIMM8 machInst) 0 0 <<< 3) |||
    (bits (CIMM8 machInst) 7 6 <<< 4) ||| (bits (CIMM8 machInst) 5 2 <<< 6)

def wordOffset : RegVal :=
  (bits (CIMM2 machInst) 1 1 <<< 2) ||| (CIMM3 machInst <<< 3) |||
    (bits (CIMM2 machInst) 0 0 <<< 6)

def doubleOffset : RegVal := (CIMM3 machInst <<< 3) ||| (CIMM2 machInst <<< 6)

def ciImm : RegVal := orSign (CIMM1 machInst) 5 (CIMM5 machInst)

def addi16spImm : RegVal :=
  orSign (CIMM1 machInst) 9
    ((bits (CIMM5 machInst) 4 4 <<< 4) ||| (bits (CIMM5 machInst) 0 0 <<< 5) |||
      (bits (CIMM5 machInst) 3 3 <<< 6) ||| (bits (CIMM5 machInst) 2 1 <<< 7))

def cluiImm : RegVal := orSign (CIMM1 machInst) 17 (CIMM5 machInst <<< 12)

def shiftImm : RegVal := CIMM5 machInst ||| (CIMM1 machInst <<< 5)

def cjImm : RegVal :=
  orSign (CJUMPIMMSIGN machInst) 11
    ((CJUMPIMM3TO1 machInst <<< 1) ||| (CJUMPIMM4TO4 machInst <<< 4) |||
      (CJUMPIMM5TO5 machInst <<< 5) ||| (CJUMPIMM6TO6 machInst <<< 6) |||
      (CJUMPIMM7TO7 machInst <<< 7) ||| (CJUMPIMM9TO8 machInst <<< 8) |||
      (CJUMPIMM10TO10 machInst <<< 10))

def cbImm : RegVal :=
  orSign (bits (CIMM3 machInst) 2 2) 8
    ((bits (CIMM5 machInst) 2 1 <<< 1) ||| (bits (CIMM3 machInst) 1 0 <<< 3) |||
      (bits (CIMM5 machInst) 0 0 <<< 5) ||| (bits (CIMM5 machInst) 4 3 <<< 6))

def wordSpOffset : RegVal :=
  (bits (CIMM5 machInst) 4 2 <<< 2) ||| (CIMM1 machInst <<< 5) |||
    (bits (CIMM5 machInst) 1 0 <<< 6)

def doubleSpOffset : RegVal :=
  (bits (CIMM5 machInst) 4 3 <<< 3) ||| (CIMM1 machInst <<< 5) |||
    (bits (CIMM5 machInst) 2 0 <<< 6)

def wordSpStoreOffset : RegVal :=
  (bits (CIMM6 machInst) 5 2 <<< 2) ||| (bits (CIMM6 machInst) 1 0 <<< 6)

def doubleSpStoreOffset : RegVal :=
  (bits (CIMM6 machInst) 5 3 <<< 3) ||| (bits (CIMM6 machInst) 2 0 <<< 6)

end Immediates

section Quadrant0

def c_addi4spn : Execute :=
  illegalIf machInst (machInst = 0) <|
    compute (RP2 machInst) fun xc => xc.reg sp + addi4spnImm machInst

def c_fld : Execute :=
  load (fun xc => xc.reg (RP1 machInst) + doubleOffset machInst) 8 fun mem =>
    toFloat (RP2 machInst) mem

def c_lw : Execute :=
  load (fun xc => xc.reg (RP1 machInst) + wordOffset machInst) 4 fun mem =>
    toInt (RP2 machInst) (int64 (int32 mem))

def c_ld : Execute :=
  load (fun xc => xc.reg (RP1 machInst) + doubleOffset machInst) 8 fun mem =>
    toInt (RP2 machInst) mem

def c_fsd : Execute :=
  store (fun xc => xc.reg (RP1 machInst) + doubleOffset machInst) 8
    fun xc => xc.floatReg (RP2 machInst)

def c_sw : Execute :=
  store (fun xc => xc.reg (RP1 machInst) + wordOffset machInst) 4
    fun xc => xc.reg (RP2 machInst)

def c_sd : Execute :=
  store (fun xc => xc.reg (RP1 machInst) + doubleOffset machInst) 8
    fun xc => xc.reg (RP2 machInst)

end Quadrant0

section Quadrant1

def c_addi : Execute :=
  illegalIf machInst (¬ (RC1 machInst = 0 ↔ ciImm machInst = 0)) <|
    compute (RC1 machInst) fun xc => xc.reg (RC1 machInst) + ciImm machInst

/-- The immediate is an `int64_t`, and so is the sum. -/
def c_addiw : Execute :=
  illegalIf machInst (RC1 machInst = 0) <|
    compute (RC1 machInst) fun xc => int64 (int32 (xc.reg (RC1 machInst))) + ciImm machInst

def c_li : Execute :=
  illegalIf machInst (RC1 machInst = 0) <|
    compute (RC1 machInst) fun _ => ciImm machInst

def c_addi16sp : Execute :=
  illegalIf machInst (addi16spImm machInst = 0) <|
    compute sp fun xc => xc.reg sp + addi16spImm machInst

def c_lui : Execute :=
  illegalIf machInst (RC1 machInst = 0 ∨ RC1 machInst = 2 ∨ cluiImm machInst = 0) <|
    compute (RC1 machInst) fun _ => cluiImm machInst

def c_srli : Execute :=
  illegalIf machInst (shiftImm machInst = 0) <|
    compute (RP1 machInst) fun xc => xc.reg (RP1 machInst) >>> (shiftImm machInst).toNat

def c_srai : Execute :=
  illegalIf machInst (shiftImm machInst = 0) <|
    compute (RP1 machInst) fun xc => (xc.reg (RP1 machInst)).sshiftRight (shiftImm machInst).toNat

def c_andi : Execute :=
  compute (RP1 machInst) fun xc => xc.reg (RP1 machInst) &&& ciImm machInst

/-- The register-register operations on the popular registers. -/
def compressedOp (f : RegVal → RegVal → RegVal) : Execute :=
  compute (RP1 machInst) fun xc => f (xc.reg (RP1 machInst)) (xc.reg (RP2 machInst))

def c_sub := compressedOp machInst fun a b => a - b
def c_xor := compressedOp machInst fun a b => a ^^^ b
def c_or := compressedOp machInst fun a b => a ||| b
def c_and := compressedOp machInst fun a b => a &&& b
def c_subw := compressedOp machInst fun a b => int64 (int32 a - int32 b)
def c_addw := compressedOp machInst fun a b => int64 (int32 a + int32 b)

def c_j : Execute := fun xc => .ok (xc.setNPC (xc.pc + cjImm machInst))

def c_beqz : Execute := branch (fun xc => xc.reg (RP1 machInst) == 0) (cbImm machInst)

def c_bnez : Execute := branch (fun xc => xc.reg (RP1 machInst) != 0) (cbImm machInst)

end Quadrant1

section Quadrant2

def c_slli : Execute :=
  illegalIf machInst (shiftImm machInst = 0 ∨ RC1 machInst = 0) <|
    compute (RC1 machInst) fun xc => xc.reg (RC1 machInst) <<< (shiftImm machInst).toNat

def c_fldsp : Execute :=
  load (fun xc => xc.reg sp + doubleSpOffset machInst) 8 fun mem => toFloat (RC1 machInst) mem

def c_lwsp : Execute :=
  illegalIf machInst (RC1 machInst = 0) <|
    load (fun xc => xc.reg sp + wordSpOffset machInst) 4 fun mem =>
      toInt (RC1 machInst) (int64 (int32 mem))

def c_ldsp : Execute :=
  illegalIf machInst (RC1 machInst = 0) <|
    load (fun xc => xc.reg sp + doubleSpOffset machInst) 8 fun mem => toInt (RC1 machInst) mem

def c_jr : Execute :=
  illegalIf machInst (RC1 machInst = 0) fun xc => .ok (xc.setNPC (xc.reg (RC1 machInst)))

def c_mv : Execute :=
  illegalIf machInst (RC1 machInst = 0) <|
    compute (RC1 machInst) fun xc => xc.reg (RC2 machInst)

def c_ebreak : Execute := fun xc =>
  .error { isInterrupt := false, code := 3, trapValue := xc.pc }

def c_jalr : Execute :=
  illegalIf machInst (RC1 machInst = 0) fun xc =>
    .ok ((xc.setReg ra xc.npc).setNPC (xc.reg (RC1 machInst)))

def c_add : Execute :=
  compute (RC1 machInst) fun xc => xc.reg (RC1 machInst) + xc.reg (RC2 machInst)

def c_fsdsp : Execute :=
  store (fun xc => xc.reg sp + doubleSpStoreOffset machInst) 8
    fun xc => xc.floatReg (RC2 machInst)

def c_swsp : Execute :=
  store (fun xc => xc.reg sp + wordSpStoreOffset machInst) 4 fun xc => xc.reg (RC2 machInst)

def c_sdsp : Execute :=
  store (fun xc => xc.reg sp + doubleSpStoreOffset machInst) 8 fun xc => xc.reg (RC2 machInst)

end Quadrant2

section Decode

def decodeQuadrant0 : Option Execute :=
  match (COPCODE machInst).toNat with
  | 0x0 => some (c_addi4spn machInst)
  | 0x1 => some (c_fld machInst)
  | 0x2 => some (c_lw machInst)
  | 0x3 => some (c_ld machInst)
  | 0x5 => some (c_fsd machInst)
  | 0x6 => some (c_sw machInst)
  | 0x7 => some (c_sd machInst)
  | _ => none

def decodeArith : Option Execute :=
  match (CFUNCT2HIGH machInst).toNat with
  | 0x0 => some (c_srli machInst)
  | 0x1 => some (c_srai machInst)
  | 0x2 => some (c_andi machInst)
  | _ =>
    match (CFUNCT1 machInst).toNat, (CFUNCT2LOW machInst).toNat with
    | 0x0, 0x0 => some (c_sub machInst)
    | 0x0, 0x1 => some (c_xor machInst)
    | 0x0, 0x2 => some (c_or machInst)
    | 0x0, 0x3 => some (c_and machInst)
    | 0x1, 0x0 => some (c_subw machInst)
    | 0x1, 0x1 => some (c_addw machInst)
    | _, _ => none

def decodeQuadrant1 : Option Execute :=
  match (COPCODE machInst).toNat with
  | 0x0 => some (c_addi machInst)
  | 0x1 => some (c_addiw machInst)
  | 0x2 => some (c_li machInst)
  | 0x3 => some (if RC1 machInst = 2 then c_addi16sp machInst else c_lui machInst)
  | 0x4 => decodeArith machInst
  | 0x5 => some (c_j machInst)
  | 0x6 => some (c_beqz machInst)
  | 0x7 => some (c_bnez machInst)
  | _ => none

def decodeQuadrant2 : Option Execute :=
  match (COPCODE machInst).toNat with
  | 0x0 => some (c_slli machInst)
  | 0x1 => some (c_fldsp machInst)
  | 0x2 => some (c_lwsp machInst)
  | 0x3 => some (c_ldsp machInst)
  | 0x4 =>
    if CFUNCT1 machInst = 0 then
      some (if RC2 machInst = 0 then c_jr machInst else c_mv machInst)
    else if RC1 machInst = 0 then some c_ebreak
    else some (if RC2 machInst = 0 then c_jalr machInst else c_add machInst)
  | 0x5 => some (c_fsdsp machInst)
  | 0x6 => some (c_swsp machInst)
  | 0x7 => some (c_sdsp machInst)
  | _ => none

/-- `decode QUADRANT`; `none` stands for the instructions that are not modelled. -/
def decodeInst : Option Execute :=
  match (QUADRANT machInst).toNat with
  | 0x0 => decodeQuadrant0 machInst
  | 0x1 => decodeQuadrant1 machInst
  | 0x2 => decodeQuadrant2 machInst
  | _ => decodeBase machInst

end Decode

end Gem5.Riscv.Inst
