import Gem5.Riscv.ExecContext

/-!
# The integer base instructions

Loads, stores, computations, branches and jumps of the 32-bit encodings, and
the part of the decoder that selects them.
-/

namespace Gem5.Riscv.Inst

variable (machInst : ExtMachInst)

section Immediates

def iImm : RegVal := sext 12 (IMM12 machInst)

def sImm : RegVal := sext 12 (IMM5 machInst ||| (IMM7 machInst <<< 5))

def bImm : RegVal :=
  sext 13 ((BIMM12BITS4TO1 machInst <<< 1) ||| (BIMM12BITS10TO5 machInst <<< 5) |||
    (BIMM12BIT11 machInst <<< 11) ||| (IMMSIGN machInst <<< 12))

def uImm : RegVal := sext 20 (IMM20 machInst) <<< 12

def jImm : RegVal :=
  sext 21 ((UJIMMBITS10TO1 machInst <<< 1) ||| (UJIMMBIT11 machInst <<< 11) |||
    (UJIMMBITS19TO12 machInst <<< 12) ||| (IMMSIGN machInst <<< 20))

end Immediates

def IOp (f : RegVal → RegVal → RegVal) : Execute :=
  compute (RD machInst) fun xc => f (xc.reg (RS1 machInst)) (iImm machInst)

def ROp (f : RegVal → RegVal → RegVal) : Execute :=
  compute (RD machInst) fun xc => f (xc.reg (RS1 machInst)) (xc.reg (RS2 machInst))

def Load (bytes : Nat) (extend : RegVal → RegVal) : Execute :=
  load (fun xc => xc.reg (RS1 machInst) + iImm machInst) bytes
    fun mem => toInt (RD machInst) (extend mem)

def Store (bytes : Nat) : Execute :=
  store (fun xc => xc.reg (RS1 machInst) + sImm machInst) bytes fun xc => xc.reg (RS2 machInst)

def BOp (cond : RegVal → RegVal → Bool) : Execute :=
  branch (fun xc => cond (xc.reg (RS1 machInst)) (xc.reg (RS2 machInst))) (bImm machInst)

def lb := Load machInst 1 fun mem => (mem.setWidth 8).signExtend 64
def lh := Load machInst 2 fun mem => (mem.setWidth 16).signExtend 64
def lw := Load machInst 4 fun mem => int64 (int32 mem)
def ld := Load machInst 8 id
def lbu := Load machInst 1 id
def lhu := Load machInst 2 id
def lwu := Load machInst 4 id

def fld : Execute :=
  load (fun xc => xc.reg (RS1 machInst) + iImm machInst) 8 fun mem => toFloat (RD machInst) mem

def addi := IOp machInst fun a imm => a + imm
def slli := IOp machInst fun a _ => a <<< (SHAMT6 machInst).toNat
def slti := IOp machInst fun a imm => if a.slt imm then 1 else 0
def sltiu := IOp machInst fun a imm => if a < imm then 1 else 0
def xori := IOp machInst fun a imm => a ^^^ imm
def srli := IOp machInst fun a _ => a >>> (SHAMT6 machInst).toNat
def srai := IOp machInst fun a _ => a.sshiftRight (SHAMT6 machInst).toNat
def ori := IOp machInst fun a imm => a ||| imm
def andi := IOp machInst fun a imm => a &&& imm

def auipc : Execute := compute (RD machInst) fun xc => xc.pc + uImm machInst

/-- The immediate is an `int32_t`, and so is the sum. -/
def addiw := IOp machInst fun a imm => int64 (int32 a + int32 imm)
def slliw := IOp machInst fun a _ => int64 (int32 a <<< (SHAMT5 machInst).toNat)
def srliw := IOp machInst fun a _ => int64 (int32 a >>> (SHAMT5 machInst).toNat)
def sraiw := IOp machInst fun a _ => int64 ((int32 a).sshiftRight (SHAMT5 machInst).toNat)

def sb := Store machInst 1
def sh := Store machInst 2
def sw := Store machInst 4
def sd := Store machInst 8

def fsd : Execute :=
  store (fun xc => xc.reg (RS1 machInst) + sImm machInst) 8
    fun xc => xc.floatReg (RS2 machInst)

def add := ROp machInst fun a b => a + b
def sub := ROp machInst fun a b => a - b
def sll := ROp machInst fun a b => a <<< (bits b 5 0).toNat
def slt := ROp machInst fun a b => if a.slt b then 1 else 0
def sltu := ROp machInst fun a b => if a < b then 1 else 0
def xor := ROp machInst fun a b => a ^^^ b
def srl := ROp machInst fun a b => a >>> (bits b 5 0).toNat
def sra := ROp machInst fun a b => a.sshiftRight (bits b 5 0).toNat
def or := ROp machInst fun a b => a ||| b
def and := ROp machInst fun a b => a &&& b

def lui : Execute := compute (RD machInst) fun _ => uImm machInst

def addw := ROp machInst fun a b => int64 (int32 a + int32 b)
def subw := ROp machInst fun a b => int64 (int32 a - int32 b)
def sllw := ROp machInst fun a b => int64 (int32 a <<< (bits b 4 0).toNat)
def srlw := ROp machInst fun a b => int64 (int32 a >>> (bits b 4 0).toNat)
def sraw := ROp machInst fun a b => int64 ((int32 a).sshiftRight (bits b 4 0).toNat)

def beq := BOp machInst fun a b => a == b
def bne := BOp machInst fun a b => a != b
def blt := BOp machInst fun a b => a.slt b
def bge := BOp machInst fun a b => !a.slt b
def bltu := BOp machInst fun a b => a < b
def bgeu := BOp machInst fun a b => !(a < b)

def jalr : Execute := fun xc =>
  .ok ((xc.setReg (RD machInst) xc.npc).setNPC
    ((iImm machInst + xc.reg (RS1 machInst)) &&& ~~~1))

def jal : Execute := fun xc =>
  .ok ((xc.setReg (RD machInst) xc.npc).setNPC (xc.pc + jImm machInst))

/-- `decode OPCODE` for the integer base; the other opcodes are not modelled. -/
def decodeBase : Option Execute :=
  match (OPCODE machInst).toNat, (FUNCT3 machInst).toNat with
  | 0x00, 0x0 => some (lb machInst)
  | 0x00, 0x1 => some (lh machInst)
  | 0x00, 0x2 => some (lw machInst)
  | 0x00, 0x3 => some (ld machInst)
  | 0x00, 0x4 => some (lbu machInst)
  | 0x00, 0x5 => some (lhu machInst)
  | 0x00, 0x6 => some (lwu machInst)
  | 0x01, 0x3 => some (fld machInst)
  | 0x04, 0x0 => some (addi machInst)
  | 0x04, 0x1 => some (slli machInst)
  | 0x04, 0x2 => some (slti machInst)
  | 0x04, 0x3 => some (sltiu machInst)
  | 0x04, 0x4 => some (xori machInst)
  | 0x04, 0x5 => some (if SRTYPE machInst = 0 then srli machInst else srai machInst)
  | 0x04, 0x6 => some (ori machInst)
  | 0x04, 0x7 => some (andi machInst)
  | 0x05, _ => some (auipc machInst)
  | 0x06, 0x0 => some (addiw machInst)
  | 0x06, 0x1 => some (slliw machInst)
  | 0x06, 0x5 => some (if SRTYPE machInst = 0 then srliw machInst else sraiw machInst)
  | 0x08, 0x0 => some (sb machInst)
  | 0x08, 0x1 => some (sh machInst)
  | 0x08, 0x2 => some (sw machInst)
  | 0x08, 0x3 => some (sd machInst)
  | 0x09, 0x3 => some (fsd machInst)
  | 0x0c, funct3 =>
    match funct3, (FUNCT7 machInst).toNat with
    | 0x0, 0x00 => some (add machInst)
    | 0x0, 0x20 => some (sub machInst)
    | 0x1, 0x00 => some (sll machInst)
    | 0x2, 0x00 => some (slt machInst)
    | 0x3, 0x00 => some (sltu machInst)
    | 0x4, 0x00 => some (xor machInst)
    | 0x5, 0x00 => some (srl machInst)
    | 0x5, 0x20 => some (sra machInst)
    | 0x6, 0x00 => some (or machInst)
    | 0x7, 0x00 => some (and machInst)
    | _, _ => none
  | 0x0d, _ => some (lui machInst)
  | 0x0e, 0x0 =>
    match (FUNCT7 machInst).toNat with
    | 0x00 => some (addw machInst)
    | 0x20 => some (subw machInst)
    | _ => none
  | 0x0e, 0x1 => some (sllw machInst)
  | 0x0e, 0x5 =>
    match (FUNCT7 machInst).toNat with
    | 0x00 => some (srlw machInst)
    | 0x20 => some (sraw machInst)
    | _ => none
  | 0x18, 0x0 => some (beq machInst)
  | 0x18, 0x1 => some (bne machInst)
  | 0x18, 0x4 => some (blt machInst)
  | 0x18, 0x5 => some (bge machInst)
  | 0x18, 0x6 => some (bltu machInst)
  | 0x18, 0x7 => some (bgeu machInst)
  | 0x19, 0x0 => some (jalr machInst)
  | 0x1b, _ => some (jal machInst)
  | _, _ => none

end Gem5.Riscv.Inst
