import Gem5.Riscv.Faults

/-!
# What an instruction sees of its thread

The registers, the program counter and the memory that the `execute` methods
of integer, load, store and branch instructions read and write, and the
bit fields of a machine instruction.
-/

namespace Gem5.Riscv

open Function

/-- The integer registers. Register 0 is cleared before every instruction, so
that a value written to it is never read. -/
structure IntRegs where
  val : BitVec 5 → RegVal
  zero : val 0 = 0

namespace IntRegs

def write (regs : IntRegs) (r : BitVec 5) (v : RegVal) : IntRegs where
  val := Function.update (Function.update regs.val r v) 0 0
  zero := update_self _ _ _

theorem ext {regs regs' : IntRegs} (same : regs.val = regs'.val) : regs = regs' := by
  cases regs
  congr

theorem write_zero (regs : IntRegs) (v : RegVal) : regs.write 0 v = regs := by
  apply ext
  funext r
  by_cases hr : r = 0
  · subst hr
    exact regs.zero.symm
  · simp only [write, update_of_ne hr]

end IntRegs

/-- Memory behind address translation: an access faults, or reaches its bytes. -/
structure Memory where
  byte : Addr → BitVec 8
  accessFault : Addr → Nat → Bool → Option RiscvFault

namespace Memory

def loadBytes (m : Memory) (a : Addr) : Nat → RegVal
  | 0 => 0
  | n + 1 => ((m.loadBytes (a + 1) n) <<< 8) ||| (m.byte a).setWidth 64

def storeBytes (m : Memory) (a : Addr) (v : RegVal) : Nat → Memory
  | 0 => m
  | n + 1 =>
    ({ m with byte := Function.update m.byte a (v.setWidth 8) }).storeBytes (a + 1) (v >>> 8) n

def read (m : Memory) (a : Addr) (bytes : Nat) : Except RiscvFault RegVal :=
  match m.accessFault a bytes false with
  | some fault => .error fault
  | none => .ok (m.loadBytes a bytes)

def write (m : Memory) (a : Addr) (bytes : Nat) (v : RegVal) : Except RiscvFault Memory :=
  match m.accessFault a bytes true with
  | some fault => .error fault
  | none => .ok (m.storeBytes a v bytes)

end Memory

structure ExecContext where
  intReg : IntRegs
  floatReg : BitVec 5 → RegVal
  pc : Addr
  npc : Addr
  mem : Memory

/-- The `execute` method of an instruction. -/
abbrev Execute := ExecContext → Except RiscvFault ExecContext

abbrev ExtMachInst := BitVec 64

def illegal (machInst : ExtMachInst) : RiscvFault :=
  { isInterrupt := false, code := instIllegal, trapValue := machInst, code_lt := instIllegal_lt }

namespace ExecContext

variable (xc : ExecContext)

def reg (r : BitVec 5) : RegVal := xc.intReg.val r

def setReg (r : BitVec 5) (v : RegVal) : ExecContext :=
  { xc with intReg := xc.intReg.write r v }

def setFloat (r : BitVec 5) (v : RegVal) : ExecContext :=
  { xc with floatReg := Function.update xc.floatReg r v }

def setNPC (v : Addr) : ExecContext := { xc with npc := v }

theorem reg_zero : xc.reg 0 = 0#64 := xc.intReg.zero

theorem setReg_zero (v : RegVal) : xc.setReg 0 v = xc := by
  rw [setReg, IntRegs.write_zero]

end ExecContext

section Types

/-- The low half of a register as a 32-bit value. -/
def int32 (v : RegVal) : BitVec 32 := v.setWidth 32

/-- A signed value assigned to a register. -/
def int64 {w : Nat} (v : BitVec w) : RegVal := v.signExtend 64

/-- Sign extension of the `n` low bits of a value. -/
def sext (n : Nat) (v : RegVal) : RegVal :=
  if bits v (n - 1) (n - 1) ≠ 0 then v ||| ~~~mask 64 n else v

end Types

section Fields

variable (machInst : ExtMachInst)

/-- Bits `first` down to `last` of the instruction as a register number. -/
def regIndex (first last : Nat) : BitVec 5 := (bits machInst first last).setWidth 5

def QUADRANT := bits machInst 1 0
def OPCODE := bits machInst 6 2
def RD := regIndex machInst 11 7
def FUNCT3 := bits machInst 14 12
def RS1 := regIndex machInst 19 15
def RS2 := regIndex machInst 24 20
def FUNCT7 := bits machInst 31 25
def SRTYPE := bits machInst 30 30
def SHAMT5 := bits machInst 24 20
def SHAMT6 := bits machInst 25 20
def IMM12 := bits machInst 31 20
def IMM5 := bits machInst 11 7
def IMM7 := bits machInst 31 25
def IMM20 := bits machInst 31 12
def BIMM12BIT11 := bits machInst 7 7
def BIMM12BITS4TO1 := bits machInst 11 8
def BIMM12BITS10TO5 := bits machInst 30 25
def IMMSIGN := bits machInst 31 31
def UJIMMBITS10TO1 := bits machInst 30 21
def UJIMMBIT11 := bits machInst 20 20
def UJIMMBITS19TO12 := bits machInst 19 12

def COPCODE := bits machInst 15 13
def CFUNCT1 := bits machInst 12 12
def CFUNCT2HIGH := bits machInst 11 10
def CFUNCT2LOW := bits machInst 6 5
def RC1 := regIndex machInst 11 7
def RC2 := regIndex machInst 6 2
def RP1 := (bits machInst 9 7 + 8).setWidth 5
def RP2 := (bits machInst 4 2 + 8).setWidth 5
def CJUMPIMM3TO1 := bits machInst 5 3
def CJUMPIMM4TO4 := bits machInst 11 11
def CJUMPIMM5TO5 := bits machInst 2 2
def CJUMPIMM6TO6 := bits machInst 7 7
def CJUMPIMM7TO7 := bits machInst 6 6
def CJUMPIMM9TO8 := bits machInst 10 9
def CJUMPIMM10TO10 := bits machInst 8 8
def CJUMPIMMSIGN := bits machInst 12 12
def CIMM8 := bits machInst 12 5
def CIMM6 := bits machInst 12 7
def CIMM5 := bits machInst 6 2
def CIMM3 := bits machInst 12 10
def CIMM2 := bits machInst 6 5
def CIMM1 := bits machInst 12 12

end Fields

section Formats

/-- Loads of all formats: the value read goes to a register. -/
def load (ea : ExecContext → Addr) (bytes : Nat) (memacc : RegVal → Execute) : Execute :=
  fun xc => do memacc (← xc.mem.read (ea xc) bytes) xc

def store (ea : ExecContext → Addr) (bytes : Nat) (val : ExecContext → RegVal) : Execute :=
  fun xc => do return { xc with mem := ← xc.mem.write (ea xc) bytes (val xc) }

/-- A condition on the encoding under which the code sets an `IllegalInstFault`. -/
def illegalIf (machInst : ExtMachInst) (cond : Prop) [Decidable cond] (e : Execute) : Execute :=
  fun xc => if cond then .error (illegal machInst) else e xc

/-- A result for one integer register. -/
def compute (r : BitVec 5) (val : ExecContext → RegVal) : Execute :=
  fun xc => .ok (xc.setReg r (val xc))

def toFloat (r : BitVec 5) (v : RegVal) : Execute :=
  fun xc => .ok (xc.setFloat r v)

def toInt (r : BitVec 5) (v : RegVal) : Execute :=
  fun xc => .ok (xc.setReg r v)

/-- A conditional branch to `PC + imm`. -/
def branch (cond : ExecContext → Bool) (imm : RegVal) : Execute :=
  fun xc => .ok (if cond xc then xc.setNPC (xc.pc + imm) else xc)

end Formats

end Gem5.Riscv
