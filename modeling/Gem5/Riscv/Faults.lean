import Gem5.Riscv.Registers

/-!
# Trap entry and return

`RiscvFault::invoke` of a full-system simulation, and the three instructions
that leave a handler.
-/

namespace Gem5.Riscv

/-- A fault with its `ExceptionCode`; the enumeration ends at `15`. -/
structure RiscvFault where
  isInterrupt : Bool
  code : BitVec 64
  trapValue : RegVal
  code_lt : code < 16 := by decide

def instIllegal : BitVec 64 := 2

theorem instIllegal_lt : instIllegal < 16 := by decide

def IllegalInstFault (inst : BitVec 32) : RiscvFault :=
  { isInterrupt := false, code := instIllegal, trapValue := inst.setWidth 64 }

def InterruptFault (c : Fin 12) : RiscvFault where
  isInterrupt := true
  code := BitVec.ofNat 64 c
  trapValue := 0
  code_lt := by decide +revert

/-- The registers of one handler level. -/
structure TrapRegs where
  cause : MiscReg
  epc : MiscReg
  tvec : MiscReg
  tval : MiscReg
  deriving DecidableEq, Repr

namespace RiscvFault

variable (f : RiscvFault)

/-- The two delegation registers that are tested for this fault. -/
def delegation : MiscReg × MiscReg :=
  if f.isInterrupt then (.mideleg, .sideleg) else (.medeleg, .sedeleg)

def handlerMode (h : Hart) (pp : PrivilegeMode) : Except Panic PrivilegeMode := do
  let mdeleg ← h.readMiscReg f.delegation.1
  let sdeleg ← h.readMiscReg f.delegation.2
  let prv := if pp ≠ prvM ∧ bits mdeleg f.code.toNat f.code.toNat ≠ 0 then prvS else prvM
  return if pp = prvU ∧ bits sdeleg f.code.toNat f.code.toNat ≠ 0 then prvU else prv

def enter (prv pp : PrivilegeMode) (status : RegVal) : Except Panic (TrapRegs × RegVal) :=
  match prv with
  | prvU =>
    let status := STATUS.upie.set status (STATUS.uie.get status)
    let status := STATUS.uie.set status 0
    .ok (⟨.ucause, .uepc, .utvec, .utval⟩, status)
  | prvS =>
    let status := STATUS.spp.set status (pp.setWidth 64)
    let status := STATUS.spie.set status (STATUS.sie.get status)
    let status := STATUS.sie.set status 0
    .ok (⟨.scause, .sepc, .stvec, .stval⟩, status)
  | prvM =>
    let status := STATUS.mpp.set status (pp.setWidth 64)
    let status := STATUS.mpie.set status (STATUS.sie.get status)
    let status := STATUS.mie.set status 0
    .ok (⟨.mcause, .mepc, .mtvec, .mtval⟩, status)
  | prv => .error (.unknownPrivilege (prv.setWidth 64))

/-- The promoted flag is an `int` that is shifted before it is widened. -/
def causeValue : RegVal :=
  ((BitVec.ofBool f.isInterrupt).setWidth 32 <<< 31).signExtend 64 ||| f.code

def invoke (h : Hart) : Except Panic Hart := do
  let pcState := h.pcState
  let pp := (← h.readMiscReg .prv).setWidth 2
  let status ← h.readMiscReg .status
  let prv ← f.handlerMode h pp
  let (regs, status) ← enter prv pp status
  let h ← h.setMiscReg regs.cause f.causeValue
  let h ← h.setMiscReg regs.epc h.pcState.pc
  let h ← h.setMiscReg regs.tval f.trapValue
  let h ← h.setMiscReg .prv (prv.setWidth 64)
  let h ← h.setMiscReg .status status
  let tvec ← h.readMiscReg regs.tvec
  let addr := tvec >>> 2
  let addr := if f.isInterrupt ∧ bits tvec 1 0 = 1 then addr + 4 * f.code else addr
  return { h with pcState := pcState.set addr }

end RiscvFault

/-- The outcome of an instruction: a fault that leaves the registers to the
trap handler, or the hart after the instruction. -/
abbrev Executed := Except Panic (Option RiscvFault × Hart)

namespace Hart

def setNPC (h : Hart) (addr : Addr) : Hart :=
  { h with pcState := { h.pcState with npc := addr } }

def advancePC (h : Hart) : Hart :=
  { h with pcState := h.pcState.advance }

end Hart

def uret (h : Hart) : Executed := do
  let status ← h.readMiscReg .status
  let status := STATUS.uie.set status (STATUS.upie.get status)
  let status := STATUS.upie.set status 1
  let h ← h.setMiscReg .status status
  return (none, h.setNPC (← h.readMiscReg .uepc))

def sret (machInst : BitVec 32) (h : Hart) : Executed := do
  if (← h.readMiscReg .prv) = prvU.setWidth 64 then
    return (some (IllegalInstFault machInst), h)
  let status ← h.readMiscReg .status
  let h ← h.setMiscReg .prv (STATUS.spp.get status)
  let status := STATUS.sie.set status (STATUS.spie.get status)
  let status := STATUS.spie.set status 1
  let status := STATUS.spp.set status (prvU.setWidth 64)
  let h ← h.setMiscReg .status status
  return (none, h.setNPC (← h.readMiscReg .sepc))

def mret (machInst : BitVec 32) (h : Hart) : Executed := do
  if (← h.readMiscReg .prv) ≠ prvM.setWidth 64 then
    return (some (IllegalInstFault machInst), h)
  let status ← h.readMiscReg .status
  let h ← h.setMiscReg .prv (STATUS.mpp.get status)
  let status := STATUS.mie.set status (STATUS.mpie.get status)
  let status := STATUS.mpie.set status 1
  let status := STATUS.mpp.set status (prvU.setWidth 64)
  let h ← h.setMiscReg .status status
  return (none, h.setNPC (← h.readMiscReg .mepc))

end Gem5.Riscv
