import Gem5.Lib.Bits
import Mathlib.Logic.Function.Basic

/-!
# Miscellaneous registers and the CSR address space

The register file of `ISA`, the two bit sets of the interrupt controller that
shadow `MISCREG_IP` and `MISCREG_IE`, and the tables that map CSR numbers to
registers and masks.
-/

namespace Gem5.Riscv

abbrev RegVal := BitVec 64

abbrev Addr := BitVec 64

/-- The three enumerators span two bits; the value `2` is reserved. -/
abbrev PrivilegeMode := BitVec 2

@[match_pattern] abbrev prvU : PrivilegeMode := 0#2
@[match_pattern] abbrev prvS : PrivilegeMode := 1#2
@[match_pattern] abbrev prvM : PrivilegeMode := 3#2

inductive MiscReg
  | prv | isa | vendorid | archid | impid | hartid | status | ip | ie
  | cycle | time | instret
  | hpmcounter (i : Fin 29)
  | hpmevent (i : Fin 29)
  | tselect | tdata1 | tdata2 | tdata3 | dcsr | dpc | dscratch
  | medeleg | mideleg | mtvec | mcounteren | mscratch | mepc | mcause | mtval
  | pmpcfg0 | pmpcfg2
  | pmpaddr (i : Fin 16)
  | sedeleg | sideleg | stvec | scounteren | sscratch | sepc | scause | stval | satp
  | utvec | uscratch | uepc | ucause | utval | fflags | frm
  deriving DecidableEq, Repr

/-- The position of the counters in the enumeration of registers. -/
def MiscReg.counterIndex : MiscReg → Option Nat
  | .cycle => some 9
  | .time => some 10
  | .instret => some 11
  | .hpmcounter i => some (12 + i)
  | _ => none

namespace CSR

def fcsr : Nat := 0x003
def mie : Nat := 0x304
def mip : Nat := 0x344

end CSR

/-- `base`, `base + 1`, … with the registers `reg 0`, `reg 1`, … -/
def csrFamily (base : Nat) {n : Nat} (reg : Fin n → MiscReg) : List (Nat × MiscReg) :=
  (List.finRange n).map fun i : Fin n => (base + i.val, reg i)

/-- The physical register of each CSR number; the first entry of a number counts. -/
def CSRData : List (Nat × MiscReg) :=
  [(0x000, .status), (0x004, .ie), (0x005, .utvec),
   (0x040, .uscratch), (0x041, .uepc), (0x042, .ucause),
   (0x043, .utval), (0x044, .ip), (0x001, .fflags),
   (0x002, .frm), (0x003, .fflags), (0xC00, .cycle),
   (0xC01, .time), (0xC02, .instret)] ++
  csrFamily 0xC03 .hpmcounter ++
  [(0x100, .status), (0x102, .sedeleg),
   (0x103, .sideleg), (0x104, .ie), (0x105, .stvec),
   (0x140, .sscratch), (0x141, .sepc), (0x142, .scause),
   (0x143, .stval), (0x144, .ip), (0x180, .satp),
   (0xF11, .vendorid), (0xF12, .archid),
   (0xF13, .impid), (0xF14, .hartid), (0x300, .status),
   (0x301, .isa), (0x302, .medeleg), (0x303, .mideleg),
   (0x304, .ie), (0x305, .mtvec), (0x340, .mscratch),
   (0x341, .mepc), (0x342, .mcause), (0x343, .mtval),
   (0x344, .ip), (0x3A0, .pmpcfg0), (0x3A2, .pmpcfg2)] ++
  csrFamily 0x3B0 .pmpaddr ++
  [(0xB00, .cycle), (0xB02, .instret)] ++
  csrFamily 0xC03 .hpmcounter ++
  csrFamily 0x323 .hpmevent ++
  [(0x7A0, .tselect), (0x7A1, .tdata1), (0x7A2, .tdata2),
   (0x7A3, .tdata3), (0x7B0, .dcsr), (0x7B1, .dpc),
   (0x7B2, .dscratch)]

namespace STATUS

def mpp : Bitfield 64 := { first := 12, last := 11 }
def spp : Bitfield 64 := { first := 8, last := 8 }
def mpie : Bitfield 64 := { first := 7, last := 7 }
def spie : Bitfield 64 := { first := 5, last := 5 }
def upie : Bitfield 64 := { first := 4, last := 4 }
def mie : Bitfield 64 := { first := 3, last := 3 }
def sie : Bitfield 64 := { first := 1, last := 1 }
def uie : Bitfield 64 := { first := 0, last := 0 }

end STATUS

namespace INTERRUPT

def mei : Bitfield 64 := { first := 11, last := 11 }
def sei : Bitfield 64 := { first := 9, last := 9 }
def uei : Bitfield 64 := { first := 8, last := 8 }
def mti : Bitfield 64 := { first := 7, last := 7 }
def sti : Bitfield 64 := { first := 5, last := 5 }
def uti : Bitfield 64 := { first := 4, last := 4 }
def msi : Bitfield 64 := { first := 3, last := 3 }
def ssi : Bitfield 64 := { first := 1, last := 1 }
def usi : Bitfield 64 := { first := 0, last := 0 }

end INTERRUPT

section Masks

def ISA_MXL_MASK : RegVal := 3#64 <<< 62
def ISA_EXT_MASK : RegVal := mask 64 26
def MISA_MASK : RegVal := ISA_MXL_MASK ||| ISA_EXT_MASK

def STATUS_SD_MASK : RegVal := 1#64 <<< 63
def STATUS_SXL_MASK : RegVal := 3#64 <<< 34
def STATUS_UXL_MASK : RegVal := 3#64 <<< 32
def STATUS_TSR_MASK : RegVal := 1#64 <<< 22
def STATUS_TW_MASK : RegVal := 1#64 <<< 21
def STATUS_TVM_MASK : RegVal := 1#64 <<< 20
def STATUS_MXR_MASK : RegVal := 1#64 <<< 19
def STATUS_SUM_MASK : RegVal := 1#64 <<< 18
def STATUS_MPRV_MASK : RegVal := 1#64 <<< 17
def STATUS_XS_MASK : RegVal := 3#64 <<< 15
def STATUS_FS_MASK : RegVal := 3#64 <<< 13
def STATUS_MPP_MASK : RegVal := 3#64 <<< 11
def STATUS_SPP_MASK : RegVal := 1#64 <<< 8
def STATUS_MPIE_MASK : RegVal := 1#64 <<< 7
def STATUS_SPIE_MASK : RegVal := 1#64 <<< 5
def STATUS_UPIE_MASK : RegVal := 1#64 <<< 4
def STATUS_MIE_MASK : RegVal := 1#64 <<< 3
def STATUS_SIE_MASK : RegVal := 1#64 <<< 1
def STATUS_UIE_MASK : RegVal := 1#64 <<< 0

def MSTATUS_MASK : RegVal :=
  STATUS_SD_MASK ||| STATUS_SXL_MASK ||| STATUS_UXL_MASK ||| STATUS_TSR_MASK |||
  STATUS_TW_MASK ||| STATUS_TVM_MASK ||| STATUS_MXR_MASK ||| STATUS_SUM_MASK |||
  STATUS_MPRV_MASK ||| STATUS_XS_MASK ||| STATUS_FS_MASK ||| STATUS_MPP_MASK |||
  STATUS_SPP_MASK ||| STATUS_MPIE_MASK ||| STATUS_SPIE_MASK ||| STATUS_UPIE_MASK |||
  STATUS_MIE_MASK ||| STATUS_SIE_MASK ||| STATUS_UIE_MASK

def SSTATUS_MASK : RegVal :=
  STATUS_SD_MASK ||| STATUS_UXL_MASK ||| STATUS_MXR_MASK ||| STATUS_SUM_MASK |||
  STATUS_XS_MASK ||| STATUS_FS_MASK ||| STATUS_SPP_MASK ||| STATUS_SPIE_MASK |||
  STATUS_UPIE_MASK ||| STATUS_SIE_MASK ||| STATUS_UIE_MASK

def USTATUS_MASK : RegVal :=
  STATUS_SD_MASK ||| STATUS_MXR_MASK ||| STATUS_SUM_MASK ||| STATUS_XS_MASK |||
  STATUS_FS_MASK ||| STATUS_UPIE_MASK ||| STATUS_UIE_MASK

def MEI_MASK : RegVal := 1#64 <<< 11
def SEI_MASK : RegVal := 1#64 <<< 9
def UEI_MASK : RegVal := 1#64 <<< 8
def MTI_MASK : RegVal := 1#64 <<< 7
def STI_MASK : RegVal := 1#64 <<< 5
def UTI_MASK : RegVal := 1#64 <<< 4
def MSI_MASK : RegVal := 1#64 <<< 3
def SSI_MASK : RegVal := 1#64 <<< 1
def USI_MASK : RegVal := 1#64 <<< 0

def MI_MASK : RegVal :=
  MEI_MASK ||| SEI_MASK ||| UEI_MASK ||| MTI_MASK ||| STI_MASK ||| UTI_MASK |||
  MSI_MASK ||| SSI_MASK ||| USI_MASK

def SI_MASK : RegVal :=
  SEI_MASK ||| UEI_MASK ||| STI_MASK ||| UTI_MASK ||| SSI_MASK ||| USI_MASK

def UI_MASK : RegVal := UEI_MASK ||| UTI_MASK ||| USI_MASK

def FRM_OFFSET : Nat := 5
def FFLAGS_MASK : RegVal := (1#64 <<< FRM_OFFSET) - 1
def FRM_MASK : RegVal := 0x7

end Masks

def CSRMasks : List (Nat × RegVal) :=
  [(0x000, USTATUS_MASK), (0x004, UI_MASK), (0x044, UI_MASK), (0x001, FFLAGS_MASK),
   (0x002, FRM_MASK), (0x003, FFLAGS_MASK ||| (FRM_MASK <<< FRM_OFFSET)),
   (0x100, SSTATUS_MASK), (0x104, SI_MASK), (0x144, SI_MASK), (0x300, MSTATUS_MASK),
   (0x301, MISA_MASK), (0x304, MI_MASK), (0x344, MI_MASK)]

/-- The state of the interrupt controller: one bit for each of the twelve interrupt types. -/
structure Interrupts where
  ip : BitVec 12
  ie : BitVec 12
  deriving DecidableEq, Repr

structure PCState where
  pc : Addr
  npc : Addr
  upc : BitVec 16
  nupc : BitVec 16
  deriving DecidableEq, Repr

def PCState.set (_ : PCState) (val : Addr) : PCState :=
  { pc := val, npc := val + 4, upc := 0, nupc := 1 }

def PCState.advance (s : PCState) : PCState :=
  { s with pc := s.npc, npc := s.npc + 4 }

/-- What a thread context gives access to: registers, program counter, the
interrupt controller, and the counters that the processor and the host keep. -/
structure Hart where
  miscRegFile : MiscReg → RegVal
  interrupts : Interrupts
  intReg : BitVec 5 → RegVal
  pcState : PCState
  contextId : RegVal
  curCycle : RegVal
  wallClock : RegVal
  totalInsts : RegVal

/-- The ways in which a register access ends the simulation. -/
inductive Panic
  | unknownPrivilege (prv : RegVal)
  | outOfRange (key : Nat)
  deriving DecidableEq, Repr

namespace Hart

/-- The register file that `ISA::clear` leaves behind. -/
def clear : MiscReg → RegVal
  | .prv => prvM.setWidth 64
  | .isa => (2#64 <<< 62) ||| 0x14112D
  | .status => (2#64 <<< 32) ||| (2#64 <<< 34) ||| (1#64 <<< 13)
  | .mcounteren => 0x7
  | .scounteren => 0x7
  | _ => 0

variable (h : Hart)

def hpmCounterEnabled (counter : Nat) : Except Panic Bool :=
  let enabled (counteren : RegVal) := (counteren &&& (1#64 <<< counter)) != 0
  match h.miscRegFile .prv with
  | 3#64 => .ok true
  | 1#64 => .ok (enabled (h.miscRegFile .mcounteren))
  | 0#64 => .ok (enabled (h.miscRegFile .scounteren))
  | prv => .error (.unknownPrivilege prv)

def counterValue : MiscReg → RegVal
  | .time => h.wallClock
  | .instret => h.totalInsts
  | _ => h.curCycle

def readMiscReg (r : MiscReg) : Except Panic RegVal :=
  match r, r.counterIndex with
  | _, some index => do
    if ← h.hpmCounterEnabled (index - 9) then return h.counterValue r else return 0
  | .hartid, _ => .ok h.contextId
  | .ip, _ => .ok (h.interrupts.ip.setWidth 64)
  | .ie, _ => .ok (h.interrupts.ie.setWidth 64)
  | _, _ => .ok (h.miscRegFile r)

def setMiscReg (r : MiscReg) (val : RegVal) : Except Panic Hart :=
  match r, r.counterIndex with
  -- the warning looks the register's index up as if it were a CSR number
  | _, some index => match CSRData.lookup index with
    | some _ => .ok h
    | none => .error (.outOfRange index)
  | .ip, _ => .ok { h with interrupts := { h.interrupts with ip := val.setWidth 12 } }
  | .ie, _ => .ok { h with interrupts := { h.interrupts with ie := val.setWidth 12 } }
  | _, _ => .ok { h with miscRegFile := Function.update h.miscRegFile r val }

end Hart

/-- A hart after reset whose machine handler is at `base`. -/
def resetHart (base : Addr) : Hart where
  miscRegFile := Function.update Hart.clear .mtvec base
  interrupts := { ip := 0, ie := 0 }
  intReg := fun _ => 0
  pcState := { pc := 0x1000, npc := 0x1004, upc := 0, nupc := 1 }
  contextId := 0
  curCycle := 0
  wallClock := 0
  totalInsts := 0

end Gem5.Riscv
