import Mathlib.Data.BitVec

/-!
# Program counters, registers, static instructions and the RISC-V decoder

Everything the FlexCPU thread sees of the instruction set. A `StaticInst` keeps
the flags, register lists and virtual methods the thread calls; the generated
table `decodeInst` stays a parameter of the configuration. The decoder is the
streaming `RiscvISA::Decoder`, which builds an extended machine instruction from
one or two aligned 32-bit words.
-/

namespace Gem5.FlexCPU

abbrev Addr := BitVec 64
abbrev RegVal := BitVec 64
abbrev MachInst := BitVec 32
abbrev ExtMachInst := BitVec 64
abbrev MicroPC := BitVec 16

/-- A fault object; only its identity matters to the thread. -/
abbrev Fault := Nat

/-- `GenericISA::UPCState`. -/
structure PCState where
  pc : Addr
  npc : Addr
  upc : MicroPC
  nupc : MicroPC
  deriving DecidableEq, Inhabited

namespace PCState

/-- `PCState(Addr val)`. -/
def ofAddr (val : Addr) : PCState := ⟨val, val + 4, 0, 1⟩

def advance (s : PCState) : PCState := { s with pc := s.npc, npc := s.npc + 4 }

def uAdvance (s : PCState) : PCState := { s with upc := s.nupc, nupc := s.nupc + 1 }

def uEnd (s : PCState) : PCState := { s.advance with upc := 0, nupc := 1 }

end PCState

/-- `MicroPCRomBit & upc`. -/
def isRomMicroPC (upc : MicroPC) : Bool := upc.msb

/-- The scalar register classes; FlexCPU's vector accessors panic. -/
inductive RegClass where
  | int
  | float
  | cc
  | misc
  deriving DecidableEq

structure RegId where
  cls : RegClass
  idx : Nat
  deriving DecidableEq

/-- `RegId::isZeroReg` with RISC-V's `ZeroReg = 0`. -/
def RegId.isZeroReg (r : RegId) : Bool := r.cls == .int && r.idx == 0

inductive TCStatus where
  | active
  | suspended
  | halted
  deriving DecidableEq

/-- The committed architectural state (`_committedState`). -/
structure ThreadContext where
  status : TCStatus
  pcState : PCState
  regs : RegId → RegVal

def ThreadContext.setReg (tc : ThreadContext) (r : RegId) (v : RegVal) : ThreadContext :=
  { tc with regs := fun q => if q = r then v else tc.regs q }

/-- What a memory instruction passes to `initiateMemRead` or `writeMem`. -/
structure Access where
  addr : Addr
  size : Nat
  noAccess : Bool := false
  mmappedIpr : Bool := false

/-- The part of `StaticInst` the thread uses. The last two fields are what the
flag documentation and the RISC-V formats promise: a store is a memory reference,
and a control transfer neither accesses memory nor is a barrier. -/
structure StaticInst where
  isMemRef : Bool := false
  isStore : Bool := false
  isControl : Bool := false
  isDirectCtrl : Bool := false
  isUncondCtrl : Bool := false
  isCall : Bool := false
  isReturn : Bool := false
  isSerializingFlag : Bool := false
  isSerializeBefore : Bool := false
  isSerializeAfter : Bool := false
  isMemBarrier : Bool := false
  isNonSpeculative : Bool := false
  isMacroop : Bool := false
  isMicroop : Bool := false
  isLastMicroop : Bool := false
  srcRegs : List RegId := []
  destRegs : List RegId := []
  execute : List RegVal → PCState → ThreadContext → Except Fault (List RegVal × PCState) :=
    fun _ pc _ => .ok ([], pc)
  initiateAcc : List RegVal → PCState → ThreadContext → Except Fault Access :=
    fun _ _ _ => .error 0
  completeAcc : Nat → PCState → ThreadContext → Except Fault (List RegVal) :=
    fun _ _ _ => .ok []
  branchTarget : PCState → PCState := id
  store_memRef : isStore = true → isMemRef = true := by simp
  control_plain : isControl = true → isMemRef = false ∧ isMemBarrier = false := by simp

namespace StaticInst

/-- A null `StaticInstPtr` is never dereferenced; reads of one see a no-op. -/
def nop : StaticInst := {}

/-- A store, a memory barrier and a branch, for programs to be run. -/
def sampleStore : StaticInst :=
  { isMemRef := true, isStore := true, initiateAcc := fun _ _ _ => .ok ⟨0x2000, 8, false, false⟩ }

def sampleBarrier : StaticInst := { isMemBarrier := true }

def sampleBranch : StaticInst := { isControl := true }

def isSerializing (si : StaticInst) : Bool :=
  si.isSerializingFlag || si.isSerializeBefore || si.isSerializeAfter

/-- `RiscvStaticInst::advancePC` and `RiscvMicroInst::advancePC`. -/
def advancePC (si : StaticInst) (pc : PCState) : PCState :=
  if si.isMicroop then (if si.isLastMicroop then pc.uEnd else pc.uAdvance) else pc.advance

end StaticInst

/-- `RiscvISA::Decoder`; its member `aligned` is shadowed and never read. -/
structure Decoder where
  mid : Bool := false
  more : Bool := true
  emi : ExtMachInst := 0
  instDone : Bool := false
  deriving DecidableEq

namespace Decoder

def compressed (inst : ExtMachInst) : Bool := (inst &&& 3#64) < 3#64

def reset : Decoder := {}

def lowerHalf (inst : MachInst) : ExtMachInst := inst.zeroExtend 64 &&& 0xffff#64

def upperHalf (inst : MachInst) : ExtMachInst := inst.zeroExtend 64 >>> 16

def moreBytes (d : Decoder) (pc : PCState) (inst : MachInst) : Decoder :=
  if pc.pc % 4#64 = 0#64 then
    let emi := inst.zeroExtend 64
    { d with
      emi := if compressed emi then lowerHalf inst else emi
      more := !compressed emi
      instDone := true }
  else if d.mid then
    { emi := d.emi ||| (lowerHalf inst <<< 16), mid := false, more := false, instDone := true }
  else
    let emi := upperHalf inst
    { emi := emi, mid := !compressed emi, more := true, instDone := compressed emi }

/-- `decode(PCState&)`: `none` while bytes are missing, else the instruction and
the program counter with its fall-through successor. -/
def decode (d : Decoder) (decodeInst : ExtMachInst → StaticInst) (pc : PCState) :
    Decoder × Option (StaticInst × PCState) :=
  if d.instDone then
    let size : Addr := if compressed d.emi then 2 else 4
    ({ d with instDone := false }, some (decodeInst d.emi, { pc with npc := pc.pc + size }))
  else (d, none)

end Decoder

/-- `AddrRange(start, end)` without interleaving; both ends belong to the range. -/
structure AddrRange where
  first : Addr
  last : Addr
  deriving DecidableEq

namespace AddrRange

def valid (r : AddrRange) : Bool := r.first ≤ r.last

def intersects (r q : AddrRange) : Bool := !(r.first > q.last || r.last < q.first)

end AddrRange

end Gem5.FlexCPU
