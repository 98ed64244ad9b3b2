import Gem5.Riscv.Decoder

/-!
# Taken branches

`RiscvISA::PCState` adds a flag for instructions of 2 bytes, which `branching` reads. The decoder
knows the length too, but writes only `npc`: nothing in the program calls the setter of the flag,
so `branching` compares with the address 4 bytes on whatever the length is.
-/

namespace Gem5.RiscvISA

open FlexCPU (Addr Decoder StaticInst)

abbrev UPCState := FlexCPU.PCState

structure PCState extends FlexCPU.PCState where
  compressed : Bool
  rv32 : Bool
  deriving DecidableEq

namespace PCState

variable (s : PCState)

/-- `PCState(Addr val)` -/
def ofAddr (val : Addr) : PCState := ⟨FlexCPU.PCState.ofAddr val, false, false⟩

/-- A method of the base class leaves the flags. -/
def lift (f : UPCState → UPCState) : PCState := { s with toPCState := f s.toPCState }

def set (val : Addr) : PCState := s.lift fun _ => FlexCPU.PCState.ofAddr val

def setPc (val : Addr) : PCState := { s with pc := val }

def setNpc (val : Addr) : PCState := { s with npc := val }

def setRv32 (val : Bool) : PCState := { s with rv32 := val }

def advance : PCState := s.lift FlexCPU.PCState.advance

def branching : Bool :=
  if s.compressed then s.npc != s.pc + 2 || s.nupc != s.upc + 1
  else s.npc != s.pc + 4 || s.nupc != s.upc + 1

end PCState

def buildRetPC (curPC callPC : PCState) : PCState :=
  let retPC := callPC
  let retPC := retPC.advance
  retPC.setPc curPC.npc

/-- The length of the instruction that the decoder holds. -/
def instSize (d : Decoder) : Addr := if Decoder.compressed d.emi then 2 else 4

/-- What `Decoder::decode` does to its argument. -/
def decode (d : Decoder) (nextPC : PCState) : Option PCState :=
  if d.instDone then some (nextPC.setNpc (nextPC.pc + instSize d)) else none

def advancePC (inst : StaticInst) (pc : PCState) : PCState := pc.lift inst.advancePC

/-- The arguments of a call of `squash`. -/
structure SquashCall where
  corrTarget : PCState
  actuallyTaken : Bool

/-- What `onExecutionCompleted` tells the predictor of a branch that another one follows. -/
def notifyPredictor (inst : StaticInst) (calculatedPC predictedPC : PCState) : Option SquashCall :=
  let correctPC := advancePC inst calculatedPC
  if correctPC.pc = predictedPC.pc ∧ correctPC.upc = predictedPC.upc then none
  else some ⟨correctPC, calculatedPC.branching⟩

/-- The program counters that the threads, the decoder, the instructions and the predictor make
from each other. -/
inductive Held : PCState → Prop where
  | ofAddr (val : Addr) : Held (.ofAddr val)
  | set {s : PCState} (val : Addr) : Held s → Held (s.set val)
  | setRv32 {s : PCState} (val : Bool) : Held s → Held (s.setRv32 val)
  | setPc {s : PCState} (val : Addr) : Held s → Held (s.setPc val)
  | setNpc {s : PCState} (val : Addr) : Held s → Held (s.setNpc val)
  | decode {s s' : PCState} (d : Decoder) : Held s → decode d s = some s' → Held s'
  | advancePC {s : PCState} (inst : StaticInst) : Held s → Held (advancePC inst s)
  | buildRetPC {cur call : PCState} : Held cur → Held call → Held (buildRetPC cur call)

/-- `branching` and the predictor agree with the fall-through path of `size` bytes. -/
structure TakenRight (size : Addr) (s : PCState) : Prop where
  branching : s.branching = true ↔ s.npc ≠ s.pc + size
  told : ∀ inst predicted call, notifyPredictor inst s predicted = some call →
    (call.actuallyTaken = true ↔ s.npc ≠ s.pc + size)

variable {s : PCState} {d : Decoder}

/-- The part of a program counter that no operation changes. -/
structure Plain (s : PCState) : Prop where
  flag : s.compressed = false
  micro : s.nupc = s.upc + 1

theorem plain_advancePC (plain : Plain s) (inst : StaticInst) : Plain (advancePC inst s) := by
  refine ⟨plain.flag, ?_⟩
  rw [advancePC, PCState.lift, StaticInst.advancePC]
  split
  · split
    · rfl
    · rfl
  · exact plain.micro

theorem Held.plain (held : Held s) : Plain s := by
  induction held with
  | ofAddr => exact ⟨rfl, rfl⟩
  | set val _ ih => exact ⟨ih.flag, rfl⟩
  | setRv32 val _ ih => exact ⟨ih.flag, ih.micro⟩
  | setPc val _ ih => exact ⟨ih.flag, ih.micro⟩
  | setNpc val _ ih => exact ⟨ih.flag, ih.micro⟩
  | decode d _ decoded ih =>
    rw [RiscvISA.decode] at decoded
    split at decoded
    · cases decoded
      exact ⟨ih.flag, ih.micro⟩
    · cases decoded
  | advancePC inst _ ih => exact plain_advancePC ih inst
  | buildRetPC _ _ _ ih => exact ⟨ih.flag, ih.micro⟩

theorem Plain.branching_iff (plain : Plain s) : s.branching = true ↔ s.npc ≠ s.pc + 4 := by
  rw [PCState.branching, plain.flag, if_neg Bool.false_ne_true, plain.micro, bne_self_eq_false,
    Bool.or_false, bne_iff_ne]

theorem actuallyTaken_eq {inst : StaticInst} {predicted : PCState} {call : SquashCall}
    (told : notifyPredictor inst s predicted = some call) : call.actuallyTaken = s.branching := by
  rw [notifyPredictor] at told
  split at told
  · cases told
  · cases told
    rfl

theorem takenRight_iff {size : Addr} :
    TakenRight size s ↔ (s.branching = true ↔ s.npc ≠ s.pc + size) := by
  refine ⟨TakenRight.branching, fun right => ⟨right, fun inst predicted call told => ?_⟩⟩
  rw [actuallyTaken_eq told]
  exact right

/-- After an instruction was decoded and has set `npc`, `branching` is right just when the
instruction has 4 bytes or leads neither 2 nor 4 bytes on. -/
theorem taken_right_iff (held : Held s) (done : d.instDone = true) (target : Addr) :
    ∃ decoded, decode d s = some decoded
      ∧ (TakenRight (instSize d) (decoded.setNpc target)
        ↔ Decoder.compressed d.emi = false ∨ target ≠ s.pc + 2 ∧ target ≠ s.pc + 4) := by
  refine ⟨s.setNpc (s.pc + instSize d), if_pos done, ?_⟩
  have plain : Plain ((s.setNpc (s.pc + instSize d)).setNpc target) :=
    ((held.setNpc (s.pc + instSize d)).setNpc target).plain
  rw [takenRight_iff, plain.branching_iff]
  change (target ≠ s.pc + 4 ↔ target ≠ s.pc + instSize d) ↔ _
  cases short : Decoder.compressed d.emi with
  | false => simp [instSize, short]
  | true =>
    have apart : s.pc + 2 ≠ s.pc + 4 := by
      intro same
      exact absurd (BitVec.add_right_inj s.pc |>.mp same) (by decide)
    have size : instSize d = 2 := if_pos short
    rw [size]
    constructor
    · intro same
      refine Or.inr ⟨fun eq => ?_, fun eq => ?_⟩
      · exact same.mp (eq ▸ apart) eq
      · exact same.mpr (fun eq' => apart (eq'.symm.trans eq)) eq
    · rintro (long | ⟨ne, ne'⟩)
      · exact absurd long (by decide)
      · exact ⟨fun _ => ne, fun _ => ne'⟩

/-- `c.j 16` at 0x1000 is taken. -/
theorem taken_right_jump :
    ∃ decoded, decode { emi := 0xa801, instDone := true } (.ofAddr 0x1000) = some decoded
      ∧ TakenRight 2 (decoded.setNpc 0x1010) := by
  obtain ⟨decoded, eq, right⟩ := taken_right_iff
    (d := { emi := 0xa801, instDone := true }) (.ofAddr 0x1000) rfl 0x1010
  exact ⟨decoded, eq, right.mpr (Or.inr (by decide))⟩

/-- `c.beqz` at 0x1000 is not taken, and `branching` says that it is; one that leads 4 bytes on
is taken, and `branching` says that it is not. -/
theorem short_branch_wrong :
    ∃ decoded, decode { emi := 0xc011, instDone := true } (.ofAddr 0x1000) = some decoded
      ∧ ¬TakenRight 2 decoded ∧ ¬TakenRight 2 (decoded.setNpc 0x1004) := by
  refine ⟨(PCState.ofAddr 0x1000).setNpc 0x1002, rfl, fun right => ?_, fun right => ?_⟩
  · exact absurd (right.branching.mp rfl) (by decide)
  · exact absurd (right.branching.mpr (by decide)) (by decide)

end Gem5.RiscvISA
