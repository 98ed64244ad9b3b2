import Gem5.Riscv.Faults

/-!
# CSR instructions

The `CSRExecute` template with the six instructions that use it, and when an
access stays inside the mask of its CSR.
-/

namespace Gem5.Riscv

open BitVec

inductive CSRKind
  | csrrw | csrrs | csrrc | csrrwi | csrrsi | csrrci
  deriving DecidableEq, Repr

structure CSROp where
  kind : CSRKind
  machInst : BitVec 32

def CSR.restrict (csr : Nat) (val : RegVal) : RegVal :=
  match CSRMasks.lookup csr with
  | some mask => val &&& mask
  | none => val

def CSR.readOnly (csr : Nat) : Prop := bits (BitVec.ofNat 64 csr) 11 10 = 0x3

instance (csr : Nat) : Decidable (CSR.readOnly csr) := inferInstanceAs (Decidable (_ = _))

/-- The value of a CSR before its mask; `none` where the number is unknown. -/
def Hart.readCSR (h : Hart) (csr : Nat) : Except Panic (Option RegVal) :=
  if csr = CSR.fcsr then do
    return some ((← h.readMiscReg .fflags) ||| ((← h.readMiscReg .frm) <<< FRM_OFFSET))
  else match CSRData.lookup csr with
    | some physIndex => do return some (← h.readMiscReg physIndex)
    | none => .ok none

namespace CSROp

variable (op : CSROp)

def csr : Nat := (bits op.machInst 31 20).toNat

def uimm : RegVal := (bits op.machInst 19 15).setWidth 64

def rd : BitVec 5 := (bits op.machInst 11 7).setWidth 5

def rs1 : BitVec 5 := (bits op.machInst 19 15).setWidth 5

def code (h : Hart) (data : RegVal) : RegVal :=
  match op.kind with
  | .csrrw => h.intReg op.rs1
  | .csrrs => data ||| h.intReg op.rs1
  | .csrrc => data &&& ~~~h.intReg op.rs1
  | .csrrwi => op.uimm
  | .csrrsi => data ||| op.uimm
  | .csrrci => data &&& ~~~op.uimm

def sameMBits (olddata data : RegVal) : Prop :=
  INTERRUPT.mei.get olddata = INTERRUPT.mei.get data ∧
  INTERRUPT.mti.get olddata = INTERRUPT.mti.get data ∧
  INTERRUPT.msi.get olddata = INTERRUPT.msi.get data

instance (olddata data : RegVal) : Decidable (sameMBits olddata data) :=
  inferInstanceAs (Decidable (_ ∧ _))

/-- The write of changed data to the register behind a CSR. -/
def writeCSR (physIndex : MiscReg) (olddata data : RegVal) (h : Hart) : Executed := do
  if op.csr = CSR.fcsr then
    let h ← h.setMiscReg .fflags (bits data 4 0)
    let h ← h.setMiscReg .frm (bits data 7 5)
    return (none, h)
  else if op.csr = CSR.mip ∨ op.csr = CSR.mie then
    if sameMBits olddata data then
      return (none, ← h.setMiscReg physIndex data)
    else
      return (some (IllegalInstFault op.machInst), h)
  else
    return (none, ← h.setMiscReg physIndex data)

def execute (h : Hart) : Executed := do
  match ← h.readCSR op.csr, CSRData.lookup op.csr with
  | some old, some physIndex =>
    let olddata := CSR.restrict op.csr old
    let data := CSR.restrict op.csr (op.code h olddata)
    let (fault, h') ←
      if data = olddata then pure (none, h)
      else if CSR.readOnly op.csr then pure (some (IllegalInstFault op.machInst), h)
      else op.writeCSR physIndex olddata data h
    match fault with
    | some fault => return (some fault, h')
    | none => return (none, { h' with intReg := Function.update h'.intReg op.rd olddata })
  | _, _ => return (some (IllegalInstFault op.machInst), h)

end CSROp

namespace Hart

variable (h : Hart)

/-- The register itself, whatever a read of it returns. -/
def misc (r : MiscReg) : RegVal :=
  if r = .ip then h.interrupts.ip.setWidth 64
  else if r = .ie then h.interrupts.ie.setWidth 64
  else h.miscRegFile r

def putMisc (r : MiscReg) (val : RegVal) : Hart :=
  if r = .ip then { h with interrupts := { h.interrupts with ip := val.setWidth 12 } }
  else if r = .ie then { h with interrupts := { h.interrupts with ie := val.setWidth 12 } }
  else { h with miscRegFile := Function.update h.miscRegFile r val }

theorem setMiscReg_eq {r : MiscReg} (stored : r.counterIndex = none) (val : RegVal) :
    h.setMiscReg r val = .ok (h.putMisc r val) := by
  cases r <;> first | rfl | cases stored

theorem counters_no_csr : ∀ index < 41, 9 ≤ index → CSRData.lookup index = none := by
  decide

theorem setMiscReg_counter {r : MiscReg} {index : Nat} (counter : r.counterIndex = some index)
    (val : RegVal) : h.setMiscReg r val = .error (.outOfRange index) := by
  have bounds : index < 41 ∧ 9 ≤ index := by
    cases r <;> simp [MiscReg.counterIndex] at counter <;> omega
  have none := counters_no_csr index bounds.1 bounds.2
  simp [setMiscReg, counter, none]

theorem misc_putMisc (r r' : MiscReg) (val : RegVal) :
    (h.putMisc r val).misc r' =
      if r' = r then
        if r = .ip ∨ r = .ie then (val.setWidth 12).setWidth 64 else val
      else h.misc r' := by
  by_cases hp : r = .ip
  · by_cases h' : r' = .ip <;> simp [putMisc, misc, hp, h']
  · by_cases he : r = .ie
    · by_cases hp' : r' = .ip <;> by_cases he' : r' = .ie <;>
        simp [putMisc, misc, he, he']
    · by_cases hp' : r' = .ip
      · simp [putMisc, misc, hp, he, hp', Ne.symm hp]
      · by_cases he' : r' = .ie
        · simp [putMisc, misc, hp, he, he', Ne.symm he]
        · simp [putMisc, misc, hp, he, hp', he', Function.update_apply]

@[simp]
theorem intReg_putMisc (r : MiscReg) (val : RegVal) : (h.putMisc r val).intReg = h.intReg := by
  unfold putMisc
  split
  · rfl
  · split <;> rfl

theorem readMiscReg_eq {r : MiscReg} (stored : r.counterIndex = none) (hart : r ≠ .hartid) :
    h.readMiscReg r = .ok (h.misc r) := by
  cases r <;> first | rfl | exact absurd rfl hart | cases stored

end Hart

namespace CSR

def maskOf (csr : Nat) : RegVal := (CSRMasks.lookup csr).getD (BitVec.allOnes 64)

theorem restrict_eq (csr : Nat) (val : RegVal) : restrict csr val = val &&& maskOf csr := by
  unfold restrict maskOf
  cases CSRMasks.lookup csr with
  | none => simp only [Option.getD_none, and_allOnes]
  | some => rfl

/-- The registers behind a CSR, each with the bits of it that belong to the CSR. -/
def parts (csr : Nat) : List (MiscReg × RegVal) :=
  if csr = fcsr then [(.fflags, FFLAGS_MASK), (.frm, FRM_MASK)]
  else match CSRData.lookup csr with
    | some physIndex => [(physIndex, maskOf csr)]
    | none => []

theorem mem_of_lookup {csr : Nat} {r : MiscReg} (found : CSRData.lookup csr = some r) :
    (csr, r) ∈ CSRData := by
  obtain ⟨l₁, l₂, split, -⟩ := List.lookup_eq_some_iff.mp found
  rw [split]
  simp

theorem hartid_readOnly : ∀ p ∈ CSRData, p.2 = .hartid → readOnly p.1 := by
  decide +kernel

theorem interrupt_masks :
    ∀ p ∈ CSRData, p.2 = .ip ∨ p.2 = .ie → maskOf p.1 &&& mask 64 12 = maskOf p.1 := by
  decide +kernel

theorem fcsr_data : CSRData.lookup fcsr = some .fflags := by
  decide

theorem fits_interrupts {csr : Nat} {r : MiscReg} (found : CSRData.lookup csr = some r)
    (shadow : r = .ip ∨ r = .ie) (val : RegVal) :
    ((restrict csr val).setWidth 12).setWidth 64 = restrict csr val := by
  have inside := interrupt_masks _ (mem_of_lookup found) shadow
  rw [restrict_eq, ← inside, ← BitVec.and_assoc]
  apply eq_of_getLsbD_eq
  intro i hi
  simp only [getLsbD_setWidth, getLsbD_and, getLsbD_mask, hi]
  by_cases hin : i < 12 <;> simp

theorem restrict_restrict (csr : Nat) (val : RegVal) :
    restrict csr (restrict csr val) = restrict csr val := by
  simp [restrict_eq, BitVec.and_assoc]

end CSR

namespace CSROp

variable (op : CSROp) (h : Hart)

/-- What a completed access does: `rd` gets the masked old value, the CSR the masked new
one, and nothing else changes. -/
structure Written (h' : Hart) (old : RegVal) : Prop where
  rd : h'.intReg = Function.update h.intReg op.rd (CSR.restrict op.csr old)
  inside : ∃ new, h'.readCSR op.csr = .ok (some new) ∧
    CSR.restrict op.csr new = CSR.restrict op.csr (op.code h (CSR.restrict op.csr old))
  outside : ∀ p ∈ CSR.parts op.csr, h'.misc p.1 &&& ~~~p.2 = h.misc p.1 &&& ~~~p.2
  frame : ∀ r, (∀ p ∈ CSR.parts op.csr, r ≠ p.1) → h'.misc r = h.misc r

/-- An outcome that is a fault without effect, or a completed access. -/
def Confined : Executed → Prop
  | .error _ => False
  | .ok (some _, h') => h' = h
  | .ok (none, h') => ∃ old, h.readCSR op.csr = .ok (some old) ∧ op.Written h h' old

def RespectsMask : Prop := op.Confined h (op.execute h)

/-- The access reads a CSR without ending the simulation, and changes it only where the
register has no bit outside the mask. -/
def Harmless : Prop :=
  match h.readCSR op.csr with
  | .error _ => False
  | .ok none => True
  | .ok (some old) =>
    let olddata := CSR.restrict op.csr old
    let data := CSR.restrict op.csr (op.code h olddata)
    data = olddata ∨ CSR.readOnly op.csr ∨
    (op.csr = CSR.mip ∨ op.csr = CSR.mie) ∧ ¬ sameMBits olddata data ∨
    ∀ p ∈ CSR.parts op.csr, p.1.counterIndex = none ∧ h.misc p.1 &&& ~~~p.2 = 0

@[simp]
theorem readCSR_intReg (regs : BitVec 5 → RegVal) (csr : Nat) :
    Hart.readCSR { h with intReg := regs } csr = h.readCSR csr := rfl

@[simp]
theorem misc_intReg (regs : BitVec 5 → RegVal) (r : MiscReg) :
    Hart.misc { h with intReg := regs } r = h.misc r := rfl

theorem readCSR_some {old : RegVal} (read : h.readCSR op.csr = .ok (some old)) :
    ∃ r, CSRData.lookup op.csr = some r := by
  unfold Hart.readCSR at read
  split at read
  · grind [CSR.fcsr_data]
  · grind

theorem unchanged_written {old : RegVal} (read : h.readCSR op.csr = .ok (some old))
    (same : CSR.restrict op.csr (op.code h (CSR.restrict op.csr old)) =
      CSR.restrict op.csr old) :
    op.Written h
      { h with intReg := Function.update h.intReg op.rd (CSR.restrict op.csr old) } old where
  rd := rfl
  inside := ⟨old, read, same.symm⟩
  outside := fun _ _ => rfl
  frame := fun _ _ => rfl

theorem and_compl_eq_zero (val mask : BitVec 64) : (val &&& mask) &&& ~~~mask = 0 := by
  apply eq_of_getLsbD_eq
  intro i hi
  simp [hi]

theorem parts_single {r : MiscReg} (single : op.csr ≠ CSR.fcsr)
    (found : CSRData.lookup op.csr = some r) : CSR.parts op.csr = [(r, CSR.maskOf op.csr)] := by
  simp [CSR.parts, if_neg single, found]

theorem single_written_iff {old data : RegVal} {r : MiscReg} (single : op.csr ≠ CSR.fcsr)
    (found : CSRData.lookup op.csr = some r) (stored : r.counterIndex = none)
    (writable : ¬ CSR.readOnly op.csr)
    (computed : data = CSR.restrict op.csr (op.code h (CSR.restrict op.csr old))) :
    op.Written h
      { h.putMisc r data with
        intReg := Function.update (h.putMisc r data).intReg op.rd (CSR.restrict op.csr old) }
      old ↔ h.misc r &&& ~~~CSR.maskOf op.csr = 0 := by
  have parts := op.parts_single single found
  have hart : r ≠ .hartid := by
    intro hr
    exact writable (CSR.hartid_readOnly (op.csr, r) (CSR.mem_of_lookup found) hr)
  have masked : CSR.restrict op.csr data = data := by
    rw [computed, CSR.restrict_restrict]
  have put : (h.putMisc r data).misc r = data := by
    rw [Hart.misc_putMisc, if_pos rfl]
    split
    · grind [CSR.fits_interrupts]
    · rfl
  have clear : data &&& ~~~CSR.maskOf op.csr = 0 := by
    rw [← masked, CSR.restrict_eq]
    exact and_compl_eq_zero _ _
  constructor
  · intro written
    have outside := written.outside (r, CSR.maskOf op.csr) (by rw [parts]; exact .head _)
    simp only [misc_intReg, put, clear] at outside
    exact outside.symm
  · intro confined
    refine ⟨?_, ⟨data, ?_, masked.trans computed⟩, ?_, ?_⟩
    · simp
    · rw [readCSR_intReg]
      simp only [Hart.readCSR, if_neg single, found, Hart.readMiscReg_eq _ stored hart, put]
      rfl
    · simp [parts, put, clear, confined]
    · intro r' away
      have hne : r' ≠ r := away (r, CSR.maskOf op.csr) (by rw [parts]; exact .head _)
      rw [misc_intReg, Hart.misc_putMisc, if_neg hne]

theorem join_fields (data : RegVal) :
    bits data 4 0 ||| (bits data 7 5 <<< FRM_OFFSET) = data &&& mask 64 8 := by
  apply eq_of_getLsbD_eq
  intro i hi
  simp only [FRM_OFFSET, getLsbD_or, getLsbD_and, getLsbD_shiftLeft, getLsbD_bits, getLsbD_mask, hi]
  rcases Nat.lt_or_ge i 5 with low | high
  · have : i < 8 := by omega
    simp [low, this]
  · have back : 5 + (i - 5) = i := by omega
    by_cases top : i < 8
    · grind
    · grind

theorem field_clear (data : RegVal) (first last : Nat) (fieldMask : RegVal)
    (width : fieldMask = mask 64 (first - last + 1)) :
    bits data first last &&& ~~~fieldMask = 0 := by
  rw [width]
  exact and_compl_eq_zero _ _

theorem restrict_fcsr (val : RegVal) : CSR.restrict CSR.fcsr val = val &&& mask 64 8 := rfl

theorem parts_fcsr : CSR.parts CSR.fcsr = [(.fflags, FFLAGS_MASK), (.frm, FRM_MASK)] := rfl

theorem fcsr_written_iff {old data : RegVal} (split : op.csr = CSR.fcsr)
    (computed : data = CSR.restrict op.csr (op.code h (CSR.restrict op.csr old))) :
    let h' := (h.putMisc .fflags (bits data 4 0)).putMisc .frm (bits data 7 5)
    op.Written h
      { h' with intReg := Function.update h'.intReg op.rd (CSR.restrict op.csr old) } old ↔
      ∀ p ∈ CSR.parts op.csr, h.misc p.1 &&& ~~~p.2 = 0 := by
  intro h'
  have flags : h'.misc .fflags = bits data 4 0 := rfl
  have mode : h'.misc .frm = bits data 7 5 := rfl
  have clearFlags := field_clear data 4 0 FFLAGS_MASK rfl
  have clearMode := field_clear data 7 5 FRM_MASK rfl
  have masked : CSR.restrict op.csr data = data := by
    rw [computed, CSR.restrict_restrict]
  constructor
  · intro written
    have outside := written.outside
    rw [split, parts_fcsr] at outside ⊢
    simp only [List.forall_mem_cons, misc_intReg, flags, mode, clearFlags, clearMode] at outside ⊢
    exact ⟨outside.1.symm, outside.2.1.symm, by simp⟩
  · intro confined
    refine ⟨rfl, ⟨data, ?_, masked.trans computed⟩, ?_, ?_⟩
    · have joined : bits data 4 0 ||| (bits data 7 5 <<< FRM_OFFSET) = data := by
        rw [join_fields, ← restrict_fcsr, ← split, masked]
      simp only [Hart.readCSR, if_pos split]
      exact congrArg (fun v => Except.ok (some v)) joined
    · rw [split, parts_fcsr] at confined ⊢
      simp only [List.forall_mem_cons, misc_intReg, flags, mode, clearFlags, clearMode]
        at confined ⊢
      exact ⟨confined.1.symm, confined.2.1.symm, by simp⟩
    · intro r away
      rw [split, parts_fcsr] at away
      simp only [List.forall_mem_cons] at away
      rw [misc_intReg, Hart.misc_putMisc, if_neg away.2.1, Hart.misc_putMisc, if_neg away.1]

theorem writeCSR_fcsr (split : op.csr = CSR.fcsr) (r : MiscReg) (olddata data : RegVal) :
    op.writeCSR r olddata data h =
      .ok (none, (h.putMisc .fflags (bits data 4 0)).putMisc .frm (bits data 7 5)) := by
  simp only [writeCSR, if_pos split]
  rfl

theorem writeCSR_refused {olddata data : RegVal} (interrupts : op.csr = CSR.mip ∨ op.csr = CSR.mie)
    (differ : ¬ sameMBits olddata data) (r : MiscReg) :
    op.writeCSR r olddata data h = .ok (some (IllegalInstFault op.machInst), h) := by
  have single : op.csr ≠ CSR.fcsr := by
    rcases interrupts with hi | hi <;> rw [hi] <;> decide
  simp only [writeCSR, if_neg single, if_pos interrupts, if_neg differ]
  rfl

theorem writeCSR_single {olddata data : RegVal} (single : op.csr ≠ CSR.fcsr)
    (accepted : ¬ ((op.csr = CSR.mip ∨ op.csr = CSR.mie) ∧ ¬ sameMBits olddata data))
    (r : MiscReg) :
    op.writeCSR r olddata data h = (h.setMiscReg r data).map fun h' => (none, h') := by
  simp only [writeCSR, if_neg single]
  split
  · aesop
  · rfl

section Execute

variable {old : RegVal} {r : MiscReg} (read : h.readCSR op.csr = .ok (some old))
  (found : CSRData.lookup op.csr = some r)

theorem execute_unknown (read : h.readCSR op.csr = .ok none) :
    op.execute h = .ok (some (IllegalInstFault op.machInst), h) := by
  simp only [execute, read]
  rfl

theorem execute_panic {p : Panic} (read : h.readCSR op.csr = .error p) :
    op.execute h = .error p := by
  simp [execute, read, bind, Except.bind]

include read found

theorem execute_unchanged
    (same : CSR.restrict op.csr (op.code h (CSR.restrict op.csr old)) = CSR.restrict op.csr old) :
    op.execute h = .ok (none,
      { h with intReg := Function.update h.intReg op.rd (CSR.restrict op.csr old) }) := by
  simp [execute, read, found, bind, Except.bind, if_pos same, pure, Except.pure]

variable (changed : CSR.restrict op.csr (op.code h (CSR.restrict op.csr old)) ≠
  CSR.restrict op.csr old)

include changed

theorem execute_readOnly (readOnly : CSR.readOnly op.csr) :
    op.execute h = .ok (some (IllegalInstFault op.machInst), h) := by
  simp [execute, read, found, bind, Except.bind, if_neg changed, if_pos readOnly, pure, Except.pure]

theorem execute_write (writable : ¬ CSR.readOnly op.csr) :
    op.execute h =
      match op.writeCSR r (CSR.restrict op.csr old)
        (CSR.restrict op.csr (op.code h (CSR.restrict op.csr old))) h with
      | .error p => .error p
      | .ok (some fault, h') => .ok (some fault, h')
      | .ok (none, h') => .ok (none,
          { h' with intReg := Function.update h'.intReg op.rd (CSR.restrict op.csr old) }) := by
  simp only [execute, read, found, bind, Except.bind, if_neg changed, if_neg writable]
  split <;> rename_i hw <;> rw [hw]
  rename_i written
  obtain ⟨fault, h'⟩ := written
  cases fault <;> rfl

end Execute

theorem parts_split_iff (split : op.csr = CSR.fcsr) {differ : Prop} :
    (∀ p ∈ CSR.parts op.csr, h.misc p.1 &&& ~~~p.2 = 0) ↔
      (op.csr = CSR.mip ∨ op.csr = CSR.mie) ∧ differ ∨
      ∀ p ∈ CSR.parts op.csr, p.1.counterIndex = none ∧ h.misc p.1 &&& ~~~p.2 = 0 := by
  have apart : ¬ (op.csr = CSR.mip ∨ op.csr = CSR.mie) := by
    rw [split]
    decide
  have stored : ∀ p ∈ CSR.parts op.csr, p.1.counterIndex = none := by
    rw [split]
    decide
  constructor
  · grind
  · grind

theorem confined_iff {old : RegVal} (read : h.readCSR op.csr = .ok (some old)) (h' : Hart) :
    op.Confined h (.ok (none, h')) ↔ op.Written h h' old := by
  simp only [Confined, read, Except.ok.injEq, Option.some.injEq]
  constructor
  · rintro ⟨_, rfl, written⟩
    exact written
  · intro written
    exact ⟨old, rfl, written⟩

/-- A CSR access respects its mask exactly where it is harmless. -/
theorem csr_respects_mask : op.RespectsMask h ↔ op.Harmless h := by
  unfold RespectsMask Harmless
  cases read : h.readCSR op.csr with
  | error p =>
    rw [op.execute_panic h read]
    rfl
  | ok value =>
    cases value with
    | none =>
      rw [op.execute_unknown h read]
      exact iff_of_true rfl trivial
    | some old =>
      obtain ⟨r, found⟩ := op.readCSR_some h read
      simp only
      by_cases same : CSR.restrict op.csr (op.code h (CSR.restrict op.csr old)) =
          CSR.restrict op.csr old
      · rw [op.execute_unchanged h read found same, op.confined_iff h read]
        exact iff_of_true (op.unchanged_written h read same) (.inl same)
      · by_cases readOnly : CSR.readOnly op.csr
        · rw [op.execute_readOnly h read found same readOnly]
          exact iff_of_true rfl (.inr (.inl readOnly))
        · rw [op.execute_write h read found same readOnly]
          simp only [same, readOnly, false_or]
          by_cases split : op.csr = CSR.fcsr
          · rw [op.writeCSR_fcsr h split]
            refine (op.confined_iff h read _).trans ?_
            refine (op.fcsr_written_iff h split rfl).trans ?_
            exact op.parts_split_iff h split
          · by_cases refused : (op.csr = CSR.mip ∨ op.csr = CSR.mie) ∧
                ¬ sameMBits (CSR.restrict op.csr old)
                  (CSR.restrict op.csr (op.code h (CSR.restrict op.csr old)))
            · rw [op.writeCSR_refused h refused.1 refused.2]
              exact iff_of_true rfl (.inl refused)
            · rw [op.writeCSR_single h split refused]
              simp only [refused, false_or, op.parts_single split found, List.mem_singleton,
                forall_eq]
              cases counter : r.counterIndex with
              | some index =>
                rw [h.setMiscReg_counter counter]
                exact iff_of_false id (by simp)
              | none =>
                rw [h.setMiscReg_eq counter]
                refine (op.confined_iff h read _).trans ?_
                refine (op.single_written_iff h split found counter readOnly rfl).trans ?_
                simp

/-- `csrrsi x0, sstatus, 2`, which sets the supervisor interrupt enable. -/
def enableSuper : CSROp :=
  { kind := .csrrsi, machInst := 0x10016073 }

theorem sstatus_write_clears_fields : ¬ enableSuper.RespectsMask (resetHart 0) := by
  have read : (resetHart 0).readCSR enableSuper.csr = .ok (some (Hart.clear .status)) := rfl
  have found : CSRData.lookup enableSuper.csr = some .status := by decide
  intro respects
  unfold RespectsMask at respects
  rw [execute_write enableSuper _ read found (by decide) (by decide),
    writeCSR_single enableSuper _ (by decide) (by decide)] at respects
  have written := (confined_iff enableSuper _ read _).mp respects
  have outside := written.outside (.status, SSTATUS_MASK) (by decide)
  revert outside
  decide

end CSROp

end Gem5.Riscv
