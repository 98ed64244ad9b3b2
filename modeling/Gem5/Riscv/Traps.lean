import Gem5.Riscv.Faults

/-!
# What a trap does

The result of trap entry in closed form, the round trip through a handler and
its return instruction, and the agreement of trap entry with the privileged
architecture.
-/

namespace Gem5.Riscv

variable {entered : RegVal} {pp : PrivilegeMode}

/-- The registers that are kept in the register file only. -/
def MiscReg.Plain (r : MiscReg) : Prop :=
  r.counterIndex = none ∧ r ≠ .hartid ∧ r ≠ .ip ∧ r ≠ .ie

instance (r : MiscReg) : Decidable r.Plain := inferInstanceAs (Decidable (_ ∧ _))

namespace Hart

theorem readMiscReg_plain {r : MiscReg} (plain : r.Plain) (h : Hart) :
    h.readMiscReg r = .ok (h.miscRegFile r) := by
  obtain ⟨counter, hart, hip, hie⟩ := plain
  cases r <;> simp_all [readMiscReg, MiscReg.counterIndex]

theorem setMiscReg_plain {r : MiscReg} (plain : r.Plain) (h : Hart) (val : RegVal) :
    h.setMiscReg r val = .ok { h with miscRegFile := Function.update h.miscRegFile r val } := by
  obtain ⟨counter, hart, hip, hie⟩ := plain
  cases r <;> simp_all [setMiscReg, MiscReg.counterIndex]

def prv (h : Hart) : PrivilegeMode := (h.miscRegFile .prv).setWidth 2

def status (h : Hart) : RegVal := h.miscRegFile .status

end Hart

/-- The registers a handler at level `prv` finds its trap described in. -/
def trapRegs : PrivilegeMode → TrapRegs
  | prvU => ⟨.ucause, .uepc, .utvec, .utval⟩
  | prvS => ⟨.scause, .sepc, .stvec, .stval⟩
  | _ => ⟨.mcause, .mepc, .mtvec, .mtval⟩

@[simp]
theorem trapRegs_prvU : trapRegs prvU = ⟨.ucause, .uepc, .utvec, .utval⟩ := rfl

@[simp]
theorem trapRegs_prvS : trapRegs prvS = ⟨.scause, .sepc, .stvec, .stval⟩ := rfl

@[simp]
theorem trapRegs_prvM : trapRegs prvM = ⟨.mcause, .mepc, .mtvec, .mtval⟩ := rfl

namespace RiscvFault

variable (f : RiscvFault) (h : Hart)

/-- The bit of this fault in the first delegation register. -/
def mdelegated : Bool := (h.miscRegFile f.delegation.1).getLsbD f.code.toNat

/-- The bit of this fault in the second delegation register. -/
def sdelegated : Bool := (h.miscRegFile f.delegation.2).getLsbD f.code.toNat

/-- The level that `invoke` enters. -/
def target : PrivilegeMode :=
  if h.prv = prvU ∧ f.sdelegated h then prvU
  else if h.prv ≠ prvM ∧ f.mdelegated h then prvS else prvM

theorem target_cases : f.target h = prvU ∨ f.target h = prvS ∨ f.target h = prvM := by
  unfold target
  split
  · exact .inl rfl
  · grind

theorem delegation_plain : f.delegation.1.Plain ∧ f.delegation.2.Plain := by
  unfold delegation
  split <;> decide

theorem handlerMode_eq : f.handlerMode h h.prv = .ok (f.target h) := by
  obtain ⟨hm, hs⟩ := f.delegation_plain
  simp only [handlerMode, Hart.readMiscReg_plain hm, Hart.readMiscReg_plain hs,
    bits_single_ne_zero, bind, Except.bind, pure, Except.pure, target, mdelegated, sdelegated]
  congr

/-- `STATUS` after entry into a handler at level `prv`. -/
def entryStatus (prv pp : PrivilegeMode) (status : RegVal) : RegVal :=
  match prv with
  | prvU => STATUS.uie.set (STATUS.upie.set status (STATUS.uie.get status)) 0
  | prvS =>
    let status := STATUS.spp.set status (pp.setWidth 64)
    STATUS.sie.set (STATUS.spie.set status (STATUS.sie.get status)) 0
  | _ =>
    let status := STATUS.mpp.set status (pp.setWidth 64)
    STATUS.mie.set (STATUS.mpie.set status (STATUS.sie.get status)) 0

theorem entryStatus_prvU (pp : PrivilegeMode) (status : RegVal) :
    entryStatus prvU pp status =
      STATUS.uie.set (STATUS.upie.set status (STATUS.uie.get status)) 0 := rfl

theorem entryStatus_prvS (pp : PrivilegeMode) (status : RegVal) :
    entryStatus prvS pp status =
      let status := STATUS.spp.set status (pp.setWidth 64)
      STATUS.sie.set (STATUS.spie.set status (STATUS.sie.get status)) 0 := rfl

theorem entryStatus_prvM (pp : PrivilegeMode) (status : RegVal) :
    entryStatus prvM pp status =
      let status := STATUS.mpp.set status (pp.setWidth 64)
      STATUS.mie.set (STATUS.mpie.set status (STATUS.sie.get status)) 0 := rfl

theorem enter_target (pp : PrivilegeMode) (status : RegVal) :
    enter (f.target h) pp status =
      .ok (trapRegs (f.target h), entryStatus (f.target h) pp status) := by
  rcases f.target_cases h with ht | ht | ht <;> rw [ht] <;> rfl

def entryAddr (tvec : RegVal) : Addr :=
  if f.isInterrupt ∧ bits tvec 1 0 = 1 then (tvec >>> 2) + 4 * f.code else tvec >>> 2

/-- The register file after trap entry. -/
def entryRegs : MiscReg → RegVal :=
  let regs := trapRegs (f.target h)
  let file := Function.update h.miscRegFile regs.cause f.causeValue
  let file := Function.update file regs.epc h.pcState.pc
  let file := Function.update file regs.tval f.trapValue
  let file := Function.update file .prv ((f.target h).setWidth 64)
  Function.update file .status (entryStatus (f.target h) h.prv h.status)

theorem trapRegs_plain (prv : PrivilegeMode) :
    (trapRegs prv).cause.Plain ∧ (trapRegs prv).epc.Plain ∧ (trapRegs prv).tvec.Plain ∧
      (trapRegs prv).tval.Plain := by
  unfold trapRegs
  split <;> decide

theorem trapRegs_apart (prv : PrivilegeMode) :
    ((trapRegs prv).tvec :: (trapRegs prv).cause :: (trapRegs prv).epc ::
      (trapRegs prv).tval :: [MiscReg.prv, MiscReg.status]).Nodup := by
  unfold trapRegs
  split <;> decide

theorem invoke_eq :
    f.invoke h = .ok
      { h with
        miscRegFile := f.entryRegs h
        pcState := h.pcState.set (f.entryAddr (h.miscRegFile (trapRegs (f.target h)).tvec)) } := by
  obtain ⟨hcause, hepc, htvec, htval⟩ := trapRegs_plain (f.target h)
  have hprv : MiscReg.prv.Plain := by decide
  have hstatus : MiscReg.status.Plain := by decide
  have apart := trapRegs_apart (f.target h)
  simp only [List.nodup_cons, List.mem_cons, not_or] at apart
  have hmode := f.handlerMode_eq h
  simp only [Hart.prv] at hmode
  simp only [invoke, Hart.readMiscReg_plain hprv, Hart.readMiscReg_plain hstatus, hmode,
    enter_target, Hart.setMiscReg_plain hcause, Hart.setMiscReg_plain hepc,
    Hart.setMiscReg_plain htval, Hart.setMiscReg_plain hprv, Hart.setMiscReg_plain hstatus,
    Hart.readMiscReg_plain htvec, bind, Except.bind, pure, Except.pure]
  simp only [entryRegs, entryAddr, Hart.prv, Hart.status,
    Function.update_of_ne apart.1.1, Function.update_of_ne apart.1.2.1,
    Function.update_of_ne apart.1.2.2.1, Function.update_of_ne apart.1.2.2.2.1,
    Function.update_of_ne apart.1.2.2.2.2.1]

@[simp]
theorem entryRegs_prv : f.entryRegs h .prv = (f.target h).setWidth 64 := by
  simp [entryRegs]

@[simp]
theorem entryRegs_status : f.entryRegs h .status = entryStatus (f.target h) h.prv h.status := by
  simp [entryRegs]

@[simp]
theorem entryRegs_epc : f.entryRegs h (trapRegs (f.target h)).epc = h.pcState.pc := by
  rcases f.target_cases h with ht | ht | ht <;> simp [entryRegs, ht]

@[simp]
theorem entryRegs_cause : f.entryRegs h (trapRegs (f.target h)).cause = f.causeValue := by
  rcases f.target_cases h with ht | ht | ht <;> simp [entryRegs, ht]

section Specification

/-- The level that the privileged architecture assigns to a trap. -/
def specHandler : PrivilegeMode :=
  if h.prv = prvM ∨ ¬ f.mdelegated h then prvM
  else if h.prv = prvU ∧ f.sdelegated h then prvU else prvS

/-- The exception code with the most significant bit as the interrupt flag. -/
def specCause : RegVal :=
  f.code ||| if f.isInterrupt then 1#64 <<< 63 else 0

/-- The base of the trap vector, or the entry of the interrupt in vectored mode. -/
def specAddr (tvec : RegVal) : Addr :=
  (tvec &&& ~~~3#64) + if f.isInterrupt ∧ bits tvec 1 0 = 1 then 4 * f.code else 0

/-- `h'` is what the privileged architecture prescribes after the trap `f` in `h`. -/
structure FollowsSpec (h' : Hart) : Prop where
  prv : h'.miscRegFile .prv = (f.specHandler h).setWidth 64
  cause : h'.miscRegFile (trapRegs (f.specHandler h)).cause = f.specCause
  epc : h'.miscRegFile (trapRegs (f.specHandler h)).epc = h.pcState.pc
  pc : h'.pcState.pc = f.specAddr (h.miscRegFile (trapRegs (f.specHandler h)).tvec)

theorem target_eq_specHandler_iff :
    f.target h = f.specHandler h ↔
      ¬ (h.prv = prvU ∧ f.mdelegated h = false ∧ f.sdelegated h = true) := by
  unfold target specHandler
  by_cases hU : h.prv = prvU
  · grind
  · grind

theorem setWidth_mode_inj {x y : PrivilegeMode} :
    (x.setWidth 64 : RegVal) = y.setWidth 64 ↔ x = y := by
  decide +revert

theorem causeValue_eq_specCause_iff : f.causeValue = f.specCause ↔ f.isInterrupt = false := by
  unfold causeValue specCause
  cases hi : f.isInterrupt
  · simp
  · simp only [Bool.true_eq_false, iff_false]
    intro heq
    -- bit 62 of the sign extension has no counterpart
    have hbit := congrArg (fun v => v.getLsbD 62) heq
    have hcode : f.code.getLsbD 62 = false := by
      apply Nat.testBit_lt_two_pow
      have hlt : f.code.toNat < 16 := f.code_lt
      omega
    simp only [BitVec.getLsbD_or, hcode] at hbit
    simp at hbit

theorem clear_low_bits (val : RegVal) : val &&& ~~~3#64 = (val >>> 2) <<< 2 := by
  apply BitVec.eq_of_getLsbD_eq
  intro i hi
  have hthree : (3#64).getLsbD i = decide (i < 2) := by
    have : (3#64) = mask 64 2 := rfl
    rw [this, getLsbD_mask]
    simp [hi]
  simp only [BitVec.getLsbD_and, BitVec.getLsbD_not, BitVec.getLsbD_shiftLeft,
    BitVec.getLsbD_ushiftRight, hthree, hi, decide_true, Bool.true_and]
  by_cases hlow : i < 2
  · simp [hlow]
  · grind

theorem shift_eq_clear_iff (tvec : RegVal) : tvec >>> 2 = tvec &&& ~~~3#64 ↔ tvec < 4#64 := by
  rw [clear_low_bits, ← BitVec.toNat_inj, BitVec.lt_def, BitVec.toNat_shiftLeft,
    BitVec.toNat_ushiftRight, Nat.shiftRight_eq_div_pow, Nat.shiftLeft_eq]
  have hwrap : tvec.toNat / 2 ^ 2 * 2 ^ 2 % 2 ^ 64 = tvec.toNat / 2 ^ 2 * 2 ^ 2 := by omega
  have hfour : (4#64).toNat = 4 := rfl
  rw [hwrap, hfour]
  omega

theorem trap_entry_spec :
    (∃ h', f.invoke h = .ok h' ∧ f.FollowsSpec h h') ↔
      f.isInterrupt = false ∧
      ¬ (h.prv = prvU ∧ f.mdelegated h = false ∧ f.sdelegated h = true) ∧
      h.miscRegFile (trapRegs (f.specHandler h)).tvec < 4#64 := by
  rw [invoke_eq, ← causeValue_eq_specCause_iff, ← target_eq_specHandler_iff, ← shift_eq_clear_iff]
  constructor
  · rintro ⟨h', hinvoke, prv, cause, epc, pc⟩
    obtain rfl := (Except.ok.inj hinvoke).symm
    have same : f.target h = f.specHandler h := by simpa [setWidth_mode_inj] using prv
    have hcause : f.causeValue = f.specCause := by simpa [← same] using cause
    have exception := (f.causeValue_eq_specCause_iff).mp hcause
    refine ⟨hcause, same, ?_⟩
    simpa [same, entryAddr, specAddr, exception, PCState.set] using pc
  · rintro ⟨hcause, same, hbase⟩
    have exception := (f.causeValue_eq_specCause_iff).mp hcause
    refine ⟨_, rfl, ?_, ?_, ?_, ?_⟩
    · simp [same]
    · simp [← same, hcause]
    · simp [← same]
    · simp [same, entryAddr, specAddr, exception, PCState.set, hbase]

theorem trap_entry_base_shifted :
    ¬ ∃ h', (IllegalInstFault 0).invoke (resetHart 0x80000000) = .ok h' ∧
      (IllegalInstFault 0).FollowsSpec (resetHart 0x80000000) h' := by
  rintro ⟨h', hinvoke, spec⟩
  rw [invoke_eq] at hinvoke
  obtain rfl := (Except.ok.inj hinvoke).symm
  have pc := spec.pc
  revert pc
  decide

end Specification

end RiscvFault

section Return

/-- The return instruction of the handlers at level `x`. -/
def xret (x : PrivilegeMode) (machInst : BitVec 32) (h : Hart) : Executed :=
  match x with
  | prvU => uret h
  | prvS => sret machInst h
  | _ => mret machInst h

/-- The interrupt-enable bit of level `x`. -/
def enableBit : PrivilegeMode → Bitfield 64
  | prvU => STATUS.uie
  | prvS => STATUS.sie
  | _ => STATUS.mie

@[simp]
theorem enableBit_prvU : enableBit prvU = STATUS.uie := rfl

@[simp]
theorem enableBit_prvS : enableBit prvS = STATUS.sie := rfl

@[simp]
theorem enableBit_prvM : enableBit prvM = STATUS.mie := rfl

theorem uret_eq (h : Hart) :
    uret h = .ok (none, Hart.setNPC
      { h with
        miscRegFile := Function.update h.miscRegFile .status
          (STATUS.upie.set (STATUS.uie.set h.status (STATUS.upie.get h.status)) 1) }
      (h.miscRegFile .uepc)) := rfl

theorem sret_eq (machInst : BitVec 32) {h : Hart} (mode : h.miscRegFile .prv = prvS.setWidth 64) :
    sret machInst h = .ok (none, Hart.setNPC
      { h with
        miscRegFile :=
          Function.update (Function.update h.miscRegFile .prv (STATUS.spp.get h.status)) .status
            (STATUS.spp.set (STATUS.spie.set
              (STATUS.sie.set h.status (STATUS.spie.get h.status)) 1) 0) }
      (h.miscRegFile .sepc)) := by
  have apart : (prvS.setWidth 64 : RegVal) ≠ prvU.setWidth 64 := by decide
  have hprv := Hart.readMiscReg_plain (r := .prv) (by decide) h
  simp only [sret, hprv, mode, bind, Except.bind, if_neg apart]
  rfl

theorem mret_eq (machInst : BitVec 32) {h : Hart} (mode : h.miscRegFile .prv = prvM.setWidth 64) :
    mret machInst h = .ok (none, Hart.setNPC
      { h with
        miscRegFile :=
          Function.update (Function.update h.miscRegFile .prv (STATUS.mpp.get h.status)) .status
            (STATUS.mpp.set (STATUS.mpie.set
              (STATUS.mie.set h.status (STATUS.mpie.get h.status)) 1) 0) }
      (h.miscRegFile .mepc)) := by
  have hprv := Hart.readMiscReg_plain (r := .prv) (by decide) h
  simp only [mret, hprv, mode, bind, Except.bind, ne_eq, not_true_eq_false, if_false]
  rfl

/-- After the trap `f` in `h`, whatever the handler does without writing a CSR, its return
instruction restores the mode, the program counter and the interrupt-enable bit. -/
def Transparent (f : RiscvFault) (h : Hart) : Prop :=
  ∃ h₁ x, f.invoke h = .ok h₁ ∧ h₁.miscRegFile .prv = x.setWidth 64 ∧
    ∀ machInst h₂, h₂.miscRegFile = h₁.miscRegFile →
      ∃ h₃, xret x machInst h₂ = .ok (none, h₃) ∧
        h₃.miscRegFile .prv = h.miscRegFile .prv ∧
        h₃.advancePC.pcState.pc = h.pcState.pc ∧
        (enableBit x).get h₃.status = (enableBit x).get h.status

variable (f : RiscvFault) (h : Hart)

theorem user_round_trip {status : RegVal}
    (entry : entered = RiscvFault.entryStatus prvU pp status) :
    STATUS.uie.get
      (STATUS.upie.set (STATUS.uie.set entered (STATUS.upie.get entered)) 1) =
        STATUS.uie.get status := by
  simp (disch := decide) only [entry, RiscvFault.entryStatus_prvU,
    Bitfield.get_set_of_disjoint, Bitfield.get_set_self, Bitfield.truncate_get]

theorem super_round_trip {status : RegVal}
    (entry : entered = RiscvFault.entryStatus prvS pp status) :
    STATUS.sie.get (STATUS.spp.set (STATUS.spie.set
      (STATUS.sie.set entered (STATUS.spie.get entered)) 1) 0) = STATUS.sie.get status := by
  simp (disch := decide) only [entry, RiscvFault.entryStatus_prvS,
    Bitfield.get_set_of_disjoint, Bitfield.get_set_self, Bitfield.truncate_get]

theorem machine_round_trip {status : RegVal}
    (entry : entered = RiscvFault.entryStatus prvM pp status) :
    STATUS.mie.get (STATUS.mpp.set (STATUS.mpie.set
      (STATUS.mie.set entered (STATUS.mpie.get entered)) 1) 0) = STATUS.sie.get status := by
  simp (disch := decide) only [entry, RiscvFault.entryStatus_prvM,
    Bitfield.get_set_of_disjoint, Bitfield.get_set_self, Bitfield.truncate_get]

theorem spp_entryStatus (status : RegVal) (below : pp = prvU ∨ pp = prvS) :
    STATUS.spp.get (RiscvFault.entryStatus prvS pp status) = pp.setWidth 64 := by
  simp (disch := decide) only [RiscvFault.entryStatus_prvS, Bitfield.get_set_of_disjoint,
    Bitfield.get_set_self]
  rcases below with rfl | rfl <;> decide

theorem mpp_entryStatus (status : RegVal) (pp : PrivilegeMode) :
    STATUS.mpp.get (RiscvFault.entryStatus prvM pp status) = pp.setWidth 64 := by
  simp (disch := decide) only [RiscvFault.entryStatus_prvM, Bitfield.get_set_of_disjoint,
    Bitfield.get_set_self, Bitfield.truncate_setWidth]

/-- The trap is taken by a handler below machine level. -/
def RiscvFault.Delegated : Prop :=
  (h.prv = prvU ∧ f.sdelegated h = true) ∨ (h.prv ≠ prvM ∧ f.mdelegated h = true)

theorem target_machine_iff : f.target h = prvM ↔ ¬ f.Delegated h := by
  have hU : prvU ≠ prvM := by decide
  have hS : prvS ≠ prvM := by decide
  unfold RiscvFault.target RiscvFault.Delegated
  by_cases user : h.prv = prvU ∧ f.sdelegated h = true
  · simpa [user] using hU
  · grind

theorem prv_of_target_user (user : f.target h = prvU) : h.prv = prvU := by
  unfold RiscvFault.target at user
  split at user
  · rename_i hu
    exact hu.1
  · grind

theorem prv_of_target_super (super : f.target h = prvS) : h.prv ≠ prvM := by
  unfold RiscvFault.target at super
  split at super
  · exact absurd super (by decide)
  · grind

theorem xret_after_invoke (machInst : BitVec 32) (h₂ : Hart) (kept : h₂.miscRegFile = f.entryRegs h)
    (mode : h.miscRegFile .prv = pp.setWidth 64) (valid : pp = prvU ∨ pp = prvS ∨ pp = prvM) :
    ∃ h₃, xret (f.target h) machInst h₂ = .ok (none, h₃) ∧
      h₃.miscRegFile .prv = h.miscRegFile .prv ∧
      h₃.advancePC.pcState.pc = h.pcState.pc ∧
      (enableBit (f.target h)).get h₃.status =
        if f.target h = prvM then STATUS.sie.get h.status
        else (enableBit (f.target h)).get h.status := by
  have hprv : h.prv = pp := by simp [Hart.prv, mode]
  have hmode : h₂.miscRegFile .prv = (f.target h).setWidth 64 := by simp [kept]
  have hstatus : h₂.status = RiscvFault.entryStatus (f.target h) h.prv h.status := by
    simp [Hart.status, kept]
  have hepc : h₂.miscRegFile (trapRegs (f.target h)).epc = h.pcState.pc := by
    simp [kept]
  have hM : (prvU : PrivilegeMode) ≠ prvM ∧ (prvS : PrivilegeMode) ≠ prvM := by decide
  rcases f.target_cases h with ht | ht | ht
  · have user := prv_of_target_user f h ht
    rw [ht] at hmode hstatus hepc ⊢
    refine ⟨_, uret_eq h₂, ?_, ?_, ?_⟩
    · simp [Hart.setNPC, hmode, mode, ← hprv, user]
    · simpa [Hart.advancePC, Hart.setNPC, PCState.advance] using hepc
    · rw [if_neg hM.1]
      simpa [Hart.status, Hart.setNPC] using user_round_trip hstatus
  · have below := prv_of_target_super f h ht
    rw [ht] at hmode hstatus hepc ⊢
    have hpp : pp = prvU ∨ pp = prvS := by grind
    refine ⟨_, sret_eq machInst hmode, ?_, ?_, ?_⟩
    · simp [Hart.setNPC, hstatus, mode, hprv, spp_entryStatus _ hpp]
    · simpa [Hart.advancePC, Hart.setNPC, PCState.advance] using hepc
    · rw [if_neg hM.2]
      simpa [Hart.status, Hart.setNPC] using super_round_trip hstatus
  · rw [ht] at hmode hstatus hepc ⊢
    refine ⟨_, mret_eq machInst hmode, ?_, ?_, ?_⟩
    · simp [Hart.setNPC, hstatus, mode, hprv, mpp_entryStatus]
    · simpa [Hart.advancePC, Hart.setNPC, PCState.advance] using hepc
    · rw [if_pos rfl]
      simpa [Hart.status, Hart.setNPC] using machine_round_trip hstatus

theorem Transparent.enable (safe : Transparent f h)
    (mode : h.miscRegFile .prv = pp.setWidth 64) (valid : pp = prvU ∨ pp = prvS ∨ pp = prvM)
    (machine : f.target h = prvM) : STATUS.mie.get h.status = STATUS.sie.get h.status := by
  obtain ⟨h₁, x, hinvoke, hmode, round⟩ := safe
  rw [f.invoke_eq] at hinvoke
  obtain rfl := (Except.ok.inj hinvoke).symm
  have hx : f.target h = x := by simpa [RiscvFault.setWidth_mode_inj] using hmode
  subst hx
  obtain ⟨h₃, hret, -, -, enable⟩ := round 0 { h with miscRegFile := f.entryRegs h } rfl
  obtain ⟨h₃', hret', -, -, enable'⟩ :=
    xret_after_invoke f h 0 { h with miscRegFile := f.entryRegs h } rfl mode valid
  rw [hret] at hret'
  obtain rfl : h₃ = h₃' := by simpa using hret'
  rw [enable, if_pos machine, machine] at enable'
  exact enable'

theorem trap_return_transparent {pp : PrivilegeMode}
    (mode : h.miscRegFile .prv = pp.setWidth 64) (valid : pp = prvU ∨ pp = prvS ∨ pp = prvM) :
    Transparent f h ↔
      f.Delegated h ∨ STATUS.mie.get h.status = STATUS.sie.get h.status := by
  constructor
  · intro safe
    by_cases machine : f.target h = prvM
    · exact .inr (safe.enable f h mode valid machine)
    · left
      rw [target_machine_iff] at machine
      exact not_not.mp machine
  · intro safe
    refine ⟨_, f.target h, f.invoke_eq h, f.entryRegs_prv h, ?_⟩
    intro machInst h₂ kept
    obtain ⟨h₃, hret, hprv, hpc, enable⟩ := xret_after_invoke f h machInst h₂ kept mode valid
    refine ⟨h₃, hret, hprv, hpc, ?_⟩
    by_cases machine : f.target h = prvM
    · have same := safe.resolve_left ((target_machine_iff f h).mp machine)
      rw [enable, if_pos machine, machine]
      exact same.symm
    · rw [enable, if_neg machine]

theorem trap_return_transparent_reset :
    Transparent (IllegalInstFault 0) (resetHart 0x80000000) :=
  (trap_return_transparent _ _ (show _ = BitVec.setWidth 64 prvM from rfl)
    (.inr (.inr rfl))).mpr (.inr (by decide))

/-- Machine interrupts are enabled and supervisor interrupts are not. -/
def machineEnabled : Hart :=
  { resetHart 0x80000000 with
    miscRegFile := Function.update Hart.clear .status (STATUS.mie.set 0 1) }

theorem trap_return_loses_enable : ¬ Transparent (IllegalInstFault 0) machineEnabled := by
  intro safe
  have mode : machineEnabled.miscRegFile .prv = BitVec.setWidth 64 prvM := rfl
  have same := safe.enable _ _ mode (.inr (.inr rfl)) rfl
  revert same
  decide

end Return

end Gem5.Riscv
