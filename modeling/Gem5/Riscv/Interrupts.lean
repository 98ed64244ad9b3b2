import Gem5.Riscv.Traps
import Gem5.Sim.Checkpoint
import Mathlib.Data.Fin.Basic

/-!
# The interrupt controller

`Interrupts` decides from `STATUS` whether an interrupt is taken, and
`RiscvFault::invoke` decides from the delegation registers where it goes.
-/

namespace Gem5.Riscv

namespace Interrupts

variable (i : Interrupts) (h : Hart)

def levelMask (mie sie uie : Bool) : RegVal :=
  let mask : RegVal := 0
  let mask := if mie then
    INTERRUPT.mei.set (INTERRUPT.mti.set (INTERRUPT.msi.set mask 1) 1) 1 else mask
  let mask := if sie then
    INTERRUPT.sei.set (INTERRUPT.sti.set (INTERRUPT.ssi.set mask 1) 1) 1 else mask
  if uie then
    INTERRUPT.uei.set (INTERRUPT.uti.set (INTERRUPT.usi.set mask 1) 1) 1 else mask

def globalMask : BitVec 12 :=
  let status := h.status
  (levelMask (STATUS.mie.get status != 0) (STATUS.sie.get status != 0)
    (STATUS.uie.get status != 0)).setWidth 12

def checkInterrupt (num : Nat) : Bool := i.ip.getLsbD num && i.ie.getLsbD num

def checkInterrupts : Bool := (i.ip &&& i.ie &&& globalMask h) != 0

def getInterrupt : Option RiscvFault :=
  let mask := globalMask h
  (Fin.find? fun c : Fin 12 => i.checkInterrupt c && mask.getLsbD c).map InterruptFault

end Interrupts

/-- The privilege level an interrupt type is named after; three codes are unused. -/
def interruptLevel (c : Fin 12) : Option PrivilegeMode :=
  if c.val % 4 = 2 then none else some (BitVec.ofNat 2 (c.val % 4))

namespace Hart

variable (h : Hart)

/-- The enable bit of level `x` is set. -/
def Enables (x : PrivilegeMode) : Prop := (enableBit x).get h.status ≠ 0

instance (x : PrivilegeMode) : Decidable (h.Enables x) := inferInstanceAs (Decidable (_ ≠ _))

/-- Interrupt `c` is pending, enabled, and enabled for its own level. -/
def Unmasked (c : Fin 12) : Prop :=
  h.interrupts.checkInterrupt c = true ∧ ∃ x, interruptLevel c = some x ∧ h.Enables x

/-- The lowest-numbered unmasked interrupt. -/
def First (c : Fin 12) : Prop :=
  h.Unmasked c ∧ ∀ c' < c, ¬ h.Unmasked c'

theorem levelMask_getLsbD (mie sie uie : Bool) (c : Fin 12) :
    ((Interrupts.levelMask mie sie uie).setWidth 12).getLsbD c.val =
      ((decide (interruptLevel c = some prvM) && mie) ||
        (decide (interruptLevel c = some prvS) && sie) ||
        (decide (interruptLevel c = some prvU) && uie)) := by
  decide +revert

theorem interruptLevel_cases {c : Fin 12} {x : PrivilegeMode} (level : interruptLevel c = some x) :
    x = prvU ∨ x = prvS ∨ x = prvM := by
  decide +revert

theorem globalMask_iff (c : Fin 12) :
    (Interrupts.globalMask h).getLsbD c.val = true ↔
      ∃ x, interruptLevel c = some x ∧ h.Enables x := by
  simp only [Interrupts.globalMask, levelMask_getLsbD, Bool.or_eq_true, Bool.and_eq_true,
    decide_eq_true_eq, bne_iff_ne]
  constructor
  · aesop
  · rintro ⟨x, level, on⟩
    rcases interruptLevel_cases level with rfl | rfl | rfl
    · exact .inr ⟨level, on⟩
    · exact .inl (.inr ⟨level, on⟩)
    · exact .inl (.inl ⟨level, on⟩)

theorem unmasked_iff (c : Fin 12) :
    h.Unmasked c ↔
      (h.interrupts.checkInterrupt c && (Interrupts.globalMask h).getLsbD c) = true := by
  rw [Bool.and_eq_true, globalMask_iff]
  rfl

theorem checkInterrupts_iff : h.interrupts.checkInterrupts h = true ↔ ∃ c, h.Unmasked c := by
  simp only [unmasked_iff, Interrupts.checkInterrupts, Interrupts.checkInterrupt, bne_iff_ne]
  constructor
  · intro some
    by_contra none
    apply some
    apply BitVec.eq_of_getLsbD_eq
    intro c hc
    have hnone := not_exists.mp none ⟨c, hc⟩
    simpa using hnone
  · rintro ⟨c, hc⟩ hzero
    have hbit := congrArg (fun v => v.getLsbD c.val) hzero
    simp only [BitVec.getLsbD_and, hc] at hbit
    exact absurd hbit.symm (by simp)

theorem exists_first (some : ∃ c, h.Unmasked c) : ∃ c, h.First c := by
  simp only [unmasked_iff] at some
  rw [Fin.exists_eq_true_iff_exists_minimal_eq_true] at some
  obtain ⟨c, hc, masked⟩ := some
  refine ⟨c, (h.unmasked_iff c).mpr hc, ?_⟩
  intro c' below
  rw [unmasked_iff, masked c' below]
  decide

theorem getInterrupt_first {c : Fin 12} (first : h.First c) :
    h.interrupts.getInterrupt h = some (InterruptFault c) := by
  have found : (Fin.find? fun c : Fin 12 =>
      h.interrupts.checkInterrupt c && (Interrupts.globalMask h).getLsbD c) = some c := by
    rw [Fin.find?_eq_some_iff]
    refine ⟨(h.unmasked_iff c).mp first.1, ?_⟩
    intro c' below
    have masked := first.2 c' below
    rw [unmasked_iff] at masked
    simpa using masked
  simp only [Interrupts.getInterrupt, found, Option.map_some]

/-- Where an interrupt is reported, the handler is above the current level or at the
current level with interrupts on; below machine level, machine interrupts are reported. -/
def Gated : Prop :=
  (h.interrupts.checkInterrupts h = true → ∃ f h', h.interrupts.getInterrupt h = some f ∧
    f.invoke h = .ok h' ∧ (h.prv < h'.prv ∨ h'.prv = h.prv ∧ h.Enables h'.prv)) ∧
  (h.prv < prvM → ∀ c, interruptLevel c = some prvM → h.interrupts.checkInterrupt c = true →
    (Interrupts.globalMask h).getLsbD c = true)

def midelegated (c : Fin 12) : Bool := (h.miscRegFile .mideleg).getLsbD c

def sidelegated (c : Fin 12) : Bool := (h.miscRegFile .sideleg).getLsbD c

theorem target_interrupt (c : Fin 12) :
    (InterruptFault c).target h =
      if h.prv = prvU ∧ h.sidelegated c then prvU
      else if h.prv ≠ prvM ∧ h.midelegated c then prvS else prvM := by
  have hcode : (InterruptFault c).code.toNat = c.val := by
    decide +revert
  simp only [RiscvFault.target, RiscvFault.sdelegated, RiscvFault.mdelegated, hcode]
  rfl

/-- What the mask would have to look at: the handler of the interrupt that is taken. -/
structure MaskAgrees : Prop where
  machine : ∀ c, h.First c → h.prv = prvM → h.Enables prvM
  super : ∀ c, h.First c → h.prv ≠ prvM → h.midelegated c = true →
    ¬ (h.prv = prvU ∧ h.sidelegated c = true) → h.prv = prvU ∨ h.prv = prvS ∧ h.Enables prvS
  user : ∀ c, h.First c → h.prv = prvU → h.sidelegated c = true → h.Enables prvU
  below : h.prv ≠ prvM → ∀ c, interruptLevel c = some prvM →
    h.interrupts.checkInterrupt c = true → h.Enables prvM

theorem mode_cases (p : PrivilegeMode) : p = prvU ∨ p = prvS ∨ p = 2#2 ∨ p = prvM := by
  decide +revert

theorem handler_allowed_iff (c : Fin 12) :
    (h.prv < (InterruptFault c).target h ∨
        (InterruptFault c).target h = h.prv ∧ h.Enables ((InterruptFault c).target h)) ↔
      (h.prv = prvM → h.Enables prvM) ∧
      (h.prv ≠ prvM → h.midelegated c = true → ¬ (h.prv = prvU ∧ h.sidelegated c = true) →
        h.prv = prvU ∨ h.prv = prvS ∧ h.Enables prvS) ∧
      (h.prv = prvU → h.sidelegated c = true → h.Enables prvU) := by
  rw [target_interrupt]
  generalize h.midelegated c = mdeleg
  generalize h.sidelegated c = sdeleg
  rcases mode_cases h.prv with hp | hp | hp | hp <;> rw [hp] <;> cases mdeleg <;> cases sdeleg <;>
    simp [prvU, prvS, prvM]

theorem prv_invoke {f : RiscvFault} {h' : Hart} (entered : f.invoke h = .ok h') :
    h'.prv = f.target h := by
  rw [f.invoke_eq] at entered
  obtain rfl := (Except.ok.inj entered).symm
  simp [prv]

theorem lt_prvM_iff (p : PrivilegeMode) : p < prvM ↔ p ≠ prvM := by
  decide +revert

theorem taken_iff {c : Fin 12} (first : h.First c) :
    (∃ f h', h.interrupts.getInterrupt h = some f ∧ f.invoke h = .ok h' ∧
        (h.prv < h'.prv ∨ h'.prv = h.prv ∧ h.Enables h'.prv)) ↔
      (h.prv < (InterruptFault c).target h ∨
        (InterruptFault c).target h = h.prv ∧ h.Enables ((InterruptFault c).target h)) := by
  rw [h.getInterrupt_first first]
  constructor
  · rintro ⟨f, h', hf, entered, allowed⟩
    obtain rfl := Option.some.inj hf
    rw [h.prv_invoke entered] at allowed
    exact allowed
  · intro allowed
    refine ⟨_, _, rfl, (InterruptFault c).invoke_eq h, ?_⟩
    rw [h.prv_invoke ((InterruptFault c).invoke_eq h)]
    exact allowed

theorem reported_iff (c : Fin 12) (level : interruptLevel c = some prvM) :
    (Interrupts.globalMask h).getLsbD c = true ↔ h.Enables prvM := by
  rw [globalMask_iff]
  constructor
  · simp [level]
  · intro enables
    exact ⟨prvM, level, enables⟩

end Hart

theorem interrupt_gating (h : Hart) : h.Gated ↔ h.MaskAgrees := by
  constructor
  · rintro ⟨taken, reported⟩
    have allowed : ∀ c, h.First c → _ := fun c first =>
      (h.handler_allowed_iff c).mp
        ((h.taken_iff first).mp (taken (h.checkInterrupts_iff.mpr ⟨c, first.1⟩)))
    refine ⟨fun c first => (allowed c first).1, fun c first => (allowed c first).2.1,
      fun c first => (allowed c first).2.2, ?_⟩
    intro below c level pending
    rw [← h.reported_iff c level]
    exact reported ((Hart.lt_prvM_iff _).mpr below) c level pending
  · intro agrees
    constructor
    · intro pending
      obtain ⟨c, first⟩ := h.exists_first (h.checkInterrupts_iff.mp pending)
      rw [h.taken_iff first, h.handler_allowed_iff c]
      exact ⟨agrees.machine c first, agrees.super c first, agrees.user c first⟩
    · intro below c level pending
      rw [h.reported_iff c level]
      exact agrees.below ((Hart.lt_prvM_iff _).mp below) c level pending

/-- In machine mode with `MIE` off, a supervisor interrupt is pending and unmasked. -/
def machineWithSuper : Hart :=
  { resetHart 0x80000000 with
    miscRegFile := Function.update Hart.clear .status (STATUS.sie.set 0 1)
    interrupts := { ip := 0b10#12, ie := 0b10#12 } }

theorem masked_interrupt_taken : ¬ machineWithSuper.Gated := by
  rintro ⟨taken, -⟩
  obtain ⟨f, h', hf, entered, allowed⟩ := taken (by decide)
  have hfault : f = InterruptFault 1 := by
    have := hf.symm.trans (show _ = some (InterruptFault 1) from rfl)
    exact Option.some.inj this
  subst hfault
  rw [Hart.prv_invoke _ entered] at allowed
  revert allowed
  decide

end Gem5.Riscv

namespace Gem5.Riscv.Interrupts

open Sections Gem5.Sim

def serialize (i : Interrupts) (cp : Section) : Section :=
  let cp := paramOut cp "ip.to_ulong()" i.ip.toNat
  paramOut cp "ie.to_ulong()" i.ie.toNat

/-- Both values are read through `long reg`; `none` is `fatal`. -/
def unserialize (cp : Section) : Option Interrupts := do
  let reg ← paramIn (signed 64) cp "reg"
  let ip := BitVec.ofInt 12 reg
  let reg ← paramIn (signed 64) cp "reg"
  let ie := BitVec.ofInt 12 reg
  some { ip, ie }

/-- The section that an interrupt controller writes is read back to its own state. -/
def SurvivesCheckpoint (i : Interrupts) : Prop := unserialize (i.serialize []) = some i

variable {cp : Section}

theorem unserialize_none (unnamed : find cp "reg" = none) : unserialize cp = none := by
  rw [unserialize, paramIn, Sections.read, unnamed]
  rfl

theorem find_reg_serialize (i : Interrupts) : find (i.serialize cp) "reg" = find cp "reg" := by
  rw [serialize, paramOut, find_write_of_ne (by decide), paramOut, find_write_of_ne (by decide)]

/-- The reader does not know the names that the writer uses. -/
theorem never_survives (i : Interrupts) : ¬i.SurvivesCheckpoint := by
  have lost : unserialize (i.serialize []) = none := unserialize_none (find_reg_serialize i)
  intro survives
  exact Option.some_ne_none i (survives.symm.trans lost)

/-- Not even the state after reset comes back. -/
theorem reset_not_restored : ¬(⟨0, 0⟩ : Interrupts).SurvivesCheckpoint := by
  have lost : unserialize (serialize ⟨0, 0⟩ []) = none := unserialize_none (find_reg_serialize _)
  intro survives
  exact Option.some_ne_none _ (survives.symm.trans lost)

end Gem5.Riscv.Interrupts
