import Gem5.Riscv.CompressedInsts

/-!
# Compressed instructions and their expansions

The expansion of every 16-bit encoding that the architecture defines as an
integer, load, store, branch or jump instruction, and the agreement of the
compressed bodies with the instructions they expand to.
-/

namespace Gem5.Riscv.Expansion

open Inst BitVec

variable {n : Nat}

section Encodings

def encodeR (funct7 : BitVec 7) (rs2 rs1 : BitVec 5) (funct3 : BitVec 3) (rd : BitVec 5)
    (opcode : BitVec 7) : BitVec 32 :=
  funct7 ++ rs2 ++ rs1 ++ funct3 ++ rd ++ opcode

def encodeI (imm : BitVec 12) (rs1 : BitVec 5) (funct3 : BitVec 3) (rd : BitVec 5)
    (opcode : BitVec 7) : BitVec 32 :=
  imm ++ rs1 ++ funct3 ++ rd ++ opcode

def encodeS (imm : BitVec 12) (rs2 rs1 : BitVec 5) (funct3 : BitVec 3) (opcode : BitVec 7) :
    BitVec 32 :=
  imm.extractLsb' 5 7 ++ rs2 ++ rs1 ++ funct3 ++ imm.extractLsb' 0 5 ++ opcode

def encodeB (offset : BitVec 13) (rs2 rs1 : BitVec 5) (funct3 : BitVec 3) (opcode : BitVec 7) :
    BitVec 32 :=
  offset.extractLsb' 12 1 ++ offset.extractLsb' 5 6 ++ rs2 ++ rs1 ++ funct3 ++
    offset.extractLsb' 1 4 ++ offset.extractLsb' 11 1 ++ opcode

def encodeU (imm : BitVec 20) (rd : BitVec 5) (opcode : BitVec 7) : BitVec 32 :=
  imm ++ rd ++ opcode

def encodeJ (offset : BitVec 21) (rd : BitVec 5) (opcode : BitVec 7) : BitVec 32 :=
  offset.extractLsb' 20 1 ++ offset.extractLsb' 1 10 ++ offset.extractLsb' 11 1 ++
    offset.extractLsb' 12 8 ++ rd ++ opcode

def LOAD : BitVec 7 := 0b0000011
def LOAD_FP : BitVec 7 := 0b0000111
def OP_IMM : BitVec 7 := 0b0010011
def OP_IMM_32 : BitVec 7 := 0b0011011
def STORE : BitVec 7 := 0b0100011
def STORE_FP : BitVec 7 := 0b0100111
def OP : BitVec 7 := 0b0110011
def LUI : BitVec 7 := 0b0110111
def OP_32 : BitVec 7 := 0b0111011
def BRANCH : BitVec 7 := 0b1100011
def JALR : BitVec 7 := 0b1100111
def JAL : BitVec 7 := 0b1101111

end Encodings

section Immediates

/-- `nzuimm[5:4|9:6|2|3]` -/
def spn (x : BitVec 8) : BitVec 12 :=
  (x.extractLsb' 2 4 ++ (x.extractLsb' 6 2 ++ (x.extractLsb' 0 1 ++
    (x.extractLsb' 1 1 ++ 0#2)))).setWidth 12

/-- `uimm[5:3]` and `uimm[2|6]` -/
def word (x3 : BitVec 3) (x2 : BitVec 2) : BitVec 12 :=
  (x2.extractLsb' 0 1 ++ (x3 ++ (x2.extractLsb' 1 1 ++ 0#2))).setWidth 12

/-- `uimm[5:3]` and `uimm[7:6]` -/
def double (x3 : BitVec 3) (x2 : BitVec 2) : BitVec 12 := (x2 ++ (x3 ++ 0#3)).setWidth 12

/-- `nzimm[5]` and `nzimm[4:0]` -/
def imm6 (x1 : BitVec 1) (x5 : BitVec 5) : BitVec 6 := x1 ++ x5

/-- `nzimm[9]` and `nzimm[4|6|8:7|5]` -/
def sp16 (x1 : BitVec 1) (x5 : BitVec 5) : BitVec 12 :=
  (x1 ++ (x5.extractLsb' 1 2 ++ (x5.extractLsb' 3 1 ++ (x5.extractLsb' 0 1 ++
    (x5.extractLsb' 4 1 ++ 0#4))))).signExtend 12

/-- `offset[11|4|9:8|10|6|7|3:1|5]` -/
def jump (x : BitVec 11) : BitVec 21 :=
  (x.extractLsb' 10 1 ++ (x.extractLsb' 6 1 ++ (x.extractLsb' 7 2 ++ (x.extractLsb' 4 1 ++
    (x.extractLsb' 5 1 ++ (x.extractLsb' 0 1 ++ (x.extractLsb' 9 1 ++ (x.extractLsb' 1 3 ++
      0#1)))))))).signExtend 21

/-- `offset[8|4:3]` and `offset[7:6|2:1|5]` -/
def branchOffset (x3 : BitVec 3) (x5 : BitVec 5) : BitVec 13 :=
  (x3.extractLsb' 2 1 ++ (x5.extractLsb' 3 2 ++ (x5.extractLsb' 0 1 ++ (x3.extractLsb' 0 2 ++
    (x5.extractLsb' 1 2 ++ 0#1))))).signExtend 13

/-- `offset[5]` and `offset[4:2|7:6]` -/
def wordSp (x1 : BitVec 1) (x5 : BitVec 5) : BitVec 12 :=
  (x5.extractLsb' 0 2 ++ (x1 ++ (x5.extractLsb' 2 3 ++ 0#2))).setWidth 12

/-- `offset[5]` and `offset[4:3|8:6]` -/
def doubleSp (x1 : BitVec 1) (x5 : BitVec 5) : BitVec 12 :=
  (x5.extractLsb' 0 3 ++ (x1 ++ (x5.extractLsb' 3 2 ++ 0#3))).setWidth 12

/-- `offset[5:2|7:6]` -/
def wordSpStore (x6 : BitVec 6) : BitVec 12 :=
  (x6.extractLsb' 0 2 ++ (x6.extractLsb' 2 4 ++ 0#2)).setWidth 12

/-- `offset[5:3|8:6]` -/
def doubleSpStore (x6 : BitVec 6) : BitVec 12 :=
  (x6.extractLsb' 0 3 ++ (x6.extractLsb' 3 3 ++ 0#3)).setWidth 12

end Immediates

section Fields

variable (h : BitVec 16)

def rd : BitVec 5 := h.extractLsb' 7 5
def rs2 : BitVec 5 := h.extractLsb' 2 5
def rs1' : BitVec 5 := 1#2 ++ h.extractLsb' 7 3
def rs2' : BitVec 5 := 1#2 ++ h.extractLsb' 2 3
def x1 : BitVec 1 := h.extractLsb' 12 1
def x2 : BitVec 2 := h.extractLsb' 5 2
def x3 : BitVec 3 := h.extractLsb' 10 3
def x5 : BitVec 5 := h.extractLsb' 2 5
def x6 : BitVec 6 := h.extractLsb' 7 6
def x8 : BitVec 8 := h.extractLsb' 5 8
def x11 : BitVec 11 := h.extractLsb' 2 11

end Fields

/-- The 32-bit instruction an encoding of quadrant 0 stands for. -/
def expand0 (h : BitVec 16) : Option (BitVec 32) :=
  match (h.extractLsb' 13 3).toNat with
  | 0 => if x8 h = 0 then none else some (encodeI (spn (x8 h)) sp 0 (rs2' h) OP_IMM)
  | 1 => some (encodeI (double (x3 h) (x2 h)) (rs1' h) 3 (rs2' h) LOAD_FP)
  | 2 => some (encodeI (word (x3 h) (x2 h)) (rs1' h) 2 (rs2' h) LOAD)
  | 3 => some (encodeI (double (x3 h) (x2 h)) (rs1' h) 3 (rs2' h) LOAD)
  | 5 => some (encodeS (double (x3 h) (x2 h)) (rs2' h) (rs1' h) 3 STORE_FP)
  | 6 => some (encodeS (word (x3 h) (x2 h)) (rs2' h) (rs1' h) 2 STORE)
  | 7 => some (encodeS (double (x3 h) (x2 h)) (rs2' h) (rs1' h) 3 STORE)
  | _ => none

/-- The register-register operations of quadrant 1. -/
def expandOp (h : BitVec 16) : Option (BitVec 32) :=
  match (x1 h).toNat, (x2 h).toNat with
  | 0, 0 => some (encodeR 0x20 (rs2' h) (rs1' h) 0 (rs1' h) OP)
  | 0, 1 => some (encodeR 0 (rs2' h) (rs1' h) 4 (rs1' h) OP)
  | 0, 2 => some (encodeR 0 (rs2' h) (rs1' h) 6 (rs1' h) OP)
  | 0, 3 => some (encodeR 0 (rs2' h) (rs1' h) 7 (rs1' h) OP)
  | 1, 0 => some (encodeR 0x20 (rs2' h) (rs1' h) 0 (rs1' h) OP_32)
  | 1, 1 => some (encodeR 0 (rs2' h) (rs1' h) 0 (rs1' h) OP_32)
  | _, _ => none

/-- The immediate of a shift: `funct6` and the shift amount. -/
def shamt (funct6 : BitVec 6) (h : BitVec 16) : BitVec 12 := funct6 ++ imm6 (x1 h) (x5 h)

def expandArith (h : BitVec 16) : Option (BitVec 32) :=
  match (h.extractLsb' 10 2).toNat with
  | 0 =>
    if imm6 (x1 h) (x5 h) = 0 then none
    else some (encodeI (shamt 0 h) (rs1' h) 5 (rs1' h) OP_IMM)
  | 1 =>
    if imm6 (x1 h) (x5 h) = 0 then none
    else some (encodeI (shamt 0x10 h) (rs1' h) 5 (rs1' h) OP_IMM)
  | 2 => some (encodeI ((imm6 (x1 h) (x5 h)).signExtend 12) (rs1' h) 7 (rs1' h) OP_IMM)
  | _ => expandOp h

def expand1 (h : BitVec 16) : Option (BitVec 32) :=
  let imm := imm6 (x1 h) (x5 h)
  match (h.extractLsb' 13 3).toNat with
  | 0 =>
    -- one of the two zero is a hint, both is `c.nop`
    if rd h = 0 ↔ imm = 0 then some (encodeI (imm.signExtend 12) (rd h) 0 (rd h) OP_IMM) else none
  | 1 =>
    if rd h = 0 then none
    else some (encodeI (imm.signExtend 12) (rd h) 0 (rd h) OP_IMM_32)
  | 2 => if rd h = 0 then none else some (encodeI (imm.signExtend 12) 0 0 (rd h) OP_IMM)
  | 3 =>
    if imm = 0 then none
    else if rd h = 2 then some (encodeI (sp16 (x1 h) (x5 h)) sp 0 sp OP_IMM)
    else if rd h = 0 then none
    else some (encodeU (imm.signExtend 20) (rd h) LUI)
  | 4 => expandArith h
  | 5 => some (encodeJ (jump (x11 h)) 0 JAL)
  | 6 => some (encodeB (branchOffset (x3 h) (x5 h)) 0 (rs1' h) 0 BRANCH)
  | 7 => some (encodeB (branchOffset (x3 h) (x5 h)) 0 (rs1' h) 1 BRANCH)
  | _ => none

def expand2 (h : BitVec 16) : Option (BitVec 32) :=
  match (h.extractLsb' 13 3).toNat with
  | 0 =>
    if rd h = 0 ∨ imm6 (x1 h) (x5 h) = 0 then none
    else some (encodeI (shamt 0 h) (rd h) 1 (rd h) OP_IMM)
  | 1 => some (encodeI (doubleSp (x1 h) (x5 h)) sp 3 (rd h) LOAD_FP)
  | 2 => if rd h = 0 then none else some (encodeI (wordSp (x1 h) (x5 h)) sp 2 (rd h) LOAD)
  | 3 => if rd h = 0 then none else some (encodeI (doubleSp (x1 h) (x5 h)) sp 3 (rd h) LOAD)
  | 4 =>
    if rd h = 0 then none
    else if rs2 h = 0 then
      some (encodeI 0 (rd h) 0 (if x1 h = 0 then 0 else ra) JALR)
    else some (encodeR 0 (rs2 h) (if x1 h = 0 then 0 else rd h) 0 (rd h) OP)
  | 5 => some (encodeS (doubleSpStore (x6 h)) (rs2 h) sp 3 STORE_FP)
  | 6 => some (encodeS (wordSpStore (x6 h)) (rs2 h) sp 2 STORE)
  | 7 => some (encodeS (doubleSpStore (x6 h)) (rs2 h) sp 3 STORE)
  | _ => none

/-- The expansion of a 16-bit encoding that is neither reserved nor a hint. -/
def expand (h : BitVec 16) : Option (BitVec 32) :=
  match (h.extractLsb' 0 2).toNat with
  | 0 => expand0 h
  | 1 => expand1 h
  | 2 => expand2 h
  | _ => none

theorem sext_setWidth (v : BitVec n) (pos : 0 < n) (fits : n ≤ 64) :
    sext n (v.setWidth 64) = v.signExtend 64 := by
  have sign : bits (v.setWidth 64) (n - 1) (n - 1) ≠ 0 ↔ v.msb = true := by
    rw [bits_single_ne_zero, getLsbD_setWidth, msb_eq_getLsbD_last]
    simp [show n - 1 < 64 by omega]
  unfold sext
  split
  · rename_i hs
    have hmsb := sign.mp hs
    apply eq_of_getLsbD_eq
    intro i hi
    by_cases hn : i < n <;>
      simp only [getLsbD_or, getLsbD_setWidth, getLsbD_not, getLsbD_mask,
        getLsbD_signExtend, hi, hn, hmsb] <;>
      simp
  · grind

theorem orSign_setWidth (s : BitVec 1) (v : BitVec n) :
    orSign (s.setWidth 64) n (v.setWidth 64) = (s ++ v).signExtend 64 := by
  have bit : s = 0#1 ∨ s = 1#1 := by decide +revert
  apply eq_of_getLsbD_eq
  intro i hi
  have msb : (s ++ v).msb = s.getLsbD 0 := by grind
  rw [getLsbD_signExtend, msb, getLsbD_append]
  by_cases hn : i < n
  · have hn' : i < 1 + n := by omega
    rcases bit with rfl | rfl <;> simp [orSign, hi, hn, hn']
  · have high := getLsbD_of_ge v i (by omega)
    have last : i < 1 + n → i - n = 0 := by omega
    rcases bit with rfl | rfl
    · simp [orSign, high]
    · by_cases hn' : i < 1 + n
      · simp [orSign, hi, hn, last hn']
      · simp [orSign, hi, hn, hn']

/-- The machine instruction of a fetched word. -/
def ext {n : Nat} (w : BitVec n) : ExtMachInst := w.setWidth 64

theorem bits_ext (fits : n ≤ 64) (w : BitVec n) (first last : Nat) :
    bits (ext w) first last = ext (w.extractLsb' last (first - last + 1)) :=
  bits_setWidth_of_le w fits first last

theorem ext_shiftLeft (v : BitVec n) (k : Nat) : ext v <<< k = ext (v ++ 0#k) :=
  setWidth_shiftLeft v k

theorem ext_or_shiftLeft {a b : Nat} (low : BitVec a) (high : BitVec b) :
    ext low ||| (ext high <<< a) = ext (high ++ low) :=
  setWidth_or_shiftLeft low high

section CompressedFields

variable (h : BitVec 16)

theorem addi4spnImm_ext : addi4spnImm (ext h) = (spn (x8 h)).signExtend 64 := by
  simp (disch := decide) only [addi4spnImm, CIMM8, bits_ext]
  rw [ext_shiftLeft, ext_or_shiftLeft, ext_or_shiftLeft, ext_or_shiftLeft]
  exact (signExtend_setWidth _ (by decide)).symm

theorem wordOffset_ext : wordOffset (ext h) = (word (x3 h) (x2 h)).signExtend 64 := by
  simp (disch := decide) only [wordOffset, CIMM2, CIMM3, bits_ext]
  rw [ext_shiftLeft, ext_or_shiftLeft, ext_or_shiftLeft]
  exact (signExtend_setWidth _ (by decide)).symm

theorem doubleOffset_ext : doubleOffset (ext h) = (double (x3 h) (x2 h)).signExtend 64 := by
  simp (disch := decide) only [doubleOffset, CIMM2, CIMM3, bits_ext]
  rw [ext_shiftLeft, ext_or_shiftLeft]
  exact (signExtend_setWidth _ (by decide)).symm

theorem ciImm_ext : ciImm (ext h) = (imm6 (x1 h) (x5 h)).signExtend 64 := by
  simp (disch := decide) only [ciImm, CIMM1, CIMM5, bits_ext]
  exact orSign_setWidth _ _

theorem addi16spImm_ext : addi16spImm (ext h) = (sp16 (x1 h) (x5 h)).signExtend 64 := by
  simp (disch := decide) only [addi16spImm, CIMM1, CIMM5, bits_ext]
  rw [ext_shiftLeft, ext_or_shiftLeft, ext_or_shiftLeft, ext_or_shiftLeft]
  refine (orSign_setWidth _ _).trans ?_
  exact (signExtend_signExtend _ (by decide) (by decide)).symm

theorem shiftImm_ext : shiftImm (ext h) = ext (imm6 (x1 h) (x5 h)) := by
  simp (disch := decide) only [shiftImm, CIMM1, CIMM5, bits_ext]
  rw [ext_or_shiftLeft]
  rfl

theorem cluiImm_ext : cluiImm (ext h) = (imm6 (x1 h) (x5 h)).signExtend 64 <<< 12 := by
  simp (disch := decide) only [cluiImm, CIMM1, CIMM5, bits_ext]
  rw [ext_shiftLeft]
  refine (orSign_setWidth _ _).trans ?_
  change (x1 h ++ (x5 h ++ 0#12)).signExtend 64 = (x1 h ++ x5 h).signExtend 64 <<< 12
  generalize x1 h = sign
  generalize x5 h = low
  decide +revert

theorem cjImm_ext : cjImm (ext h) = (jump (x11 h)).signExtend 64 := by
  simp (disch := decide) only [cjImm, CJUMPIMM3TO1, CJUMPIMM4TO4, CJUMPIMM5TO5, CJUMPIMM6TO6,
    CJUMPIMM7TO7, CJUMPIMM9TO8, CJUMPIMM10TO10, CJUMPIMMSIGN, bits_ext]
  rw [ext_shiftLeft, ext_or_shiftLeft, ext_or_shiftLeft, ext_or_shiftLeft, ext_or_shiftLeft,
    ext_or_shiftLeft, ext_or_shiftLeft]
  refine (orSign_setWidth _ _).trans ?_
  simp (disch := decide) only [jump, x11, extractLsb'_extractLsb']
  exact (signExtend_signExtend _ (by decide) (by decide)).symm

theorem cbImm_ext : cbImm (ext h) = (branchOffset (x3 h) (x5 h)).signExtend 64 := by
  simp (disch := decide) only [cbImm, CIMM3, CIMM5, bits_ext]
  rw [ext_shiftLeft, ext_or_shiftLeft, ext_or_shiftLeft, ext_or_shiftLeft]
  refine (orSign_setWidth _ _).trans ?_
  exact (signExtend_signExtend _ (by decide) (by decide)).symm

theorem wordSpOffset_ext : wordSpOffset (ext h) = (wordSp (x1 h) (x5 h)).signExtend 64 := by
  simp (disch := decide) only [wordSpOffset, CIMM1, CIMM5, bits_ext]
  rw [ext_shiftLeft, ext_or_shiftLeft, ext_or_shiftLeft]
  exact (signExtend_setWidth _ (by decide)).symm

theorem doubleSpOffset_ext : doubleSpOffset (ext h) = (doubleSp (x1 h) (x5 h)).signExtend 64 := by
  simp (disch := decide) only [doubleSpOffset, CIMM1, CIMM5, bits_ext]
  rw [ext_shiftLeft, ext_or_shiftLeft, ext_or_shiftLeft]
  exact (signExtend_setWidth _ (by decide)).symm

theorem wordSpStoreOffset_ext : wordSpStoreOffset (ext h) = (wordSpStore (x6 h)).signExtend 64 := by
  simp (disch := decide) only [wordSpStoreOffset, CIMM6, bits_ext]
  rw [ext_shiftLeft, ext_or_shiftLeft]
  exact (signExtend_setWidth _ (by decide)).symm

theorem doubleSpStoreOffset_ext :
    doubleSpStoreOffset (ext h) = (doubleSpStore (x6 h)).signExtend 64 := by
  simp (disch := decide) only [doubleSpStoreOffset, CIMM6, bits_ext]
  rw [ext_shiftLeft, ext_or_shiftLeft]
  exact (signExtend_setWidth _ (by decide)).symm

theorem regIndex_ext (fits : n ≤ 64) (w : BitVec n) (last : Nat) :
    regIndex (ext w) (last + 4) last = w.extractLsb' last 5 := by
  rw [regIndex, bits_ext fits, Nat.add_sub_cancel_left]
  simp [ext]

theorem RC1_ext : RC1 (ext h) = rd h := regIndex_ext (by decide) h 7

theorem RC2_ext : RC2 (ext h) = rs2 h := regIndex_ext (by decide) h 2

theorem popular (x : BitVec 3) : (ext x + 8).setWidth 5 = (1#2 ++ x : BitVec 5) := by
  decide +revert

theorem RP1_ext : RP1 (ext h) = rs1' h := by
  rw [RP1, bits_ext (by decide)]
  exact popular _

theorem RP2_ext : RP2 (ext h) = rs2' h := by
  rw [RP2, bits_ext (by decide)]
  exact popular _

end CompressedFields
section BaseFields

theorem QUADRANT_ext (fits : n ≤ 64) (w : BitVec n) :
    QUADRANT (ext w) = ext ((w.extractLsb' 0 7).extractLsb' 0 2) := by
  rw [QUADRANT, bits_ext fits, extractLsb'_extractLsb' _ (by decide)]

theorem OPCODE_ext (fits : n ≤ 64) (w : BitVec n) :
    OPCODE (ext w) = ext ((w.extractLsb' 0 7).extractLsb' 2 5) := by
  rw [OPCODE, bits_ext fits, extractLsb'_extractLsb' _ (by decide)]

theorem ext_or_extract (val : BitVec n) (a b : Nat) :
    ext (val.extractLsb' 0 a) ||| (ext (val.extractLsb' a b) <<< a) =
      ext (val.extractLsb' 0 (a + b)) :=
  extract_or_shiftLeft val a b

theorem ext_shiftLeft_even {val : BitVec n} (even : val.extractLsb' 0 1 = 0#1) (b : Nat) :
    ext (val.extractLsb' 1 b) <<< 1 = ext (val.extractLsb' 0 (1 + b)) := by
  rw [← ext_or_extract, even]
  simp [ext]

variable (rd rs1 rs2 : BitVec 5) (funct3 : BitVec 3) (funct7 opcode : BitVec 7)

theorem opcode_encodeI (imm : BitVec 12) :
    (encodeI imm rs1 funct3 rd opcode).extractLsb' 0 7 = opcode :=
  extractLsb'_append_eq_right

theorem opcode_encodeR : (encodeR funct7 rs2 rs1 funct3 rd opcode).extractLsb' 0 7 = opcode :=
  extractLsb'_append_eq_right

theorem opcode_encodeS (imm : BitVec 12) :
    (encodeS imm rs2 rs1 funct3 opcode).extractLsb' 0 7 = opcode :=
  extractLsb'_append_eq_right

theorem opcode_encodeB (offset : BitVec 13) :
    (encodeB offset rs2 rs1 funct3 opcode).extractLsb' 0 7 = opcode :=
  extractLsb'_append_eq_right

theorem opcode_encodeU (imm : BitVec 20) : (encodeU imm rd opcode).extractLsb' 0 7 = opcode :=
  extractLsb'_append_eq_right

theorem opcode_encodeJ (offset : BitVec 21) : (encodeJ offset rd opcode).extractLsb' 0 7 = opcode :=
  extractLsb'_append_eq_right

theorem FUNCT3_encodeI (imm : BitVec 12) :
    FUNCT3 (ext (encodeI imm rs1 funct3 rd opcode)) = ext funct3 := by
  simp (disch := decide) only [FUNCT3, bits_ext, encodeI, extractLsb'_append_eq_of_le,
    extractLsb'_append_eq_of_add_le]
  simp

theorem FUNCT3_encodeS (imm : BitVec 12) :
    FUNCT3 (ext (encodeS imm rs2 rs1 funct3 opcode)) = ext funct3 := by
  simp (disch := decide) only [FUNCT3, bits_ext, encodeS, extractLsb'_append_eq_of_le,
    extractLsb'_append_eq_of_add_le]
  simp

theorem FUNCT3_encodeB (offset : BitVec 13) :
    FUNCT3 (ext (encodeB offset rs2 rs1 funct3 opcode)) = ext funct3 := by
  simp (disch := decide) only [FUNCT3, bits_ext, encodeB, extractLsb'_append_eq_of_le,
    extractLsb'_append_eq_of_add_le]
  simp

theorem FUNCT3_encodeR : FUNCT3 (ext (encodeR funct7 rs2 rs1 funct3 rd opcode)) = ext funct3 := by
  simp (disch := decide) only [FUNCT3, bits_ext, encodeR, extractLsb'_append_eq_of_le,
    extractLsb'_append_eq_of_add_le]
  simp

theorem FUNCT7_encodeR : FUNCT7 (ext (encodeR funct7 rs2 rs1 funct3 rd opcode)) = ext funct7 := by
  simp (disch := decide) only [FUNCT7, bits_ext, encodeR, extractLsb'_append_eq_of_le]
  simp

theorem SRTYPE_encodeI (imm : BitVec 12) :
    SRTYPE (ext (encodeI imm rs1 funct3 rd opcode)) = ext (imm.extractLsb' 10 1) := by
  simp (disch := decide) only [SRTYPE, bits_ext, encodeI, extractLsb'_append_eq_of_le]

theorem SHAMT6_encodeI (imm : BitVec 12) :
    SHAMT6 (ext (encodeI imm rs1 funct3 rd opcode)) = ext (imm.extractLsb' 0 6) := by
  simp (disch := decide) only [SHAMT6, bits_ext, encodeI, extractLsb'_append_eq_of_le]

theorem RD_encodeI (imm : BitVec 12) : RD (ext (encodeI imm rs1 funct3 rd opcode)) = rd := by
  simp (disch := decide) only [RD, regIndex_ext, encodeI, extractLsb'_append_eq_of_le,
    extractLsb'_append_eq_of_add_le]
  simp

theorem RD_encodeR : RD (ext (encodeR funct7 rs2 rs1 funct3 rd opcode)) = rd := by
  simp (disch := decide) only [RD, regIndex_ext, encodeR, extractLsb'_append_eq_of_le,
    extractLsb'_append_eq_of_add_le]
  simp

theorem RD_encodeU (imm : BitVec 20) : RD (ext (encodeU imm rd opcode)) = rd := by
  simp (disch := decide) only [RD, regIndex_ext, encodeU, extractLsb'_append_eq_of_le,
    extractLsb'_append_eq_of_add_le]
  simp

theorem RD_encodeJ (offset : BitVec 21) : RD (ext (encodeJ offset rd opcode)) = rd := by
  simp (disch := decide) only [RD, regIndex_ext, encodeJ, extractLsb'_append_eq_of_le,
    extractLsb'_append_eq_of_add_le]
  simp

theorem RS1_encodeI (imm : BitVec 12) : RS1 (ext (encodeI imm rs1 funct3 rd opcode)) = rs1 := by
  simp (disch := decide) only [RS1, regIndex_ext, encodeI, extractLsb'_append_eq_of_le,
    extractLsb'_append_eq_of_add_le]
  simp

theorem RS1_encodeR : RS1 (ext (encodeR funct7 rs2 rs1 funct3 rd opcode)) = rs1 := by
  simp (disch := decide) only [RS1, regIndex_ext, encodeR, extractLsb'_append_eq_of_le,
    extractLsb'_append_eq_of_add_le]
  simp

theorem RS1_encodeS (imm : BitVec 12) : RS1 (ext (encodeS imm rs2 rs1 funct3 opcode)) = rs1 := by
  simp (disch := decide) only [RS1, regIndex_ext, encodeS, extractLsb'_append_eq_of_le,
    extractLsb'_append_eq_of_add_le]
  simp

theorem RS1_encodeB (offset : BitVec 13) :
    RS1 (ext (encodeB offset rs2 rs1 funct3 opcode)) = rs1 := by
  simp (disch := decide) only [RS1, regIndex_ext, encodeB, extractLsb'_append_eq_of_le,
    extractLsb'_append_eq_of_add_le]
  simp

theorem RS2_encodeR : RS2 (ext (encodeR funct7 rs2 rs1 funct3 rd opcode)) = rs2 := by
  simp (disch := decide) only [RS2, regIndex_ext, encodeR, extractLsb'_append_eq_of_le,
    extractLsb'_append_eq_of_add_le]
  simp

theorem RS2_encodeS (imm : BitVec 12) : RS2 (ext (encodeS imm rs2 rs1 funct3 opcode)) = rs2 := by
  simp (disch := decide) only [RS2, regIndex_ext, encodeS, extractLsb'_append_eq_of_le,
    extractLsb'_append_eq_of_add_le]
  simp

theorem RS2_encodeB (offset : BitVec 13) :
    RS2 (ext (encodeB offset rs2 rs1 funct3 opcode)) = rs2 := by
  simp (disch := decide) only [RS2, regIndex_ext, encodeB, extractLsb'_append_eq_of_le,
    extractLsb'_append_eq_of_add_le]
  simp

theorem iImm_encodeI (imm : BitVec 12) :
    iImm (ext (encodeI imm rs1 funct3 rd opcode)) = imm.signExtend 64 := by
  simp (disch := decide) only [iImm, IMM12, bits_ext, encodeI, extractLsb'_append_eq_of_le]
  simp only [extractLsb'_eq_self, Nat.reduceSub]
  exact sext_setWidth imm (by decide) (by decide)

theorem sImm_encodeS (imm : BitVec 12) :
    sImm (ext (encodeS imm rs2 rs1 funct3 opcode)) = imm.signExtend 64 := by
  simp (disch := decide) only [sImm, IMM5, IMM7, bits_ext, encodeS,
    extractLsb'_append_eq_of_le, extractLsb'_append_eq_of_add_le]
  simp only [extractLsb'_eq_self, Nat.reduceSub]
  rw [ext_or_extract, extractLsb'_eq_self]
  exact sext_setWidth imm (by decide) (by decide)

theorem uImm_encodeU (imm : BitVec 20) :
    uImm (ext (encodeU imm rd opcode)) = imm.signExtend 64 <<< 12 := by
  simp (disch := decide) only [uImm, IMM20, bits_ext, encodeU, extractLsb'_append_eq_of_le]
  simp only [extractLsb'_eq_self, Nat.reduceSub]
  rw [ext, sext_setWidth imm (by decide) (by decide)]

theorem bImm_encodeB {offset : BitVec 13} (even : offset.extractLsb' 0 1 = 0#1) :
    bImm (ext (encodeB offset rs2 rs1 funct3 opcode)) = offset.signExtend 64 := by
  simp (disch := decide) only [bImm, BIMM12BITS4TO1, BIMM12BITS10TO5, BIMM12BIT11, IMMSIGN,
    bits_ext, encodeB, extractLsb'_append_eq_of_le,
    extractLsb'_append_eq_of_add_le]
  simp only [extractLsb'_eq_self, Nat.reduceSub]
  rw [ext_shiftLeft_even even, ext_or_extract, ext_or_extract, ext_or_extract,
    extractLsb'_eq_self]
  exact sext_setWidth offset (by decide) (by decide)

theorem jImm_encodeJ {offset : BitVec 21} (even : offset.extractLsb' 0 1 = 0#1) :
    jImm (ext (encodeJ offset rd opcode)) = offset.signExtend 64 := by
  simp (disch := decide) only [jImm, UJIMMBITS10TO1, UJIMMBIT11, UJIMMBITS19TO12, IMMSIGN,
    bits_ext, encodeJ, extractLsb'_append_eq_of_le,
    extractLsb'_append_eq_of_add_le]
  simp only [extractLsb'_eq_self, Nat.reduceSub]
  rw [ext_shiftLeft_even even, ext_or_extract, ext_or_extract, ext_or_extract,
    extractLsb'_eq_self]
  exact sext_setWidth offset (by decide) (by decide)

end BaseFields

end Gem5.Riscv.Expansion
