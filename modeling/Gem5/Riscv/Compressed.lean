import Gem5.Riscv.Expansion

/-!
# Agreement of compressed instructions with their expansions

What the decoder selects for an expansion, and the equality of the two
`execute` methods for every compressed instruction.
-/

namespace Gem5.Riscv.Expansion

open Inst

section Decode

variable (rd rs1 rs2 : BitVec 5)

def Decodes (w : BitVec 32) (inst : ExtMachInst → Execute) : Prop :=
  decodeInst (ext w) = some (inst (ext w))

theorem Decodes.of_table {w : BitVec 32} {opcode : BitVec 7} {inst : ExtMachInst → Execute}
    (low : w.extractLsb' 0 7 = opcode) (quadrant : opcode.extractLsb' 0 2 = 3#2) (table : OPCODE
    (ext w) = ext (opcode.extractLsb' 2 5) → decodeBase (ext w) = some (inst (ext w))) :
    Decodes w inst := by
  rw [Decodes, ← table (low ▸ OPCODE_ext (by decide) w)]
  simp only [decodeInst, QUADRANT_ext (show 32 ≤ 64 by decide), low, quadrant]
  rfl

theorem decode_fld (imm : BitVec 12) : Decodes (encodeI imm rs1 3 rd LOAD_FP) fld :=
  .of_table (opcode_encodeI ..) rfl fun o => by rw [decodeBase, o, FUNCT3_encodeI]; rfl

theorem decode_lw (imm : BitVec 12) : Decodes (encodeI imm rs1 2 rd LOAD) lw :=
  .of_table (opcode_encodeI ..) rfl fun o => by rw [decodeBase, o, FUNCT3_encodeI]; rfl

theorem decode_ld (imm : BitVec 12) : Decodes (encodeI imm rs1 3 rd LOAD) ld :=
  .of_table (opcode_encodeI ..) rfl fun o => by rw [decodeBase, o, FUNCT3_encodeI]; rfl

theorem decode_addi (imm : BitVec 12) : Decodes (encodeI imm rs1 0 rd OP_IMM) addi :=
  .of_table (opcode_encodeI ..) rfl fun o => by rw [decodeBase, o, FUNCT3_encodeI]; rfl

theorem decode_slli (imm : BitVec 12) : Decodes (encodeI imm rs1 1 rd OP_IMM) slli :=
  .of_table (opcode_encodeI ..) rfl fun o => by rw [decodeBase, o, FUNCT3_encodeI]; rfl

theorem decode_andi (imm : BitVec 12) : Decodes (encodeI imm rs1 7 rd OP_IMM) andi :=
  .of_table (opcode_encodeI ..) rfl fun o => by rw [decodeBase, o, FUNCT3_encodeI]; rfl

theorem decode_addiw (imm : BitVec 12) : Decodes (encodeI imm rs1 0 rd OP_IMM_32) addiw :=
  .of_table (opcode_encodeI ..) rfl fun o => by rw [decodeBase, o, FUNCT3_encodeI]; rfl

theorem decode_jalr (imm : BitVec 12) : Decodes (encodeI imm rs1 0 rd JALR) jalr :=
  .of_table (opcode_encodeI ..) rfl fun o => by rw [decodeBase, o, FUNCT3_encodeI]; rfl

theorem decode_srli {imm : BitVec 12} (logical : imm.extractLsb' 10 1 = 0#1) :
    Decodes (encodeI imm rs1 5 rd OP_IMM) srli :=
  .of_table (opcode_encodeI ..) rfl fun o => by
    rw [decodeBase, o, FUNCT3_encodeI, SRTYPE_encodeI, logical]; rfl

theorem decode_srai {imm : BitVec 12} (arith : imm.extractLsb' 10 1 = 1#1) :
    Decodes (encodeI imm rs1 5 rd OP_IMM) srai :=
  .of_table (opcode_encodeI ..) rfl fun o => by
    rw [decodeBase, o, FUNCT3_encodeI, SRTYPE_encodeI, arith]; rfl

theorem decode_fsd (imm : BitVec 12) : Decodes (encodeS imm rs2 rs1 3 STORE_FP) fsd :=
  .of_table (opcode_encodeS ..) rfl fun o => by rw [decodeBase, o, FUNCT3_encodeS]; rfl

theorem decode_sw (imm : BitVec 12) : Decodes (encodeS imm rs2 rs1 2 STORE) sw :=
  .of_table (opcode_encodeS ..) rfl fun o => by rw [decodeBase, o, FUNCT3_encodeS]; rfl

theorem decode_sd (imm : BitVec 12) : Decodes (encodeS imm rs2 rs1 3 STORE) sd :=
  .of_table (opcode_encodeS ..) rfl fun o => by rw [decodeBase, o, FUNCT3_encodeS]; rfl

theorem decode_add : Decodes (encodeR 0 rs2 rs1 0 rd OP) add :=
  .of_table (opcode_encodeR ..) rfl fun o => by rw [decodeBase, o, FUNCT3_encodeR, FUNCT7_encodeR]; rfl

theorem decode_sub : Decodes (encodeR 0x20 rs2 rs1 0 rd OP) sub :=
  .of_table (opcode_encodeR ..) rfl fun o => by rw [decodeBase, o, FUNCT3_encodeR, FUNCT7_encodeR]; rfl

theorem decode_xor : Decodes (encodeR 0 rs2 rs1 4 rd OP) xor :=
  .of_table (opcode_encodeR ..) rfl fun o => by rw [decodeBase, o, FUNCT3_encodeR, FUNCT7_encodeR]; rfl

theorem decode_or : Decodes (encodeR 0 rs2 rs1 6 rd OP) or :=
  .of_table (opcode_encodeR ..) rfl fun o => by rw [decodeBase, o, FUNCT3_encodeR, FUNCT7_encodeR]; rfl

theorem decode_and : Decodes (encodeR 0 rs2 rs1 7 rd OP) and :=
  .of_table (opcode_encodeR ..) rfl fun o => by rw [decodeBase, o, FUNCT3_encodeR, FUNCT7_encodeR]; rfl

theorem decode_addw : Decodes (encodeR 0 rs2 rs1 0 rd OP_32) addw :=
  .of_table (opcode_encodeR ..) rfl fun o => by rw [decodeBase, o, FUNCT3_encodeR, FUNCT7_encodeR]; rfl

theorem decode_subw : Decodes (encodeR 0x20 rs2 rs1 0 rd OP_32) subw :=
  .of_table (opcode_encodeR ..) rfl fun o => by rw [decodeBase, o, FUNCT3_encodeR, FUNCT7_encodeR]; rfl

theorem decode_beq (offset : BitVec 13) : Decodes (encodeB offset rs2 rs1 0 BRANCH) beq :=
  .of_table (opcode_encodeB ..) rfl fun o => by rw [decodeBase, o, FUNCT3_encodeB]; rfl

theorem decode_bne (offset : BitVec 13) : Decodes (encodeB offset rs2 rs1 1 BRANCH) Inst.bne :=
  .of_table (opcode_encodeB ..) rfl fun o => by rw [decodeBase, o, FUNCT3_encodeB]; rfl

theorem decode_lui (imm : BitVec 20) : Decodes (encodeU imm rd LUI) lui :=
  .of_table (opcode_encodeU ..) rfl fun o => by rw [decodeBase, o]; rfl

theorem decode_jal (offset : BitVec 21) : Decodes (encodeJ offset rd JAL) jal :=
  .of_table (opcode_encodeJ ..) rfl fun o => by rw [decodeBase, o]; rfl

end Decode

section Quadrant0

variable (h : BitVec 16)

theorem c_addi4spn_eq (defined : x8 h ≠ 0) :
    c_addi4spn (ext h) = addi (ext (encodeI (spn (x8 h)) sp 0 (rs2' h) OP_IMM)) := by
  have nonzero : ext h ≠ 0 := by
    intro hz
    apply defined
    have : h = 0 := by simpa [ext] using congrArg (BitVec.setWidth 16) hz
    rw [this]
    rfl
  funext xc
  simp only [c_addi4spn, illegalIf, if_neg nonzero, addi, IOp, RP2_ext, addi4spnImm_ext, RD_encodeI,
    RS1_encodeI, iImm_encodeI]

theorem c_fld_eq :
    c_fld (ext h) = fld (ext (encodeI (double (x3 h) (x2 h)) (rs1' h) 3 (rs2' h) LOAD_FP)) := by
  simp [c_fld, fld, RP1_ext, RP2_ext, doubleOffset_ext, RS1_encodeI, RD_encodeI, iImm_encodeI]

theorem c_lw_eq :
    c_lw (ext h) = lw (ext (encodeI (word (x3 h) (x2 h)) (rs1' h) 2 (rs2' h) LOAD)) := by
  simp [c_lw, lw, Load, RP1_ext, RP2_ext, wordOffset_ext, RS1_encodeI, RD_encodeI, iImm_encodeI]

theorem c_ld_eq :
    c_ld (ext h) = ld (ext (encodeI (double (x3 h) (x2 h)) (rs1' h) 3 (rs2' h) LOAD)) := by
  simp [c_ld, ld, Load, RP1_ext, RP2_ext, doubleOffset_ext, RS1_encodeI, RD_encodeI, iImm_encodeI]

theorem c_fsd_eq :
    c_fsd (ext h) = fsd (ext (encodeS (double (x3 h) (x2 h)) (rs2' h) (rs1' h) 3 STORE_FP)) := by
  simp [c_fsd, fsd, RP1_ext, RP2_ext, doubleOffset_ext, RS1_encodeS, RS2_encodeS, sImm_encodeS]

theorem c_sw_eq :
    c_sw (ext h) = sw (ext (encodeS (word (x3 h) (x2 h)) (rs2' h) (rs1' h) 2 STORE)) := by
  simp [c_sw, sw, Store, RP1_ext, RP2_ext, wordOffset_ext, RS1_encodeS, RS2_encodeS, sImm_encodeS]

theorem c_sd_eq :
    c_sd (ext h) = sd (ext (encodeS (double (x3 h) (x2 h)) (rs2' h) (rs1' h) 3 STORE)) := by
  simp [c_sd, sd, Store, RP1_ext, RP2_ext, doubleOffset_ext, RS1_encodeS, RS2_encodeS, sImm_encodeS]

end Quadrant0

section Quadrant1

variable (h : BitVec 16)

theorem imm6_zero_iff : (imm6 (x1 h) (x5 h)).signExtend 64 = 0 ↔ imm6 (x1 h) (x5 h) = 0 := by
  generalize imm6 (x1 h) (x5 h) = imm
  decide +revert

theorem extend_imm6 :
    ((imm6 (x1 h) (x5 h)).signExtend 12).signExtend 64 = (imm6 (x1 h) (x5 h)).signExtend 64 :=
  signExtend_signExtend _ (by decide) (by decide)

theorem c_addi_eq (defined : rd h = 0 ↔ imm6 (x1 h) (x5 h) = 0) :
    c_addi (ext h) =
      addi (ext (encodeI ((imm6 (x1 h) (x5 h)).signExtend 12) (rd h) 0 (rd h) OP_IMM)) := by
  have legal : ¬ ¬ (rd h = 0 ↔ (imm6 (x1 h) (x5 h)).signExtend 64 = 0) :=
    not_not.mpr (defined.trans (imm6_zero_iff h).symm)
  funext xc
  simp only [c_addi, illegalIf, RC1_ext, ciImm_ext, if_neg legal, addi, IOp, RD_encodeI,
    RS1_encodeI, iImm_encodeI, extend_imm6]

theorem c_addiw_eq (defined : rd h ≠ 0) :
    c_addiw (ext h) = compute (rd h) fun xc =>
      int64 (int32 (xc.reg (rd h))) + (imm6 (x1 h) (x5 h)).signExtend 64 := by
  funext xc
  simp only [c_addiw, illegalIf, RC1_ext, ciImm_ext, if_neg defined]

theorem addiw_eq :
    addiw (ext (encodeI ((imm6 (x1 h) (x5 h)).signExtend 12) (rd h) 0 (rd h) OP_IMM_32)) =
      compute (rd h) fun xc =>
        int64 (int32 (xc.reg (rd h)) + int32 ((imm6 (x1 h) (x5 h)).signExtend 64)) := by
  simp [addiw, IOp, RD_encodeI, RS1_encodeI, iImm_encodeI, extend_imm6]

theorem c_li_eq (defined : rd h ≠ 0) :
    c_li (ext h) = addi (ext (encodeI ((imm6 (x1 h) (x5 h)).signExtend 12) 0 0 (rd h) OP_IMM)) := by
  funext xc
  simp only [c_li, illegalIf, RC1_ext, ciImm_ext, if_neg defined, addi, IOp, RD_encodeI,
    RS1_encodeI, iImm_encodeI, extend_imm6, ExecContext.reg_zero, BitVec.zero_add]

theorem c_addi16sp_eq (defined : imm6 (x1 h) (x5 h) ≠ 0) :
    c_addi16sp (ext h) = addi (ext (encodeI (sp16 (x1 h) (x5 h)) sp 0 sp OP_IMM)) := by
  have nonzero : (sp16 (x1 h) (x5 h)).signExtend 64 ≠ 0 := by
    generalize x1 h = sign at defined ⊢
    generalize x5 h = low at defined ⊢
    decide +revert
  funext xc
  simp only [c_addi16sp, illegalIf, addi16spImm_ext, if_neg nonzero, addi, IOp, RD_encodeI,
    RS1_encodeI, iImm_encodeI]

theorem c_lui_eq (defined : imm6 (x1 h) (x5 h) ≠ 0) (hzero : rd h ≠ 0) (hsp : rd h ≠ 2) :
    c_lui (ext h) = lui (ext (encodeU ((imm6 (x1 h) (x5 h)).signExtend 20) (rd h) LUI)) := by
  have nonzero : (imm6 (x1 h) (x5 h)).signExtend 64 <<< 12 ≠ 0 := by
    generalize imm6 (x1 h) (x5 h) = imm at defined ⊢
    decide +revert
  have legal : ¬ (rd h = 0 ∨ rd h = 2 ∨ (imm6 (x1 h) (x5 h)).signExtend 64 <<< 12 = 0) := by
    simp only [hzero, hsp, nonzero, or_self, not_false_eq_true]
  have extend :
      ((imm6 (x1 h) (x5 h)).signExtend 20).signExtend 64 = (imm6 (x1 h) (x5 h)).signExtend 64 :=
    signExtend_signExtend _ (by decide) (by decide)
  funext xc
  simp only [c_lui, illegalIf, RC1_ext, cluiImm_ext, if_neg legal, lui, RD_encodeU, uImm_encodeU,
    extend]

theorem shiftImm_ne_zero (defined : imm6 (x1 h) (x5 h) ≠ 0) : shiftImm (ext h) ≠ 0 := by
  rw [shiftImm_ext]
  generalize imm6 (x1 h) (x5 h) = imm at defined ⊢
  decide +revert

theorem SHAMT6_shamt (funct6 : BitVec 6) (rs1 rd : BitVec 5) (funct3 : BitVec 3)
    (opcode : BitVec 7) :
    SHAMT6 (ext (encodeI (shamt funct6 h) rs1 funct3 rd opcode)) = shiftImm (ext h) := by
  rw [SHAMT6_encodeI, shiftImm_ext, shamt, BitVec.extractLsb'_append_eq_right]

theorem c_srli_eq (defined : imm6 (x1 h) (x5 h) ≠ 0) :
    c_srli (ext h) = srli (ext (encodeI (shamt 0 h) (rs1' h) 5 (rs1' h) OP_IMM)) := by
  funext xc
  simp only [c_srli, illegalIf, if_neg (shiftImm_ne_zero h defined), RP1_ext, srli, IOp,
    RD_encodeI, RS1_encodeI, SHAMT6_shamt]

theorem c_srai_eq (defined : imm6 (x1 h) (x5 h) ≠ 0) :
    c_srai (ext h) = srai (ext (encodeI (shamt 0x10 h) (rs1' h) 5 (rs1' h) OP_IMM)) := by
  funext xc
  simp only [c_srai, illegalIf, if_neg (shiftImm_ne_zero h defined), RP1_ext, srai, IOp,
    RD_encodeI, RS1_encodeI, SHAMT6_shamt]

theorem c_andi_eq :
    c_andi (ext h) =
      andi (ext (encodeI ((imm6 (x1 h) (x5 h)).signExtend 12) (rs1' h) 7 (rs1' h) OP_IMM)) := by
  simp [c_andi, RP1_ext, ciImm_ext, andi, IOp, RD_encodeI, RS1_encodeI, iImm_encodeI, extend_imm6]

theorem compressedOp_eq (f : RegVal → RegVal → RegVal) (funct7 : BitVec 7) (funct3 : BitVec 3)
    (opcode : BitVec 7) :
    compressedOp (ext h) f =
      ROp (ext (encodeR funct7 (rs2' h) (rs1' h) funct3 (rs1' h) opcode)) f := by
  simp [compressedOp, RP1_ext, RP2_ext, ROp, RD_encodeR, RS1_encodeR, RS2_encodeR]

theorem jump_even : (jump (x11 h)).extractLsb' 0 1 = 0#1 := by
  simp (disch := decide) only [jump, extractLsb'_signExtend,
    BitVec.extractLsb'_append_eq_of_add_le]
  rfl

theorem c_j_eq : c_j (ext h) = jal (ext (encodeJ (jump (x11 h)) 0 JAL)) := by
  funext xc
  simp only [c_j, cjImm_ext, jal, RD_encodeJ, jImm_encodeJ _ _ (jump_even h),
    ExecContext.setReg_zero]

theorem branchOffset_even : (branchOffset (x3 h) (x5 h)).extractLsb' 0 1 = 0#1 := by
  simp (disch := decide) only [branchOffset, extractLsb'_signExtend,
    BitVec.extractLsb'_append_eq_of_add_le]
  rfl

theorem c_beqz_eq :
    c_beqz (ext h) = beq (ext (encodeB (branchOffset (x3 h) (x5 h)) 0 (rs1' h) 0 BRANCH)) := by
  simp only [c_beqz, RP1_ext, cbImm_ext, beq, BOp, RS1_encodeB, RS2_encodeB,
    bImm_encodeB _ _ _ _ (branchOffset_even h), ExecContext.reg_zero]
  rfl

theorem c_bnez_eq :
    c_bnez (ext h) = Inst.bne (ext (encodeB (branchOffset (x3 h) (x5 h)) 0 (rs1' h) 1 BRANCH)) := by
  simp only [c_bnez, RP1_ext, cbImm_ext, Inst.bne, BOp, RS1_encodeB, RS2_encodeB,
    bImm_encodeB _ _ _ _ (branchOffset_even h), ExecContext.reg_zero]
  rfl

end Quadrant1

section Quadrant2

variable (h : BitVec 16)

theorem c_slli_eq (defined : ¬ (rd h = 0 ∨ imm6 (x1 h) (x5 h) = 0)) :
    c_slli (ext h) = slli (ext (encodeI (shamt 0 h) (rd h) 1 (rd h) OP_IMM)) := by
  rw [not_or] at defined
  have legal : ¬ (shiftImm (ext h) = 0 ∨ rd h = 0) := by
    rw [not_or]
    exact ⟨shiftImm_ne_zero h defined.2, defined.1⟩
  funext xc
  simp only [c_slli, illegalIf, if_neg legal, RC1_ext, slli, IOp, RD_encodeI, RS1_encodeI,
    SHAMT6_shamt]

theorem c_fldsp_eq :
    c_fldsp (ext h) = fld (ext (encodeI (doubleSp (x1 h) (x5 h)) sp 3 (rd h) LOAD_FP)) := by
  simp [c_fldsp, fld, RC1_ext, doubleSpOffset_ext, RS1_encodeI, RD_encodeI, iImm_encodeI]

theorem c_lwsp_eq (defined : rd h ≠ 0) :
    c_lwsp (ext h) = lw (ext (encodeI (wordSp (x1 h) (x5 h)) sp 2 (rd h) LOAD)) := by
  funext xc
  simp only [c_lwsp, illegalIf, RC1_ext, if_neg defined, wordSpOffset_ext, lw, Load, RS1_encodeI,
    RD_encodeI, iImm_encodeI]

theorem c_ldsp_eq (defined : rd h ≠ 0) :
    c_ldsp (ext h) = ld (ext (encodeI (doubleSp (x1 h) (x5 h)) sp 3 (rd h) LOAD)) := by
  funext xc
  simp only [c_ldsp, illegalIf, RC1_ext, if_neg defined, doubleSpOffset_ext, ld, Load,
    RS1_encodeI, RD_encodeI, iImm_encodeI, id]

theorem c_jr_eq (defined : rd h ≠ 0) :
    c_jr (ext h) = fun xc => .ok (xc.setNPC (xc.reg (rd h))) := by
  funext xc
  simp only [c_jr, illegalIf, RC1_ext, if_neg defined]

theorem c_jalr_eq (defined : rd h ≠ 0) :
    c_jalr (ext h) = fun xc => .ok ((xc.setReg ra xc.npc).setNPC (xc.reg (rd h))) := by
  funext xc
  simp only [c_jalr, illegalIf, RC1_ext, if_neg defined]

theorem jalr_eq (link rs1 : BitVec 5) :
    jalr (ext (encodeI 0 rs1 0 link JALR)) = fun xc =>
      .ok ((xc.setReg link xc.npc).setNPC (xc.reg rs1 &&& ~~~1)) := by
  funext xc
  simp [jalr, RD_encodeI, RS1_encodeI, iImm_encodeI]

theorem c_mv_eq (defined : rd h ≠ 0) :
    c_mv (ext h) = add (ext (encodeR 0 (rs2 h) 0 0 (rd h) OP)) := by
  funext xc
  simp only [c_mv, illegalIf, RC1_ext, RC2_ext, if_neg defined, add, ROp, RD_encodeR, RS1_encodeR,
    RS2_encodeR, ExecContext.reg_zero, BitVec.zero_add]

theorem c_add_eq : c_add (ext h) = add (ext (encodeR 0 (rs2 h) (rd h) 0 (rd h) OP)) := by
  simp [c_add, RC1_ext, RC2_ext, add, ROp, RD_encodeR, RS1_encodeR, RS2_encodeR]

theorem c_fsdsp_eq :
    c_fsdsp (ext h) = fsd (ext (encodeS (doubleSpStore (x6 h)) (rs2 h) sp 3 STORE_FP)) := by
  simp [c_fsdsp, fsd, RC2_ext, doubleSpStoreOffset_ext, RS1_encodeS, RS2_encodeS, sImm_encodeS]

theorem c_swsp_eq :
    c_swsp (ext h) = sw (ext (encodeS (wordSpStore (x6 h)) (rs2 h) sp 2 STORE)) := by
  simp [c_swsp, sw, Store, RC2_ext, wordSpStoreOffset_ext, RS1_encodeS, RS2_encodeS, sImm_encodeS]

theorem c_sdsp_eq :
    c_sdsp (ext h) = sd (ext (encodeS (doubleSpStore (x6 h)) (rs2 h) sp 3 STORE)) := by
  simp [c_sdsp, sd, Store, RC2_ext, doubleSpStoreOffset_ext, RS1_encodeS, RS2_encodeS, sImm_encodeS]

end Quadrant2

section Agreement

/-- The two encodings are decoded, and their instructions do the same in `xc`. -/
def Agrees (h : BitVec 16) (w : BitVec 32) (xc : ExecContext) : Prop :=
  ∃ c e, decodeInst (ext h) = some c ∧ decodeInst (ext w) = some e ∧ c xc = e xc

/-- `c.addiw` -/
def isAddiw (h : BitVec 16) : Prop := h.extractLsb' 0 2 = 1#2 ∧ h.extractLsb' 13 3 = 1#3

/-- `c.jr` and `c.jalr` -/
def isJumpReg (h : BitVec 16) : Prop :=
  h.extractLsb' 0 2 = 2#2 ∧ h.extractLsb' 13 3 = 4#3 ∧ rs2 h = 0

instance (h : BitVec 16) : Decidable (isAddiw h) := inferInstanceAs (Decidable (_ ∧ _))

instance (h : BitVec 16) : Decidable (isJumpReg h) := inferInstanceAs (Decidable (_ ∧ _ ∧ _))

/-- The exact 32-bit sum of `c.addiw`. -/
def addiwSum (h : BitVec 16) (xc : ExecContext) : Int :=
  (int32 (xc.reg (rd h))).toInt + (imm6 (x1 h) (x5 h)).toInt

/-- The sum fits 32 bits, and the jump target is even. -/
def InRange (h : BitVec 16) (xc : ExecContext) : Prop :=
  (isAddiw h → -2 ^ 31 ≤ addiwSum h xc ∧ addiwSum h xc < 2 ^ 31) ∧
    (isJumpReg h → (xc.reg (rd h)).getLsbD 0 = false)

instance (h : BitVec 16) (xc : ExecContext) : Decidable (InRange h xc) :=
  inferInstanceAs (Decidable ((_ → _) ∧ (_ → _)))

variable {h : BitVec 16} {w : BitVec 32} (xc : ExecContext)

theorem agrees_iff {c e : Execute} (hc : decodeInst (ext h) = some c)
    (he : decodeInst (ext w) = some e) : Agrees h w xc ↔ c xc = e xc := by
  constructor
  · rintro ⟨c', e', hc', he', same⟩
    rw [hc, Option.some.injEq] at hc'
    rw [he, Option.some.injEq] at he'
    rw [hc', he', same]
  · intro same
    exact ⟨c, e, hc, he, same⟩

theorem Agrees.of_eq {c e : Execute} (hc : decodeInst (ext h) = some c)
    (he : decodeInst (ext w) = some e) (same : c = e) : Agrees h w xc :=
  ⟨c, e, hc, he, congrFun same xc⟩

theorem toNat_ext {n : Nat} (fits : n ≤ 64) (v : BitVec n) : (ext v).toNat = v.toNat := by
  rw [ext, BitVec.toNat_setWidth]
  exact Nat.mod_eq_of_lt (lt_of_lt_of_le v.isLt (Nat.pow_le_pow_right (by decide) fits))

theorem toNat_COPCODE (h : BitVec 16) : (COPCODE (ext h)).toNat = (h.extractLsb' 13 3).toNat := by
  rw [COPCODE, bits_ext (by decide), toNat_ext (by decide)]

theorem toNat_QUADRANT (h : BitVec 16) : (QUADRANT (ext h)).toNat = (h.extractLsb' 0 2).toNat := by
  rw [QUADRANT, bits_ext (by decide), toNat_ext (by decide)]

theorem toNat_CFUNCT2HIGH (h : BitVec 16) :
    (CFUNCT2HIGH (ext h)).toNat = (h.extractLsb' 10 2).toNat := by
  rw [CFUNCT2HIGH, bits_ext (by decide), toNat_ext (by decide)]

theorem toNat_CFUNCT1 (h : BitVec 16) : (CFUNCT1 (ext h)).toNat = (x1 h).toNat := by
  rw [CFUNCT1, bits_ext (by decide), toNat_ext (by decide)]
  rfl

theorem toNat_CFUNCT2LOW (h : BitVec 16) : (CFUNCT2LOW (ext h)).toNat = (x2 h).toNat := by
  rw [CFUNCT2LOW, bits_ext (by decide), toNat_ext (by decide)]
  rfl

theorem agrees0 (quadrant : (h.extractLsb' 0 2).toNat = 0) (hw : expand0 h = some w) :
    Agrees h w xc := by
  have decode : decodeInst (ext h) = decodeQuadrant0 (ext h) := by
    simp [decodeInst, toNat_QUADRANT, quadrant]
  rw [decodeQuadrant0, toNat_COPCODE] at decode
  unfold expand0 at hw
  split at hw <;> rename_i copcode
  · split at hw
    · cases hw
    · rename_i defined
      cases hw
      rw [copcode] at decode
      exact .of_eq xc decode (decode_addi ..) (c_addi4spn_eq h defined)
  · cases hw
    rw [copcode] at decode
    exact .of_eq xc decode (decode_fld ..) (c_fld_eq h)
  · cases hw
    rw [copcode] at decode
    exact .of_eq xc decode (decode_lw ..) (c_lw_eq h)
  · cases hw
    rw [copcode] at decode
    exact .of_eq xc decode (decode_ld ..) (c_ld_eq h)
  · cases hw
    rw [copcode] at decode
    exact .of_eq xc decode (decode_fsd ..) (c_fsd_eq h)
  · cases hw
    rw [copcode] at decode
    exact .of_eq xc decode (decode_sw ..) (c_sw_eq h)
  · cases hw
    rw [copcode] at decode
    exact .of_eq xc decode (decode_sd ..) (c_sd_eq h)
  · cases hw

theorem agreesOp (decode : decodeInst (ext h) = decodeArith (ext h))
    (funct2 : (h.extractLsb' 10 2).toNat = 3) (hw : expandOp h = some w) : Agrees h w xc := by
  simp only [decodeArith, toNat_CFUNCT2HIGH, funct2, toNat_CFUNCT1, toNat_CFUNCT2LOW] at decode
  unfold expandOp at hw
  split at hw <;> rename_i funct1 funct2Low
  · cases hw
    rw [funct1, funct2Low] at decode
    exact .of_eq xc decode (decode_sub ..) (compressedOp_eq ..)
  · cases hw
    rw [funct1, funct2Low] at decode
    exact .of_eq xc decode (decode_xor ..) (compressedOp_eq ..)
  · cases hw
    rw [funct1, funct2Low] at decode
    exact .of_eq xc decode (decode_or ..) (compressedOp_eq ..)
  · cases hw
    rw [funct1, funct2Low] at decode
    exact .of_eq xc decode (decode_and ..) (compressedOp_eq ..)
  · cases hw
    rw [funct1, funct2Low] at decode
    exact .of_eq xc decode (decode_subw ..) (compressedOp_eq ..)
  · cases hw
    rw [funct1, funct2Low] at decode
    exact .of_eq xc decode (decode_addw ..) (compressedOp_eq ..)
  · cases hw

theorem shamt_type (funct6 : BitVec 6) (h : BitVec 16) :
    (shamt funct6 h).extractLsb' 10 1 = funct6.extractLsb' 4 1 := by
  rw [shamt, BitVec.extractLsb'_append_eq_of_le (by decide)]

theorem agreesArith (decode : decodeInst (ext h) = decodeArith (ext h))
    (hw : expandArith h = some w) : Agrees h w xc := by
  have table := decode
  rw [decodeArith, toNat_CFUNCT2HIGH] at table
  unfold expandArith at hw
  split at hw <;> rename_i funct2
  · rw [funct2] at table
    split at hw
    · cases hw
    · rename_i defined
      cases hw
      exact .of_eq xc table (decode_srli _ _ (shamt_type ..)) (c_srli_eq h defined)
  · rw [funct2] at table
    split at hw
    · cases hw
    · rename_i defined
      cases hw
      exact .of_eq xc table (decode_srai _ _ (shamt_type ..)) (c_srai_eq h defined)
  · rw [funct2] at table
    cases hw
    exact .of_eq xc table (decode_andi ..) (c_andi_eq h)
  · grind [agreesOp]

theorem setReg_inj {r : BitVec 5} (hr : r ≠ 0) {v v' : RegVal}
    (same : xc.setReg r v = xc.setReg r v') : v = v' := by
  have : (xc.setReg r v).reg r = (xc.setReg r v').reg r := by rw [same]
  simpa only [ExecContext.setReg, ExecContext.reg, IntRegs.write, Function.update_of_ne hr,
    Function.update_self] using this

theorem int32_signExtend {n : Nat} (imm : BitVec n) :
    int32 (imm.signExtend 64) = imm.signExtend 32 := by
  rw [int32]
  apply BitVec.eq_of_getLsbD_eq
  intro i hi
  have : i < 64 := by omega
  simp only [BitVec.getLsbD_setWidth, BitVec.getLsbD_signExtend, this, decide_true, Bool.true_and]

theorem int64_add_iff (a : BitVec 32) (imm : BitVec 6) :
    int64 a + imm.signExtend 64 = int64 (a + imm.signExtend 32) ↔
      -2 ^ 31 ≤ a.toInt + imm.toInt ∧ a.toInt + imm.toInt < 2 ^ 31 := by
  rw [← BitVec.toInt_inj, BitVec.toInt_add, int64, int64,
    BitVec.toInt_signExtend_of_le (by decide), BitVec.toInt_signExtend_of_le (by decide),
    BitVec.toInt_signExtend_of_le (by decide), BitVec.toInt_add,
    BitVec.toInt_signExtend_of_le (by decide)]
  constructor
  · grind
  · grind

theorem agreesAddiw (decode : decodeInst (ext h) = some (c_addiw (ext h))) (defined : rd h ≠ 0) :
    Agrees h (encodeI ((imm6 (x1 h) (x5 h)).signExtend 12) (rd h) 0 (rd h) OP_IMM_32) xc ↔
      -2 ^ 31 ≤ addiwSum h xc ∧ addiwSum h xc < 2 ^ 31 := by
  rw [agrees_iff xc decode (decode_addiw ..), c_addiw_eq h defined, addiw_eq, compute, compute,
    int32_signExtend, addiwSum, ← int64_add_iff, Except.ok.injEq]
  constructor
  · exact setReg_inj xc defined
  · intro same
    rw [same]

theorem and_not_one_iff (v : RegVal) : v = v &&& ~~~1 ↔ v.getLsbD 0 = false := by
  constructor
  · intro same
    rw [same]
    simp
  · intro even
    apply BitVec.eq_of_getLsbD_eq
    intro i hi
    rw [BitVec.getLsbD_and, BitVec.getLsbD_not]
    by_cases h0 : i = 0
    · rw [h0, even]
      rfl
    · simp [hi, h0]

theorem setNPC_iff (v : RegVal) :
    (Except.ok (xc.setNPC v) : Except RiscvFault ExecContext) = .ok (xc.setNPC (v &&& ~~~1)) ↔
      v.getLsbD 0 = false := by
  rw [← and_not_one_iff, Except.ok.injEq]
  constructor
  · intro same
    exact congrArg ExecContext.npc same
  · intro same
    rw [← same]

theorem agreesJump {c : Execute} {link : BitVec 5} (decode : decodeInst (ext h) = some c)
    (target : c = fun xc => .ok ((xc.setReg link xc.npc).setNPC (xc.reg (rd h)))) :
    Agrees h (encodeI 0 (rd h) 0 link JALR) xc ↔ (xc.reg (rd h)).getLsbD 0 = false := by
  rw [agrees_iff xc decode (decode_jalr ..), target, jalr_eq]
  exact setNPC_iff _ _

section InRange

theorem isAddiw_iff : isAddiw h ↔ (h.extractLsb' 0 2).toNat = 1 ∧ (h.extractLsb' 13 3).toNat = 1 := by
  rw [isAddiw, ← BitVec.toNat_inj, ← BitVec.toNat_inj]
  rfl

theorem isJumpReg_iff :
    isJumpReg h ↔ (h.extractLsb' 0 2).toNat = 2 ∧ (h.extractLsb' 13 3).toNat = 4 ∧ rs2 h = 0 := by
  rw [isJumpReg, ← BitVec.toNat_inj, ← BitVec.toNat_inj]
  rfl

theorem inRange_of_not (addiw : ¬ isAddiw h) (jump : ¬ isJumpReg h) : InRange h xc :=
  ⟨fun is => absurd is addiw, fun is => absurd is jump⟩

theorem inRange_addiw (addiw : isAddiw h) :
    InRange h xc ↔ -2 ^ 31 ≤ addiwSum h xc ∧ addiwSum h xc < 2 ^ 31 := by
  constructor
  · intro range
    exact range.1 addiw
  · intro range
    refine ⟨fun _ => range, fun jump => ?_⟩
    have := addiw.1.symm.trans jump.1
    contradiction

theorem inRange_jump (jump : isJumpReg h) : InRange h xc ↔ (xc.reg (rd h)).getLsbD 0 = false := by
  constructor
  · intro range
    exact range.2 jump
  · intro range
    refine ⟨fun addiw => ?_, fun _ => range⟩
    have := addiw.1.symm.trans jump.1
    contradiction

end InRange

theorem agrees1 (quadrant : (h.extractLsb' 0 2).toNat = 1) (hw : expand1 h = some w) :
    Agrees h w xc ↔ InRange h xc := by
  have decode : decodeInst (ext h) = decodeQuadrant1 (ext h) := by
    simp [decodeInst, toNat_QUADRANT, quadrant]
  rw [decodeQuadrant1, toNat_COPCODE, RC1_ext] at decode
  have notJump : ¬ isJumpReg h := by
    rw [isJumpReg_iff]
    omega
  have always (copcode : (h.extractLsb' 13 3).toNat ≠ 1) (same : Agrees h w xc) :
      Agrees h w xc ↔ InRange h xc := by
    refine iff_of_true same (inRange_of_not xc ?_ notJump)
    rw [isAddiw_iff]
    omega
  unfold expand1 at hw
  dsimp only at hw
  split at hw <;> rename_i copcode
  · split at hw
    · rename_i defined
      cases hw
      rw [copcode] at decode
      exact always (by omega) (.of_eq xc decode (decode_addi ..) (c_addi_eq h defined))
    · cases hw
  · split at hw
    · cases hw
    · rename_i defined
      cases hw
      rw [copcode] at decode
      rw [inRange_addiw xc (isAddiw_iff.mpr ⟨quadrant, copcode⟩)]
      exact agreesAddiw xc decode defined
  · split at hw
    · cases hw
    · rename_i defined
      cases hw
      rw [copcode] at decode
      exact always (by omega) (.of_eq xc decode (decode_addi ..) (c_li_eq h defined))
  · rw [copcode] at decode
    split at hw
    · cases hw
    · rename_i defined
      split at hw
      · rename_i hsp
        cases hw
        simp only [if_pos hsp] at decode
        exact always (by omega) (.of_eq xc decode (decode_addi ..) (c_addi16sp_eq h defined))
      · rename_i hsp
        split at hw
        · cases hw
        · rename_i hzero
          cases hw
          simp only [if_neg hsp] at decode
          exact always (by omega)
            (.of_eq xc decode (decode_lui ..) (c_lui_eq h defined hzero hsp))
  · grind [agreesArith]
  · cases hw
    rw [copcode] at decode
    exact always (by omega) (.of_eq xc decode (decode_jal ..) (c_j_eq h))
  · cases hw
    rw [copcode] at decode
    exact always (by omega) (.of_eq xc decode (decode_beq ..) (c_beqz_eq h))
  · cases hw
    rw [copcode] at decode
    exact always (by omega) (.of_eq xc decode (decode_bne ..) (c_bnez_eq h))
  · cases hw

theorem CFUNCT1_eq_zero_iff (h : BitVec 16) : CFUNCT1 (ext h) = 0 ↔ x1 h = 0 := by
  rw [← BitVec.toNat_inj, toNat_CFUNCT1, ← BitVec.toNat_inj]
  rfl

theorem agreesReg (quadrant : (h.extractLsb' 0 2).toNat = 2)
    (copcode : (h.extractLsb' 13 3).toNat = 4) (defined : rd h ≠ 0) (hw : (if rs2 h = 0 then some
    (encodeI 0 (rd h) 0 (if x1 h = 0 then 0 else ra) JALR) else some (encodeR 0 (rs2 h) (if x1 h = 0
    then 0 else rd h) 0 (rd h) OP)) = some w) : Agrees h w xc ↔ InRange h xc := by
  have decode : decodeInst (ext h) =
      if x1 h = 0 then some (if rs2 h = 0 then c_jr (ext h) else c_mv (ext h))
      else some (if rs2 h = 0 then c_jalr (ext h) else c_add (ext h)) := by
    simp only [decodeInst, toNat_QUADRANT, quadrant, decodeQuadrant2, toNat_COPCODE, copcode,
      RC1_ext, RC2_ext, CFUNCT1_eq_zero_iff, if_neg defined]
  by_cases target : rs2 h = 0
  · simp only [if_pos target, Option.some.injEq] at hw decode
    rw [inRange_jump xc (isJumpReg_iff.mpr ⟨quadrant, copcode, target⟩)]
    by_cases plain : x1 h = 0
    · rw [if_pos plain] at hw decode
      subst hw
      refine agreesJump xc decode ?_
      simp only [c_jr_eq h defined, ExecContext.setReg_zero]
    · rw [if_neg plain] at hw decode
      subst hw
      exact agreesJump xc decode (c_jalr_eq h defined)
  · simp only [if_neg target, Option.some.injEq] at hw decode
    have always (same : Agrees h w xc) : Agrees h w xc ↔ InRange h xc := by
      refine iff_of_true same (inRange_of_not xc ?_ fun jump => target jump.2.2)
      rw [isAddiw_iff]
      omega
    by_cases plain : x1 h = 0
    · rw [if_pos plain] at hw decode
      subst hw
      exact always (.of_eq xc decode (decode_add ..) (c_mv_eq h defined))
    · rw [if_neg plain] at hw decode
      subst hw
      exact always (.of_eq xc decode (decode_add ..) (c_add_eq h))

theorem agrees2 (quadrant : (h.extractLsb' 0 2).toNat = 2) (hw : expand2 h = some w) :
    Agrees h w xc ↔ InRange h xc := by
  have decode : decodeInst (ext h) = decodeQuadrant2 (ext h) := by
    simp [decodeInst, toNat_QUADRANT, quadrant]
  rw [decodeQuadrant2, toNat_COPCODE] at decode
  have always (copcode : (h.extractLsb' 13 3).toNat ≠ 4) (same : Agrees h w xc) :
      Agrees h w xc ↔ InRange h xc := by
    apply iff_of_true same
    apply inRange_of_not
    · rw [isAddiw_iff]
      omega
    · rw [isJumpReg_iff]
      omega
  unfold expand2 at hw
  split at hw <;> rename_i copcode
  · split at hw
    · cases hw
    · rename_i defined
      cases hw
      rw [copcode] at decode
      exact always (by omega) (.of_eq xc decode (decode_slli ..) (c_slli_eq h defined))
  · cases hw
    rw [copcode] at decode
    exact always (by omega) (.of_eq xc decode (decode_fld ..) (c_fldsp_eq h))
  · split at hw
    · cases hw
    · rename_i defined
      cases hw
      rw [copcode] at decode
      exact always (by omega) (.of_eq xc decode (decode_lw ..) (c_lwsp_eq h defined))
  · split at hw
    · cases hw
    · rename_i defined
      cases hw
      rw [copcode] at decode
      exact always (by omega) (.of_eq xc decode (decode_ld ..) (c_ldsp_eq h defined))
  · grind [agreesReg]
  · cases hw
    rw [copcode] at decode
    exact always (by omega) (.of_eq xc decode (decode_fsd ..) (c_fsdsp_eq h))
  · cases hw
    rw [copcode] at decode
    exact always (by omega) (.of_eq xc decode (decode_sw ..) (c_swsp_eq h))
  · cases hw
    rw [copcode] at decode
    exact always (by omega) (.of_eq xc decode (decode_sd ..) (c_sdsp_eq h))
  · cases hw

/-- A compressed instruction does what its expansion does, unless it is a `c.addiw` whose sum
overflows a word or a jump through a register that holds an odd address. -/
theorem compressed_equals_expansion (h : BitVec 16) (w : BitVec 32) (hw : expand h = some w)
    (xc : ExecContext) :
    Agrees h w (xc.setNPC (xc.pc + 2)) ↔ InRange h xc := by
  have same : InRange h (xc.setNPC (xc.pc + 2)) ↔ InRange h xc := Iff.rfl
  rw [← same]
  unfold expand at hw
  split at hw <;> rename_i quadrant
  · refine iff_of_true (agrees0 _ quadrant hw) (inRange_of_not _ ?_ ?_)
    · rw [isAddiw_iff]
      omega
    · rw [isJumpReg_iff]
      omega
  · exact agrees1 _ quadrant hw
  · exact agrees2 _ quadrant hw
  · cases hw

/-- A hart with `x10` set, in a memory that no access faults in. -/
def withA0 (v : RegVal) : ExecContext where
  intReg := (⟨fun _ => 0, rfl⟩ : IntRegs).write 10 v
  floatReg := fun _ => 0
  pc := 0x1000
  npc := 0x1000
  mem := ⟨fun _ => 0, fun _ _ _ => none⟩

/-- `c.addiw a0, 1` is `0x2505` and expands to `addiw a0, a0, 1`. -/
theorem compressed_equals_expansion_addiw :
    expand 0x2505#16 = some 0x0015051b#32 ∧
      Agrees 0x2505#16 0x0015051b#32 ((withA0 7).setNPC 0x1002) :=
  ⟨by decide, (compressed_equals_expansion 0x2505#16 0x0015051b#32 (by decide) (withA0 7)).mpr
    (by decide)⟩

theorem c_addiw_overflows :
    ¬ ∀ (h : BitVec 16) (w : BitVec 32), expand h = some w →
      ∀ xc : ExecContext, Agrees h w (xc.setNPC (xc.pc + 2)) := by
  intro all
  have same := all 0x2505#16 0x0015051b#32 (by decide) (withA0 0x7fffffff)
  have range := (agrees1 _ (by decide) (by decide)).mp same
  exact absurd range (by decide)

end Agreement

end Gem5.Riscv.Expansion
