import RiscForge.Rtl.Lanes

/-! One cycle of `top` is the manual's effect of the decoded instruction. -/
namespace RiscForge.Rtl

open Lib Isa

section Units
variable (a b : Word)

/-- The ALU operation an `Op` is decoded to. -/
def aluOpOf : Op → AluOp
  | .add => .add
  | .sub => .sub
  | .sll => .sll
  | .slt => .slt
  | .sltu => .sltu
  | .xor => .xor
  | .srl => .srl
  | .sra => .sra
  | .or => .or
  | .and => .and

theorem alu_eq (o : Op) : alu a b (aluOpOf o) = o.eval a b := by
  have hs : (b.extractLsb' 0 5).toNat = b.toNat % 32 := by
    rw [BitVec.extractLsb'_toNat, Nat.shiftRight_zero]
  cases o <;> simp [alu, aluOpOf, Op.eval, hs, BitVec.slt, BitVec.ult]

def branchOpOf : F3Branch → BranchOp
  | .beq => .eq
  | .bne => .ne
  | .blt => .lt
  | .bge => .ge
  | .bltu => .ltu
  | .bgeu => .geu

theorem branchUnit_eq (c : F3Branch) : branchUnit (branchOpOf c) a b = branchCond a b c := by
  rw [Bool.eq_iff_iff]
  cases c <;> simp [branchUnit, branchOpOf, branchCond, BitVec.slt, BitVec.ult]

end Units

section Control

/-- The control bundle of a decoded instruction. -/
def controlOf : Insn → Control
  | .lui _ _ => { nopCtrl with regWrite := true, aluOp := .passB, aluSrcB := .imm }
  | .auipc _ _ => { nopCtrl with regWrite := true, aluSrcA := .pc, aluSrcB := .imm }
  | .jal _ _ =>
    { nopCtrl with
      regWrite := true, wbSrc := .pc4, aluSrcA := .pc, aluSrcB := .imm, branchOp := .jump }
  | .jalr _ _ _ =>
    { nopCtrl with
      regWrite := true, wbSrc := .pc4, aluSrcB := .imm, branchOp := .jump, jalr := true }
  | .branch c _ _ _ =>
    { nopCtrl with aluSrcA := .pc, aluSrcB := .imm, branchOp := branchOpOf c }
  | .load k _ _ _ =>
    { nopCtrl with
      regWrite := true, wbSrc := .mem, aluSrcB := .imm, memRead := true,
      memSize := loadMemSize k, memUnsigned := loadUnsigned k }
  | .store k _ _ _ =>
    { nopCtrl with aluSrcB := .imm, memWrite := true, memSize := storeMemSize k }
  | .opImm o _ _ _ => { nopCtrl with regWrite := true, aluSrcB := .imm, aluOp := aluOpOf o }
  | .op o _ _ _ => { nopCtrl with regWrite := true, aluOp := aluOpOf o }
  | .fence | .ecall | .ebreak => nopCtrl

variable {w : Word} {i : Insn}

theorem decodeReg_eq {f3 : BitVec 3} {f7 : BitVec 7} {f : F3Op} {o : Op}
    (hk : BitEnum.ofBits f3 = some f) (ho : decodeOp f f7 = some o) :
    decodeReg f3 f7 = { nopCtrl with regWrite := true, aluOp := aluOpOf o } := by
  have hne : (0#7 : BitVec 7) ≠ f7Alt := by decide
  cases f with
  | addSub | sr =>
    simp only [decodeOp] at ho
    split at ho
    case isTrue h0 =>
      cases ho
      simp [decodeReg, hk, h0, hne, nopCtrl, aluOpOf]
    case isFalse h0 =>
      split at ho
      case isTrue h1 =>
        cases ho
        simp [decodeReg, hk, h1, nopCtrl, aluOpOf]
      case isFalse => cases ho
  | _ =>
    cases ho
    simp [decodeReg, hk, nopCtrl, aluOpOf]

theorem decodeImm_eq {f3 : BitVec 3} {f7 : BitVec 7} {f : F3Op} {o : Op}
    (hk : BitEnum.ofBits f3 = some f) (ho : decodeOpImm f f7 = some o) :
    decodeImm f3 f7 = { nopCtrl with regWrite := true, aluSrcB := .imm, aluOp := aluOpOf o } := by
  have hne : (0#7 : BitVec 7) ≠ f7Alt := by decide
  cases f with
  | sr =>
    simp only [decodeOpImm, decodeOp, reduceCtorEq, if_false] at ho
    split at ho
    case isTrue h0 =>
      cases ho
      simp [decodeImm, hk, h0, hne, nopCtrl, aluOpOf]
    case isFalse h0 =>
      split at ho
      case isTrue h1 =>
        cases ho
        simp [decodeImm, hk, h1, nopCtrl, aluOpOf]
      case isFalse => cases ho
  | _ =>
    cases ho
    simp [decodeImm, hk, nopCtrl, aluOpOf]

theorem decoder_eq (h : Decodes w i) : decoder w = controlOf i := by
  cases h with
  | lui ho | auipc ho | jal ho | jalr ho | fence ho => simp [decoder, ho, controlOf, nopCtrl]
  | @branch c ho hk =>
    cases c <;> simp [decoder, ho, decodeBranch, hk, controlOf, nopCtrl, branchOpOf]
  | @load k ho hk =>
    cases k <;>
      simp [decoder, ho, decodeLoad, hk, controlOf, nopCtrl, loadMemSize, loadUnsigned]
  | @store k ho hk =>
    cases k <;> simp [decoder, ho, decodeStore, hk, controlOf, nopCtrl, storeMemSize]
  | opImm ho hk hop =>
    simp only [decoder, ho, decodeImm_eq hk hop]
    rfl
  | op ho hk hop =>
    simp only [decoder, ho, decodeReg_eq hk hop]
    rfl
  | ecall ho h3 | ebreak ho h3 => simp [decoder, ho, h3, controlOf]

end Control

section Next
variable {p : Params} {t : Top p} {i : Insn}

theorem ctrl_eq (h : Decodes t.inst i) : t.ctrl = controlOf i := decoder_eq h

/-- The next pc is the manual's, with no check of the target. -/
theorem nextPc_of_decodes (h : Decodes t.inst i) :
    t.nextPc = (i.target t.pc t.xregs.get).getD (t.pc + 4#32) := by
  have hc := ctrl_eq h
  cases h with
  | jal ho =>
    simp [Top.nextPc, Top.branchTaken, hc, controlOf, nopCtrl, branchUnit, Insn.target, Top.aluY,
      Top.aluA, Top.aluB, alu, Top.imm, immGen, ho]
  | jalr ho =>
    simp [Top.nextPc, Top.branchTaken, hc, controlOf, nopCtrl, branchUnit, Insn.target, Top.aluY,
      Top.aluA, Top.aluB, alu, Top.imm, immGen, ho, Top.rs1Val]
  | @branch c ho hk =>
    have ht : t.branchTaken =
        branchCond (t.xregs.get (rs1Idx t.inst)) (t.xregs.get (rs2Idx t.inst)) c := by
      rw [Top.branchTaken, hc, ← branchUnit_eq]
      rfl
    cases hb : branchCond (t.xregs.get (rs1Idx t.inst)) (t.xregs.get (rs2Idx t.inst)) c with
    | true =>
      simp [Top.nextPc, ht, hb, hc, controlOf, nopCtrl, Insn.target, Top.aluY, Top.aluA, Top.aluB,
        alu, Top.imm, immGen, ho]
    | false => simp [Top.nextPc, ht, hb, Insn.target, Top.pcPlus4]
  | _ =>
    simp [Top.nextPc, Top.branchTaken, hc, controlOf, nopCtrl, branchUnit, Insn.target, Top.pcPlus4]

/-- The request a load puts to the data memory. -/
theorem dmemIn_load {k : F3Load} {rd rs1 : BitVec 5} {imm : Word}
    (h : Decodes t.inst (.load k rd rs1 imm)) :
    t.dmemIn = ⟨t.xregs.get rs1 + imm, t.rs2Val, true, false, loadMemSize k, loadUnsigned k⟩ := by
  have hc := ctrl_eq h
  cases h with
  | load ho hk =>
    simp [Top.dmemIn, hc, controlOf, nopCtrl, Top.aluY, Top.aluA, Top.aluB, alu, Top.imm, immGen, ho,
      Top.rs1Val]

/-- The request a store puts to it. -/
theorem dmemIn_store {k : F3Store} {rs1 rs2 : BitVec 5} {imm : Word} (hq : t.haltedQ = false)
    (h : Decodes t.inst (.store k rs1 rs2 imm)) :
    t.dmemIn = ⟨t.xregs.get rs1 + imm, t.xregs.get rs2, false, true, storeMemSize k, false⟩ := by
  have hc := ctrl_eq h
  cases h with
  | store ho hk =>
    simp [Top.dmemIn, hc, controlOf, nopCtrl, Top.aluY, Top.aluA, Top.aluB, alu, Top.imm, immGen, ho,
      Top.rs1Val, Top.rs2Val, hq]

/-- Every other instruction leaves the data memory alone. -/
theorem dmemIn_other (h : Decodes t.inst i) (ha : i.access t.xregs.get = none) :
    t.dmemIn.memRead = false ∧ t.dmemIn.memWrite = false := by
  have hc := ctrl_eq h
  cases h with
  | load | store => cases ha
  | _ => simp [Top.dmemIn, hc, controlOf, nopCtrl]

/-- A load that is not from MMIO writes what its address, rounded down, holds. -/
theorem xregs_of_load {k : F3Load} {rd rs1 : BitVec 5} {imm : Word}
    (h : Decodes t.inst (.load k rd rs1 imm)) (hm : t.dmemIn.isMmio p = false) :
    t.next.xregs = writePort t.xregs true rd
      (loadValue (byteOf t.dmem) (alignDown (t.xregs.get rs1 + imm) (loadSize k)) k) := by
  have hc := ctrl_eq h
  have hin := dmemIn_load h
  have hread := readData_alignDown p t.dmem k (by rw [hin]) hm (by rw [hin]) (by rw [hin])
  rw [hin] at hread
  rw [Top.next_xregs]
  cases h with
  | load ho hk => simp [hc, controlOf, nopCtrl, Top.wbData, Top.dmemRdata, hin, hread]

/-- The register write is the manual's, if a load is aligned and not from MMIO. -/
theorem xregs_of_decodes (h : Decodes t.inst i)
    (hl : ∀ k rd rs1 imm, i = .load k rd rs1 imm →
      t.dmemIn.isMmio p = false ∧ (t.xregs.get rs1 + imm).toNat % loadSize k = 0) :
    t.next.xregs = match i.result t.pc t.xregs.get (byteOf t.dmem) with
      | some (rd, v) => writePort t.xregs true rd v
      | none => t.xregs := by
  have hc := ctrl_eq h
  rw [Top.next_xregs]
  cases h with
  | @load k ho hk =>
    obtain ⟨hm, ha⟩ := hl _ _ _ _ rfl
    rw [← Top.next_xregs, xregs_of_load (.load ho hk) hm, alignDown_of_aligned ha]
    rfl
  | lui ho | auipc ho | jal ho | jalr ho =>
    simp [hc, controlOf, nopCtrl, Top.wbData, Top.aluY, Top.aluA, Top.aluB, alu, Top.imm, immGen, ho,
      Insn.result, Top.pcPlus4]
  | opImm ho =>
    simp [hc, controlOf, nopCtrl, Top.wbData, Top.aluY, Top.aluA, Top.aluB, alu_eq, Top.imm, immGen,
      ho, Insn.result, Top.rs1Val]
  | op ho =>
    simp [hc, controlOf, nopCtrl, Top.wbData, Top.aluY, Top.aluA, Top.aluB, alu_eq, Insn.result,
      Top.rs1Val, Top.rs2Val]
  | _ => simp [hc, controlOf, nopCtrl, Insn.result, writePort_of_not]

theorem illegal_of_decodes (h : Decodes t.inst i) : t.ctrl.illegal = false := by
  rw [ctrl_eq h]
  cases i <;> rfl

theorem isEcall_of_decodes (h : Decodes t.inst i) : isEcall t.inst = decide (i = .ecall) := by
  cases h <;> simp_all [isEcall, isSystem]
  decide

theorem isEbreak_of_decodes (h : Decodes t.inst i) : isEbreak t.inst = decide (i = .ebreak) := by
  cases h <;> simp_all [isEbreak, isSystem]
  decide

end Next
end RiscForge.Rtl
