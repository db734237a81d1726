import RiscForge.Rtl.Units

/-! What the decoder can put in a control bundle, and the operand reads that go with it. -/
namespace RiscForge.Rtl

open Lib

/-- The bundles `decoder` produces, one constructor for each group of encodings. -/
inductive Decoded (inst : Word) : Control → Prop
  | lui (ho : opcode inst = some .lui) :
      Decoded inst { nopCtrl with regWrite := true, aluOp := .passB, aluSrcB := .imm }
  | auipc (ho : opcode inst = some .auipc) :
      Decoded inst { nopCtrl with regWrite := true, aluSrcA := .pc, aluSrcB := .imm }
  | jal (ho : opcode inst = some .jal) :
      Decoded inst { nopCtrl with
        regWrite := true, wbSrc := .pc4, aluSrcA := .pc, aluSrcB := .imm, branchOp := .jump }
  | jalr (ho : opcode inst = some .jalr) :
      Decoded inst { nopCtrl with
        regWrite := true, wbSrc := .pc4, aluSrcB := .imm, branchOp := .jump, jalr := true }
  | branch (ho : opcode inst = some .branch) (op : BranchOp) (hn : op ≠ .none) (hj : op ≠ .jump) :
      Decoded inst { nopCtrl with aluSrcA := .pc, aluSrcB := .imm, branchOp := op }
  | badBranch (ho : opcode inst = some .branch) :
      Decoded inst { nopCtrl with aluSrcA := .pc, aluSrcB := .imm, illegal := true }
  | load (ho : opcode inst = some .load) (size : MemSize) (unsigned : Bool) :
      Decoded inst { nopCtrl with
        regWrite := true, wbSrc := .mem, aluSrcB := .imm, memRead := true, memSize := size,
        memUnsigned := unsigned }
  | badLoad (ho : opcode inst = some .load) :
      Decoded inst { nopCtrl with wbSrc := .mem, aluSrcB := .imm, illegal := true }
  | store (ho : opcode inst = some .store) (size : MemSize) :
      Decoded inst { nopCtrl with aluSrcB := .imm, memWrite := true, memSize := size }
  | badStore (ho : opcode inst = some .store) :
      Decoded inst { nopCtrl with aluSrcB := .imm, illegal := true }
  | imm (ho : opcode inst = some .imm) (op : AluOp) (hp : op ≠ .passB) :
      Decoded inst { nopCtrl with regWrite := true, aluOp := op, aluSrcB := .imm }
  | reg (ho : opcode inst = some .reg) (op : AluOp) (hp : op ≠ .passB) :
      Decoded inst { nopCtrl with regWrite := true, aluOp := op }
  | fence (ho : opcode inst = some .fence) : Decoded inst nopCtrl
  | system (ho : opcode inst = some .system) (hf : funct3 inst = 0#3) : Decoded inst nopCtrl
  | csr (ho : opcode inst = some .system) (hf : funct3 inst ≠ 0#3) :
      Decoded inst { nopCtrl with illegal := true }
  | unknown (ho : opcode inst = none) : Decoded inst { nopCtrl with illegal := true }

theorem f3Op_ofBits_ne_none (b : BitVec 3) : (BitEnum.ofBits b : Option F3Op) ≠ none := by
  revert b
  decide

theorem decodeBranch_decoded {inst : Word} (ho : opcode inst = some .branch) :
    Decoded inst (decodeBranch (funct3 inst)) := by
  unfold decodeBranch
  cases (BitEnum.ofBits (funct3 inst) : Option F3Branch) with
  | none => exact .badBranch ho
  | some f =>
    cases f with
    | beq => exact .branch ho .eq (by decide) (by decide)
    | bne => exact .branch ho .ne (by decide) (by decide)
    | blt => exact .branch ho .lt (by decide) (by decide)
    | bge => exact .branch ho .ge (by decide) (by decide)
    | bltu => exact .branch ho .ltu (by decide) (by decide)
    | bgeu => exact .branch ho .geu (by decide) (by decide)

theorem decodeLoad_decoded {inst : Word} (ho : opcode inst = some .load) :
    Decoded inst (decodeLoad (funct3 inst)) := by
  unfold decodeLoad
  cases (BitEnum.ofBits (funct3 inst) : Option F3Load) with
  | none => exact .badLoad ho
  | some f => cases f <;> exact .load ho _ _

theorem decodeStore_decoded {inst : Word} (ho : opcode inst = some .store) :
    Decoded inst (decodeStore (funct3 inst)) := by
  unfold decodeStore
  cases (BitEnum.ofBits (funct3 inst) : Option F3Store) with
  | none => exact .badStore ho
  | some f => cases f <;> exact .store ho _

theorem decodeImm_decoded {inst : Word} (ho : opcode inst = some .imm) :
    Decoded inst (decodeImm (funct3 inst) (funct7 inst)) := by
  unfold decodeImm
  cases hf : (BitEnum.ofBits (funct3 inst) : Option F3Op) with
  | none => exact (f3Op_ofBits_ne_none _ hf).elim
  | some f =>
    cases f with
    | sr =>
      refine .imm ho _ ?_
      split <;> decide
    | _ =>
      refine .imm ho _ ?_
      decide

theorem decodeReg_decoded {inst : Word} (ho : opcode inst = some .reg) :
    Decoded inst (decodeReg (funct3 inst) (funct7 inst)) := by
  unfold decodeReg
  cases hf : (BitEnum.ofBits (funct3 inst) : Option F3Op) with
  | none => exact (f3Op_ofBits_ne_none _ hf).elim
  | some f =>
    cases f with
    | addSub | sr =>
      refine .reg ho _ ?_
      split <;> decide
    | _ =>
      refine .reg ho _ ?_
      decide

theorem decoder_decoded (inst : Word) : Decoded inst (decoder inst) := by
  unfold decoder
  split
  case h_1 ho => exact .lui ho
  case h_2 ho => exact .auipc ho
  case h_3 ho => exact .jal ho
  case h_4 ho => exact .jalr ho
  case h_5 ho => exact decodeBranch_decoded ho
  case h_6 ho => exact decodeLoad_decoded ho
  case h_7 ho => exact decodeStore_decoded ho
  case h_8 ho => exact decodeImm_decoded ho
  case h_9 ho => exact decodeReg_decoded ho
  case h_10 ho => exact .fence ho
  case h_11 ho =>
    split
    case isTrue hf => exact .csr ho hf
    case isFalse hf => exact .system ho (not_not.mp hf)
  case h_12 ho => exact .unknown ho

/-- The source registers `hazard_unit` takes an opcode to read. -/
def readsRs1 : Option Opcode → Bool
  | some .reg | some .store | some .branch | some .imm | some .load | some .jalr => true
  | _ => false

def readsRs2 : Option Opcode → Bool
  | some .reg | some .store | some .branch => true
  | _ => false

section Facts
variable (inst : Word)

/-- The instruction leaves a result: a register write or a memory access. -/
def Control.active (c : Control) : Bool := c.regWrite || c.memRead || c.memWrite

/-- A conditional branch, as `id_is_cond_branch` of the pipeline tells it. -/
def Control.condBranch (c : Control) : Bool := c.branchOp ≠ .none && c.branchOp ≠ .jump

def Control.isJalr (c : Control) : Bool := c.branchOp = .jump && c.jalr

theorem decoder_memRead (h : (decoder inst).memRead = true) :
    opcode inst = some .load ∧ (decoder inst).regWrite = true ∧
      (decoder inst).wbSrc = .mem ∧ (decoder inst).memWrite = false ∧
      (decoder inst).illegal = false ∧ (decoder inst).branchOp = .none := by
  have hd := decoder_decoded inst
  generalize decoder inst = c at h hd ⊢
  cases hd <;> simp_all [nopCtrl]

theorem decoder_memWrite (h : (decoder inst).memWrite = true) :
    opcode inst = some .store ∧ (decoder inst).regWrite = false ∧
      (decoder inst).memRead = false ∧ (decoder inst).illegal = false ∧
      (decoder inst).branchOp = .none := by
  have hd := decoder_decoded inst
  generalize decoder inst = c at h hd ⊢
  cases hd <;> simp_all [nopCtrl]

theorem decoder_wbSrc_mem (hw : (decoder inst).regWrite = true)
    (hs : (decoder inst).wbSrc = .mem) : (decoder inst).memRead = true := by
  have hd := decoder_decoded inst
  generalize decoder inst = c at hw hs hd ⊢
  cases hd <;> simp_all [nopCtrl]

theorem decoder_illegal (h : (decoder inst).illegal = true) :
    (decoder inst).active = false ∧ (decoder inst).branchOp = .none := by
  have hd := decoder_decoded inst
  generalize decoder inst = c at h hd ⊢
  cases hd <;> simp_all [nopCtrl, Control.active]

theorem decoder_isSystem (h : isSystem inst = true) : decoder inst = nopCtrl := by
  have ho : opcode inst = some .system ∧ funct3 inst = 0#3 := by simpa [isSystem] using h
  have hd := decoder_decoded inst
  generalize decoder inst = c at hd ⊢
  cases hd <;> simp_all

/-- An operand that reaches a result is one `hazard_unit` counts as read. -/
theorem decoder_reads_rs1 (ha : (decoder inst).active = true)
    (hs : (decoder inst).aluSrcA = .rs1) (hp : (decoder inst).aluOp ≠ .passB) :
    readsRs1 (opcode inst) = true := by
  have hd := decoder_decoded inst
  generalize decoder inst = c at ha hs hp hd
  cases hd <;> simp_all [nopCtrl, Control.active, readsRs1]

theorem decoder_reads_rs2 (ha : (decoder inst).active = true)
    (hs : (decoder inst).aluSrcB = .rs2 ∨ (decoder inst).memWrite = true) :
    readsRs2 (opcode inst) = true := by
  have hd := decoder_decoded inst
  generalize decoder inst = c at ha hs hd
  cases hd <;> simp_all [nopCtrl, Control.active, readsRs2]

/-- The target adder: `rs1 + imm` for JALR, `pc + imm` for every other transfer. -/
theorem decoder_target (h : (decoder inst).branchOp ≠ .none) :
    (decoder inst).aluOp = .add ∧ (decoder inst).aluSrcB = .imm ∧
      ((decoder inst).jalr = true ∧ (decoder inst).aluSrcA = .rs1 ∧
          (decoder inst).branchOp = .jump ∨
        (decoder inst).jalr = false ∧ (decoder inst).aluSrcA = .pc) := by
  have hd := decoder_decoded inst
  generalize decoder inst = c at h hd ⊢
  cases hd <;> simp_all [nopCtrl]

theorem decoder_isJalr (h : (decoder inst).isJalr = true) : opcode inst = some .jalr := by
  have hd := decoder_decoded inst
  generalize decoder inst = c at h hd
  cases hd <;> simp_all [nopCtrl, Control.isJalr]

theorem decoder_condBranch (h : (decoder inst).condBranch = true) :
    opcode inst = some .branch ∧ (decoder inst).active = false := by
  have hd := decoder_decoded inst
  generalize decoder inst = c at h hd ⊢
  cases hd <;> simp_all [nopCtrl, Control.condBranch, Control.active]

end Facts
end RiscForge.Rtl
