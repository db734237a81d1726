import RiscForge.Rtl.Pkg

/-! The combinational units both cores instantiate: decoder, immediates, ALU and branch unit. -/
namespace RiscForge.Rtl

open Lib

section Fields
variable (inst : Word)

def opcode : Option Opcode := BitEnum.ofBits (inst.extractLsb' 0 7)
def funct3 : BitVec 3 := inst.extractLsb' 12 3
def funct7 : BitVec 7 := inst.extractLsb' 25 7
def funct12 : BitVec 12 := inst.extractLsb' 20 12
def rdIdx : BitVec 5 := inst.extractLsb' 7 5
def rs1Idx : BitVec 5 := inst.extractLsb' 15 5
def rs2Idx : BitVec 5 := inst.extractLsb' 20 5

end Fields

/-- `nop_ctrl()` of `decoder.sv`, the bundle every case starts from. -/
def nopCtrl : Control where
  regWrite := false
  wbSrc := .alu
  memRead := false
  memWrite := false
  memSize := .w
  memUnsigned := false
  aluOp := .add
  aluSrcA := .rs1
  aluSrcB := .rs2
  branchOp := .none
  jalr := false
  illegal := false

/-- The `OP_BRANCH` case: the target is `PC + imm`, the condition comes from `funct3`. -/
def decodeBranch (f3 : BitVec 3) : Control :=
  let c := { nopCtrl with aluOp := .add, aluSrcA := .pc, aluSrcB := .imm }
  match (BitEnum.ofBits f3 : Option F3Branch) with
  | some .beq => { c with branchOp := .eq }
  | some .bne => { c with branchOp := .ne }
  | some .blt => { c with branchOp := .lt }
  | some .bge => { c with branchOp := .ge }
  | some .bltu => { c with branchOp := .ltu }
  | some .bgeu => { c with branchOp := .geu }
  | none => { c with branchOp := .none, illegal := true }

/-- The `OP_LOAD` case. -/
def decodeLoad (f3 : BitVec 3) : Control :=
  let c := { nopCtrl with
    regWrite := true, wbSrc := .mem, aluOp := .add, aluSrcA := .rs1, aluSrcB := .imm,
    memRead := true }
  match (BitEnum.ofBits f3 : Option F3Load) with
  | some .lb => { c with memSize := .b, memUnsigned := false }
  | some .lh => { c with memSize := .h, memUnsigned := false }
  | some .lw => { c with memSize := .w, memUnsigned := false }
  | some .lbu => { c with memSize := .b, memUnsigned := true }
  | some .lhu => { c with memSize := .h, memUnsigned := true }
  | none => { c with memRead := false, regWrite := false, illegal := true }

/-- The `OP_STORE` case. -/
def decodeStore (f3 : BitVec 3) : Control :=
  let c := { nopCtrl with aluOp := .add, aluSrcA := .rs1, aluSrcB := .imm, memWrite := true }
  match (BitEnum.ofBits f3 : Option F3Store) with
  | some .sb => { c with memSize := .b }
  | some .sh => { c with memSize := .h }
  | some .sw => { c with memSize := .w }
  | none => { c with memWrite := false, illegal := true }

/-- The `OP_IMM` case; only SRAI is told apart by `funct7`. -/
def decodeImm (f3 : BitVec 3) (f7 : BitVec 7) : Control :=
  let c := { nopCtrl with regWrite := true, wbSrc := .alu, aluSrcA := .rs1, aluSrcB := .imm }
  match (BitEnum.ofBits f3 : Option F3Op) with
  | some .addSub => { c with aluOp := .add }
  | some .sll => { c with aluOp := .sll }
  | some .slt => { c with aluOp := .slt }
  | some .sltu => { c with aluOp := .sltu }
  | some .xor => { c with aluOp := .xor }
  | some .sr => { c with aluOp := if f7 = f7Alt then .sra else .srl }
  | some .or => { c with aluOp := .or }
  | some .and => { c with aluOp := .and }
  | none => { c with illegal := true }

/-- The `OP_REG` case; SUB and SRA are the `F7_ALT` forms of ADD and SRL. -/
def decodeReg (f3 : BitVec 3) (f7 : BitVec 7) : Control :=
  let c := { nopCtrl with regWrite := true, wbSrc := .alu, aluSrcA := .rs1, aluSrcB := .rs2 }
  match (BitEnum.ofBits f3 : Option F3Op) with
  | some .addSub => { c with aluOp := if f7 = f7Alt then .sub else .add }
  | some .sll => { c with aluOp := .sll }
  | some .slt => { c with aluOp := .slt }
  | some .sltu => { c with aluOp := .sltu }
  | some .xor => { c with aluOp := .xor }
  | some .sr => { c with aluOp := if f7 = f7Alt then .sra else .srl }
  | some .or => { c with aluOp := .or }
  | some .and => { c with aluOp := .and }
  | none => { c with illegal := true }

/-- `decoder.sv`. -/
def decoder (inst : Word) : Control :=
  match opcode inst with
  | some .lui =>
    { nopCtrl with regWrite := true, wbSrc := .alu, aluOp := .passB, aluSrcB := .imm }
  | some .auipc =>
    { nopCtrl with
      regWrite := true, wbSrc := .alu, aluOp := .add, aluSrcA := .pc, aluSrcB := .imm }
  | some .jal =>
    { nopCtrl with
      regWrite := true, wbSrc := .pc4, aluOp := .add, aluSrcA := .pc, aluSrcB := .imm,
      branchOp := .jump }
  | some .jalr =>
    { nopCtrl with
      regWrite := true, wbSrc := .pc4, aluOp := .add, aluSrcA := .rs1, aluSrcB := .imm,
      branchOp := .jump, jalr := true }
  | some .branch => decodeBranch (funct3 inst)
  | some .load => decodeLoad (funct3 inst)
  | some .store => decodeStore (funct3 inst)
  | some .imm => decodeImm (funct3 inst) (funct7 inst)
  | some .reg => decodeReg (funct3 inst) (funct7 inst)
  | some .fence => nopCtrl
  | some .system => if funct3 inst ≠ 0#3 then { nopCtrl with illegal := true } else nopCtrl
  | none => { nopCtrl with illegal := true }

/-- ECALL and EBREAK are matched on the word itself, outside `control_t`. -/
def isSystem (inst : Word) : Bool := opcode inst = some .system && funct3 inst = 0#3
def isEcall (inst : Word) : Bool := isSystem inst && funct12 inst = f12Ecall
def isEbreak (inst : Word) : Bool := isSystem inst && funct12 inst = f12Ebreak

section Immediates
variable (inst : Word)

def immI : Word := (inst.extractLsb' 31 1).replicate 20 ++ inst.extractLsb' 20 12
def immS : Word :=
  (inst.extractLsb' 31 1).replicate 20 ++ inst.extractLsb' 25 7 ++ inst.extractLsb' 7 5
def immB : Word :=
  (inst.extractLsb' 31 1).replicate 19 ++ inst.extractLsb' 31 1 ++ inst.extractLsb' 7 1 ++
    inst.extractLsb' 25 6 ++ inst.extractLsb' 8 4 ++ 0#1
def immU : Word := inst.extractLsb' 12 20 ++ 0#12
def immJ : Word :=
  (inst.extractLsb' 31 1).replicate 11 ++ inst.extractLsb' 31 1 ++ inst.extractLsb' 12 8 ++
    inst.extractLsb' 20 1 ++ inst.extractLsb' 21 10 ++ 0#1

/-- `imm_gen.sv`. -/
def immGen : Word :=
  match opcode inst with
  | some .load | some .imm | some .jalr | some .system | some .fence => immI inst
  | some .store => immS inst
  | some .branch => immB inst
  | some .lui | some .auipc => immU inst
  | some .jal => immJ inst
  | some .reg => 0#32
  | none => 0#32

end Immediates

/-- `alu.sv`. -/
def alu (a b : Word) (op : AluOp) : Word :=
  let shamt := (b.extractLsb' 0 5).toNat
  match op with
  | .add => a + b
  | .sub => a - b
  | .and => a &&& b
  | .or => a ||| b
  | .xor => a ^^^ b
  | .sll => a <<< shamt
  | .srl => a >>> shamt
  | .sra => a.sshiftRight shamt
  | .slt => if a.slt b then 1#32 else 0#32
  | .sltu => if a.ult b then 1#32 else 0#32
  | .passB => b

/-- `branch_unit.sv`. -/
def branchUnit (op : BranchOp) (rs1 rs2 : Word) : Bool :=
  match op with
  | .none => false
  | .eq => rs1 = rs2
  | .ne => rs1 ≠ rs2
  | .lt => rs1.slt rs2
  | .ge => !rs1.slt rs2
  | .ltu => rs1.ult rs2
  | .geu => !rs1.ult rs2
  | .jump => true

end RiscForge.Rtl
