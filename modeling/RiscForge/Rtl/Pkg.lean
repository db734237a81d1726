import RiscForge.Lib.BitEnum

/-! The encoding constants and the control bundle of `rtl/pkg/riscv_pkg.sv`. -/
namespace RiscForge.Rtl

open Lib

abbrev Word := BitVec 32

/-- `opcode_e`, the values of `inst[6:0]` that name an instruction group. -/
inductive Opcode
  | lui | auipc | jal | jalr | branch | load | store | imm | reg | fence | system
  deriving DecidableEq, Repr

instance : BitEnum Opcode 7 where
  members := [.lui, .auipc, .jal, .jalr, .branch, .load, .store, .imm, .reg, .fence, .system]
  bits
    | .lui => 0b0110111#7
    | .auipc => 0b0010111#7
    | .jal => 0b1101111#7
    | .jalr => 0b1100111#7
    | .branch => 0b1100011#7
    | .load => 0b0000011#7
    | .store => 0b0100011#7
    | .imm => 0b0010011#7
    | .reg => 0b0110011#7
    | .fence => 0b0001111#7
    | .system => 0b1110011#7
  mem_members a := by cases a <;> simp
  bits_injective a b h := by cases a <;> cases b <;> first | rfl | cases h

/-- `funct3_op_e`; all eight values are named. -/
inductive F3Op
  | addSub | sll | slt | sltu | xor | sr | or | and
  deriving DecidableEq, Repr

instance : BitEnum F3Op 3 where
  members := [.addSub, .sll, .slt, .sltu, .xor, .sr, .or, .and]
  bits
    | .addSub => 0b000#3
    | .sll => 0b001#3
    | .slt => 0b010#3
    | .sltu => 0b011#3
    | .xor => 0b100#3
    | .sr => 0b101#3
    | .or => 0b110#3
    | .and => 0b111#3
  mem_members a := by cases a <;> simp
  bits_injective a b h := by cases a <;> cases b <;> first | rfl | cases h

/-- `funct3_branch_e`. -/
inductive F3Branch
  | beq | bne | blt | bge | bltu | bgeu
  deriving DecidableEq, Repr

instance : BitEnum F3Branch 3 where
  members := [.beq, .bne, .blt, .bge, .bltu, .bgeu]
  bits
    | .beq => 0b000#3
    | .bne => 0b001#3
    | .blt => 0b100#3
    | .bge => 0b101#3
    | .bltu => 0b110#3
    | .bgeu => 0b111#3
  mem_members a := by cases a <;> simp
  bits_injective a b h := by cases a <;> cases b <;> first | rfl | cases h

/-- `funct3_load_e`. -/
inductive F3Load
  | lb | lh | lw | lbu | lhu
  deriving DecidableEq, Repr

instance : BitEnum F3Load 3 where
  members := [.lb, .lh, .lw, .lbu, .lhu]
  bits
    | .lb => 0b000#3
    | .lh => 0b001#3
    | .lw => 0b010#3
    | .lbu => 0b100#3
    | .lhu => 0b101#3
  mem_members a := by cases a <;> simp
  bits_injective a b h := by cases a <;> cases b <;> first | rfl | cases h

/-- `funct3_store_e`. -/
inductive F3Store
  | sb | sh | sw
  deriving DecidableEq, Repr

instance : BitEnum F3Store 3 where
  members := [.sb, .sh, .sw]
  bits
    | .sb => 0b000#3
    | .sh => 0b001#3
    | .sw => 0b010#3
  mem_members a := by cases a <;> simp
  bits_injective a b h := by cases a <;> cases b <;> first | rfl | cases h

def f7Alt : BitVec 7 := 0b0100000#7
def f12Ecall : BitVec 12 := 0x000#12
def f12Ebreak : BitVec 12 := 0x001#12

/-- `alu_op_e`. -/
inductive AluOp
  | add | sub | and | or | xor | sll | srl | sra | slt | sltu | passB
  deriving DecidableEq, Repr

/-- `alu_src_a_e`. -/
inductive AluSrcA
  | rs1 | pc
  deriving DecidableEq, Repr

/-- `alu_src_b_e`. -/
inductive AluSrcB
  | rs2 | imm
  deriving DecidableEq, Repr

/-- `wb_src_e`. -/
inductive WbSrc
  | alu | mem | pc4
  deriving DecidableEq, Repr

/-- `branch_op_e`. -/
inductive BranchOp
  | none | eq | ne | lt | ge | ltu | geu | jump
  deriving DecidableEq, Repr

/-- `mem_size_e`. -/
inductive MemSize
  | b | h | w
  deriving DecidableEq, Repr

/-- `control_t`, the decoder's output. -/
structure Control where
  regWrite : Bool
  wbSrc : WbSrc
  memRead : Bool
  memWrite : Bool
  memSize : MemSize
  memUnsigned : Bool
  aluOp : AluOp
  aluSrcA : AluSrcA
  aluSrcB : AluSrcB
  branchOp : BranchOp
  jalr : Bool
  illegal : Bool
  deriving DecidableEq, Repr

/-- `bubble()` of the pipeline registers: every field of the packed struct is zero. -/
def bubble : Control where
  regWrite := false
  wbSrc := .alu
  memRead := false
  memWrite := false
  memSize := .b
  memUnsigned := false
  aluOp := .add
  aluSrcA := .rs1
  aluSrcB := .rs2
  branchOp := .none
  jalr := false
  illegal := false

/-- The halt cause codes that `top.sv` and `top_pipeline.sv` share. -/
inductive HaltCause
  | none | ecall | ebreak | illegal | misaligned | tohost
  deriving DecidableEq, Repr

end RiscForge.Rtl
