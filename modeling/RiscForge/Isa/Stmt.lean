import RiscForge.Isa.Insn

/-! Assembly statements of one instruction: the operands as written, and their effect. -/
namespace RiscForge.Isa

open Lib Rtl

/-- An instruction or a pseudo-instruction. Immediates are numbers, targets are addresses. -/
inductive Stmt
  | op (o : Op) (rd rs1 rs2 : BitVec 5)
  | opImm (o : Op) (rd rs1 : BitVec 5) (imm : ℤ)
  | load (k : F3Load) (rd : BitVec 5) (imm : ℤ) (rs1 : BitVec 5)
  | store (k : F3Store) (rs2 : BitVec 5) (imm : ℤ) (rs1 : BitVec 5)
  | branch (c : F3Branch) (rs1 rs2 : BitVec 5) (target : ℤ)
  | jal (rd : BitVec 5) (target : ℤ)
  | jalr (rd rs1 : BitVec 5) (imm : ℤ)
  | lui (rd : BitVec 5) (imm : ℤ)
  | auipc (rd : BitVec 5) (imm : ℤ)
  | nop
  | mv (rd rs : BitVec 5)
  | not (rd rs : BitVec 5)
  | neg (rd rs : BitVec 5)
  | j (target : ℤ)
  | jr (rs : BitVec 5)
  | ret
  | beqz (rs : BitVec 5) (target : ℤ)
  | bnez (rs : BitVec 5) (target : ℤ)
  deriving DecidableEq, Repr

namespace Effect
variable (pc : Word)

/-- Nothing but the next pc, a register, a store. -/
def goesOn : Effect := ⟨pc + 4#32, none, none⟩

def writes (rd : BitVec 5) (v : Word) : Effect := { goesOn pc with rd := some (rd, v) }

def jumps (next : Word) : Effect := { goesOn pc with nextPc := next }

end Effect

namespace Stmt
variable (pc : Word) (x : BitVec 5 → Word) (m : Word → BitVec 8)

/-- What the manual says of the statement at `pc`, with registers `x` and memory `m`. -/
def effect : Stmt → Effect
  | .op o rd rs1 rs2 => .writes pc rd (o.eval (x rs1) (x rs2))
  | .opImm o rd rs1 imm => .writes pc rd (o.eval (x rs1) (.ofInt 32 imm))
  | .load k rd imm rs1 => .writes pc rd (loadValue m (x rs1 + .ofInt 32 imm) k)
  | .store k rs2 imm rs1 =>
    { Effect.goesOn pc with store := some (x rs1 + .ofInt 32 imm, k, x rs2) }
  | .branch c rs1 rs2 target =>
    .jumps pc (if branchCond (x rs1) (x rs2) c then .ofInt 32 target else pc + 4#32)
  | .jal rd target => { Effect.writes pc rd (pc + 4#32) with nextPc := .ofInt 32 target }
  | .jalr rd rs1 imm =>
    { Effect.writes pc rd (pc + 4#32) with nextPc := (x rs1 + .ofInt 32 imm) &&& ~~~1#32 }
  | .lui rd imm => .writes pc rd (.ofInt 32 (imm * 2 ^ 12))
  | .auipc rd imm => .writes pc rd (pc + .ofInt 32 (imm * 2 ^ 12))
  | .nop => .goesOn pc
  | .mv rd rs => .writes pc rd (x rs)
  | .not rd rs => .writes pc rd (~~~x rs)
  | .neg rd rs => .writes pc rd (-x rs)
  | .j target => .jumps pc (.ofInt 32 target)
  | .jr rs => .jumps pc (x rs &&& ~~~1#32)
  | .ret => .jumps pc (x 1#5 &&& ~~~1#32)
  | .beqz rs target => .jumps pc (if x rs = 0#32 then .ofInt 32 target else pc + 4#32)
  | .bnez rs target => .jumps pc (if x rs ≠ 0#32 then .ofInt 32 target else pc + 4#32)

/-- The address a load or a store accesses, and how many bytes. -/
def access : Stmt → Option (Word × ℕ)
  | .load k _ imm rs1 => some (x rs1 + .ofInt 32 imm, loadSize k)
  | .store k _ imm rs1 => some (x rs1 + .ofInt 32 imm, Isa.storeSize k)
  | _ => none

/-- The target operand. -/
def label : Stmt → Option ℤ
  | .branch _ _ _ target | .jal _ target | .j target | .beqz _ target | .bnez _ target =>
    some target
  | _ => none

/-- The base instruction a statement stands for at `pc`. -/
def insn : Stmt → Insn
  | .op o rd rs1 rs2 => .op o rd rs1 rs2
  | .opImm o rd rs1 imm => .opImm o rd rs1 (.ofInt 32 imm)
  | .load k rd imm rs1 => .load k rd rs1 (.ofInt 32 imm)
  | .store k rs2 imm rs1 => .store k rs1 rs2 (.ofInt 32 imm)
  | .branch c rs1 rs2 target => .branch c rs1 rs2 (.ofInt 32 target - pc)
  | .jal rd target => .jal rd (.ofInt 32 target - pc)
  | .jalr rd rs1 imm => .jalr rd rs1 (.ofInt 32 imm)
  | .lui rd imm => .lui rd (.ofInt 32 (imm * 2 ^ 12))
  | .auipc rd imm => .auipc rd (.ofInt 32 (imm * 2 ^ 12))
  | .nop => .opImm .add 0#5 0#5 0#32
  | .mv rd rs => .opImm .add rd rs 0#32
  | .not rd rs => .opImm .xor rd rs (-1#32)
  | .neg rd rs => .op .sub rd 0#5 rs
  | .j target => .jal 0#5 (.ofInt 32 target - pc)
  | .jr rs => .jalr 0#5 rs 0#32
  | .ret => .jalr 0#5 1#5 0#32
  | .beqz rs target => .branch .beq rs 0#5 (.ofInt 32 target - pc)
  | .bnez rs target => .branch .bne rs 0#5 (.ofInt 32 target - pc)

end Stmt

/-- The same effect but for a write to `x0`, which is none. -/
structure Effect.Same (e e' : Effect) : Prop where
  nextPc : e.nextPc = e'.nextPc
  store : e.store = e'.store
  rd : e.rd = e'.rd ∨ e'.rd = none ∧ ∃ v, e.rd = some (0#5, v)

namespace Stmt
variable {pc : Word} {x : BitVec 5 → Word} {m : Word → BitVec 8} {st : Stmt}

theorem add_sub_pc (t : Word) : pc + (t - pc) = t := by
  rw [BitVec.add_comm, BitVec.sub_add_cancel]

/-- A statement has the effect of the instruction it stands for. -/
theorem insn_same (h0 : x 0#5 = 0#32) : ((st.insn pc).effect pc x m).Same (st.effect pc x m) := by
  cases st with
  | op | opImm | load | store | jalr | lui | auipc => exact ⟨rfl, rfl, .inl rfl⟩
  | branch c rs1 rs2 target =>
    refine ⟨?_, rfl, .inl rfl⟩
    simp only [insn, effect, Insn.effect, Insn.target, add_sub_pc, Effect.jumps]
    split <;> rfl
  | jal rd target =>
    refine ⟨?_, rfl, .inl rfl⟩
    simp only [insn, effect, Insn.effect, Insn.target, add_sub_pc, Option.getD_some]
  | nop => exact ⟨rfl, rfl, .inr ⟨rfl, _, rfl⟩⟩
  | mv rd rs =>
    refine ⟨rfl, rfl, .inl ?_⟩
    simp only [insn, effect, Insn.effect, Insn.result, Op.eval, BitVec.add_zero, Effect.writes]
  | not rd rs =>
    refine ⟨rfl, rfl, .inl ?_⟩
    simp only [insn, effect, Insn.effect, Insn.result, Op.eval, Effect.writes,
      BitVec.neg_one_eq_allOnes, BitVec.xor_allOnes]
  | neg rd rs =>
    refine ⟨rfl, rfl, .inl ?_⟩
    simp only [insn, effect, Insn.effect, Insn.result, Op.eval, Effect.writes, h0,
      BitVec.zero_sub]
  | j target =>
    refine ⟨?_, rfl, .inr ⟨rfl, _, rfl⟩⟩
    simp only [insn, effect, Insn.effect, Insn.target, add_sub_pc, Option.getD_some, Effect.jumps]
  | jr rs =>
    refine ⟨?_, rfl, .inr ⟨rfl, _, rfl⟩⟩
    simp only [insn, effect, Insn.effect, Insn.target, BitVec.add_zero, Option.getD_some,
      Effect.jumps]
  | ret =>
    refine ⟨?_, rfl, .inr ⟨rfl, _, rfl⟩⟩
    simp only [insn, effect, Insn.effect, Insn.target, BitVec.add_zero, Option.getD_some,
      Effect.jumps]
  | beqz rs target =>
    refine ⟨?_, rfl, .inl rfl⟩
    simp only [insn, effect, Insn.effect, Insn.target, add_sub_pc, Effect.jumps, branchCond, h0]
    split <;> simp_all
  | bnez rs target =>
    refine ⟨?_, rfl, .inl rfl⟩
    simp only [insn, effect, Insn.effect, Insn.target, add_sub_pc, Effect.jumps, branchCond, h0]
    split <;> simp_all

end Stmt
end RiscForge.Isa
