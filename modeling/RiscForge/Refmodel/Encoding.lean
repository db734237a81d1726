import RiscForge.Rtl.Pkg

/-! The encoding constants of `refmodel/encoding.py`, kept in step with the RTL package. -/
namespace RiscForge.Refmodel

open Lib Rtl

/-- The Python mirror of an RTL enumeration: the same members, as integers. -/
class IntEnum (α : Type) {n : outParam ℕ} [BitEnum α n] where
  value : α → ℤ
  value_eq_bits : ∀ a, value a = ((BitEnum.bits a).toNat : ℤ)

namespace IntEnum
variable {α : Type} {n : ℕ} [BitEnum α n] [IntEnum α] {a : α}

/-- The member `v` compares equal to. -/
def ofValue (v : ℤ) : Option α := (BitEnum.members : List α).find? fun a => value a = v

/-- On raw bits the two encodings name the same member. -/
theorem ofValue_toNat (b : BitVec n) : ofValue (b.toNat : ℤ) = (BitEnum.ofBits b : Option α) := by
  unfold ofValue BitEnum.ofBits
  congr 1
  funext a
  rw [value_eq_bits]
  simp only [Nat.cast_inj, BitVec.toNat_inj]

end IntEnum

/-- `Opcode`. -/
instance : IntEnum Opcode where
  value
    | .lui => 0b0110111
    | .auipc => 0b0010111
    | .jal => 0b1101111
    | .jalr => 0b1100111
    | .branch => 0b1100011
    | .load => 0b0000011
    | .store => 0b0100011
    | .imm => 0b0010011
    | .reg => 0b0110011
    | .fence => 0b0001111
    | .system => 0b1110011
  value_eq_bits a := by cases a <;> rfl

/-- `F3Op`. -/
instance : IntEnum F3Op where
  value
    | .addSub => 0b000
    | .sll => 0b001
    | .slt => 0b010
    | .sltu => 0b011
    | .xor => 0b100
    | .sr => 0b101
    | .or => 0b110
    | .and => 0b111
  value_eq_bits a := by cases a <;> rfl

/-- `F3Branch`. -/
instance : IntEnum F3Branch where
  value
    | .beq => 0b000
    | .bne => 0b001
    | .blt => 0b100
    | .bge => 0b101
    | .bltu => 0b110
    | .bgeu => 0b111
  value_eq_bits a := by cases a <;> rfl

/-- `F3Load`. -/
instance : IntEnum F3Load where
  value
    | .lb => 0b000
    | .lh => 0b001
    | .lw => 0b010
    | .lbu => 0b100
    | .lhu => 0b101
  value_eq_bits a := by cases a <;> rfl

/-- `F3Store`. -/
instance : IntEnum F3Store where
  value
    | .sb => 0b000
    | .sh => 0b001
    | .sw => 0b010
  value_eq_bits a := by cases a <;> rfl

def f7Default : ℤ := 0b0000000
def f7Alt : ℤ := 0b0100000
def f12Ecall : ℤ := 0x000
def f12Ebreak : ℤ := 0x001

end RiscForge.Refmodel
