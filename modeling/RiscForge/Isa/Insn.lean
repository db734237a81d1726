import RiscForge.Rtl.Units

/-! The RV32I instructions as the manual describes them: operands, decoding and effect. -/
namespace RiscForge.Isa

open Lib Rtl

/-- The arithmetic of the `OP` and `OP-IMM` groups. -/
inductive Op
  | add | sub | sll | slt | sltu | xor | srl | sra | or | and
  deriving DecidableEq, Repr

def Op.eval (a b : Word) : Op → Word
  | .add => a + b
  | .sub => a - b
  | .sll => a <<< (b.toNat % 32)
  | .slt => if a.toInt < b.toInt then 1#32 else 0#32
  | .sltu => if a.toNat < b.toNat then 1#32 else 0#32
  | .xor => a ^^^ b
  | .srl => a >>> (b.toNat % 32)
  | .sra => a.sshiftRight (b.toNat % 32)
  | .or => a ||| b
  | .and => a &&& b

/-- The condition of a conditional branch. -/
def branchCond (a b : Word) : F3Branch → Bool
  | .beq => a = b
  | .bne => a ≠ b
  | .blt => a.toInt < b.toInt
  | .bge => a.toInt ≥ b.toInt
  | .bltu => a.toNat < b.toNat
  | .bgeu => a.toNat ≥ b.toNat

/-- The bytes an access moves. -/
def loadSize : F3Load → ℕ
  | .lb | .lbu => 1
  | .lh | .lhu => 2
  | .lw => 4

def storeSize : F3Store → ℕ
  | .sb => 1
  | .sh => 2
  | .sw => 4

theorem loadSize_cases (k : F3Load) : loadSize k = 1 ∨ loadSize k = 2 ∨ loadSize k = 4 := by
  cases k <;> simp [loadSize]

theorem storeSize_cases (k : F3Store) :
    storeSize k = 1 ∨ storeSize k = 2 ∨ storeSize k = 4 := by
  cases k <;> simp [storeSize]

/-- An aligned access does not wrap around the address space. -/
theorem toNat_add_of_aligned {a : Word} {n : ℕ} (hn : n = 1 ∨ n = 2 ∨ n = 4)
    (h : a.toNat % n = 0) {j : ℕ} (hj : j < n) :
    (a + BitVec.ofNat 32 j).toNat = a.toNat + j := by
  have ha := a.isLt
  rw [BitVec.toNat_add, BitVec.toNat_ofNat, Nat.mod_eq_of_lt (show j < 2 ^ 32 by omega)]
  apply Nat.mod_eq_of_lt
  rcases hn with rfl | rfl | rfl <;> omega

/-- What a load from `a` leaves in its register, in a little-endian memory. -/
def loadValue (m : Word → BitVec 8) (a : Word) : F3Load → Word
  | .lb => (m a).signExtend 32
  | .lh => (m (a + 1#32) ++ m a).signExtend 32
  | .lw => m (a + 3#32) ++ (m (a + 2#32) ++ (m (a + 1#32) ++ m a))
  | .lbu => (m a).setWidth 32
  | .lhu => (m (a + 1#32) ++ m a).setWidth 32

theorem loadValue_congr {m m' : Word → BitVec 8} {a : Word} (k : F3Load)
    (h : ∀ j < loadSize k, m (a + BitVec.ofNat 32 j) = m' (a + BitVec.ofNat 32 j)) :
    loadValue m a k = loadValue m' a k := by
  have h0 : m a = m' a := by
    have := h 0 (by cases k <;> simp [loadSize])
    simpa using this
  cases k with
  | lb | lbu => simp only [loadValue, h0]
  | lh | lhu =>
    have h1 := h 1 (by simp [loadSize])
    simp only [loadValue, h0, h1]
  | lw =>
    have h1 := h 1 (by simp [loadSize])
    have h2 := h 2 (by simp [loadSize])
    have h3 := h 3 (by simp [loadSize])
    simp only [loadValue, h0, h1, h2, h3]

/-- An instruction with its operands; immediates are already extended to 32 bits. -/
inductive Insn
  | lui (rd : BitVec 5) (imm : Word)
  | auipc (rd : BitVec 5) (imm : Word)
  | jal (rd : BitVec 5) (imm : Word)
  | jalr (rd rs1 : BitVec 5) (imm : Word)
  | branch (c : F3Branch) (rs1 rs2 : BitVec 5) (imm : Word)
  | load (k : F3Load) (rd rs1 : BitVec 5) (imm : Word)
  | store (k : F3Store) (rs1 rs2 : BitVec 5) (imm : Word)
  | opImm (o : Op) (rd rs1 : BitVec 5) (imm : Word)
  | op (o : Op) (rd rs1 rs2 : BitVec 5)
  | fence
  | ecall
  | ebreak
  deriving DecidableEq, Repr

section Decode
variable (w : Word)

/-- SRLI and SRAI, ADD and SUB, SRL and SRA are told apart by `funct7`. -/
def decodeOp (f3 : F3Op) (f7 : BitVec 7) : Option Op :=
  match f3 with
  | .addSub => if f7 = 0#7 then some .add else if f7 = f7Alt then some .sub else none
  | .sr => if f7 = 0#7 then some .srl else if f7 = f7Alt then some .sra else none
  | .sll => some .sll
  | .slt => some .slt
  | .sltu => some .sltu
  | .xor => some .xor
  | .or => some .or
  | .and => some .and

/-- `ADDI` has no `SUB` form. -/
def decodeOpImm (f3 : F3Op) (f7 : BitVec 7) : Option Op :=
  if f3 = .addSub then some .add else decodeOp f3 f7

def decodeSystem : Option Insn :=
  if funct3 w = 0#3 then
    if funct12 w = f12Ecall then some .ecall
    else if funct12 w = f12Ebreak then some .ebreak
    else none
  else none

/-- The instruction a word stands for, reserved `funct` values left out. -/
def decode : Option Insn :=
  match opcode w with
  | some .lui => some (.lui (rdIdx w) (immU w))
  | some .auipc => some (.auipc (rdIdx w) (immU w))
  | some .jal => some (.jal (rdIdx w) (immJ w))
  | some .jalr => some (.jalr (rdIdx w) (rs1Idx w) (immI w))
  | some .branch =>
    (BitEnum.ofBits (funct3 w)).map fun c => .branch c (rs1Idx w) (rs2Idx w) (immB w)
  | some .load => (BitEnum.ofBits (funct3 w)).map fun k => .load k (rdIdx w) (rs1Idx w) (immI w)
  | some .store =>
    (BitEnum.ofBits (funct3 w)).map fun k => .store k (rs1Idx w) (rs2Idx w) (immS w)
  | some .imm =>
    ((BitEnum.ofBits (funct3 w)).bind fun f3 => decodeOpImm f3 (funct7 w)).map fun o =>
      .opImm o (rdIdx w) (rs1Idx w) (immI w)
  | some .reg =>
    ((BitEnum.ofBits (funct3 w)).bind fun f3 => decodeOp f3 (funct7 w)).map fun o =>
      .op o (rdIdx w) (rs1Idx w) (rs2Idx w)
  | some .fence => some .fence
  | some .system => decodeSystem w
  | none => none

/-- How a word comes to stand for an instruction, one case for each instruction. -/
inductive Decodes : Insn → Prop
  | lui (ho : opcode w = some .lui) : Decodes (.lui (rdIdx w) (immU w))
  | auipc (ho : opcode w = some .auipc) : Decodes (.auipc (rdIdx w) (immU w))
  | jal (ho : opcode w = some .jal) : Decodes (.jal (rdIdx w) (immJ w))
  | jalr (ho : opcode w = some .jalr) : Decodes (.jalr (rdIdx w) (rs1Idx w) (immI w))
  | branch {c : F3Branch} (ho : opcode w = some .branch) (hk : BitEnum.ofBits (funct3 w) = some c) :
      Decodes (.branch c (rs1Idx w) (rs2Idx w) (immB w))
  | load {k : F3Load} (ho : opcode w = some .load) (hk : BitEnum.ofBits (funct3 w) = some k) :
      Decodes (.load k (rdIdx w) (rs1Idx w) (immI w))
  | store {k : F3Store} (ho : opcode w = some .store) (hk : BitEnum.ofBits (funct3 w) = some k) :
      Decodes (.store k (rs1Idx w) (rs2Idx w) (immS w))
  | opImm {o : Op} {f3 : F3Op} (ho : opcode w = some .imm)
      (hk : BitEnum.ofBits (funct3 w) = some f3) (hop : decodeOpImm f3 (funct7 w) = some o) :
      Decodes (.opImm o (rdIdx w) (rs1Idx w) (immI w))
  | op {o : Op} {f3 : F3Op} (ho : opcode w = some .reg)
      (hk : BitEnum.ofBits (funct3 w) = some f3) (hop : decodeOp f3 (funct7 w) = some o) :
      Decodes (.op o (rdIdx w) (rs1Idx w) (rs2Idx w))
  | fence (ho : opcode w = some .fence) : Decodes .fence
  | ecall (ho : opcode w = some .system) (h3 : funct3 w = 0#3) (h12 : funct12 w = f12Ecall) :
      Decodes .ecall
  | ebreak (ho : opcode w = some .system) (h3 : funct3 w = 0#3) (h12 : funct12 w = f12Ebreak) :
      Decodes .ebreak

theorem decodes_of_decode {w : Word} {i : Insn} (h : decode w = some i) : Decodes w i := by
  unfold decode at h
  split at h
  case h_1 ho => cases h; exact .lui ho
  case h_2 ho => cases h; exact .auipc ho
  case h_3 ho => cases h; exact .jal ho
  case h_4 ho => cases h; exact .jalr ho
  case h_5 ho =>
    obtain ⟨c, hk, rfl⟩ := Option.map_eq_some_iff.mp h
    exact .branch ho hk
  case h_6 ho =>
    obtain ⟨k, hk, rfl⟩ := Option.map_eq_some_iff.mp h
    exact .load ho hk
  case h_7 ho =>
    obtain ⟨k, hk, rfl⟩ := Option.map_eq_some_iff.mp h
    exact .store ho hk
  case h_8 ho =>
    obtain ⟨o, hb, rfl⟩ := Option.map_eq_some_iff.mp h
    obtain ⟨f3, hk, hop⟩ := Option.bind_eq_some_iff.mp hb
    exact .opImm ho hk hop
  case h_9 ho =>
    obtain ⟨o, hb, rfl⟩ := Option.map_eq_some_iff.mp h
    obtain ⟨f3, hk, hop⟩ := Option.bind_eq_some_iff.mp hb
    exact .op ho hk hop
  case h_10 ho => cases h; exact .fence ho
  case h_11 ho =>
    unfold decodeSystem at h
    split at h
    case isFalse => cases h
    case isTrue h3 =>
      split at h
      case isTrue h12 => cases h; exact .ecall ho h3 h12
      case isFalse =>
        split at h
        case isTrue h12 => cases h; exact .ebreak ho h3 h12
        case isFalse => cases h
  case h_12 => cases h

theorem decode_of_decodes {w : Word} {i : Insn} (h : Decodes w i) : decode w = some i := by
  cases h with
  | lui ho | auipc ho | jal ho | jalr ho | fence ho => simp only [decode, ho]
  | branch ho hk | load ho hk | store ho hk => simp only [decode, ho, hk, Option.map_some]
  | opImm ho hk hop | op ho hk hop =>
    simp only [decode, ho, hk, hop, Option.bind_some, Option.map_some]
  | ecall ho h3 h12 => simp only [decode, ho, decodeSystem, h3, h12, if_true]
  | ebreak ho h3 h12 =>
    have hne : f12Ebreak ≠ f12Ecall := by decide
    simp only [decode, ho, decodeSystem, h3, h12, if_true, if_neg hne]

end Decode

/-- What an instruction changes: the pc, a register, the bytes of a store. -/
structure Effect where
  nextPc : Word
  rd : Option (BitVec 5 × Word)
  store : Option (Word × F3Store × Word)

namespace Insn
variable (pc : Word) (x : BitVec 5 → Word) (m : Word → BitVec 8)

/-- The address a load or a store accesses, and how many bytes. -/
def access : Insn → Option (Word × ℕ)
  | .load k _ rs1 imm => some (x rs1 + imm, loadSize k)
  | .store k rs1 _ imm => some (x rs1 + imm, Isa.storeSize k)
  | _ => none

/-- The address control is transferred to, for a jump or a branch taken. -/
def target : Insn → Option Word
  | .jal _ imm => some (pc + imm)
  | .jalr _ rs1 imm => some ((x rs1 + imm) &&& ~~~1#32)
  | .branch c rs1 rs2 imm => if branchCond (x rs1) (x rs2) c then some (pc + imm) else none
  | _ => none

/-- The value written to a register, and which one. -/
def result : Insn → Option (BitVec 5 × Word)
  | .lui rd imm => some (rd, imm)
  | .auipc rd imm => some (rd, pc + imm)
  | .jal rd _ | .jalr rd _ _ => some (rd, pc + 4#32)
  | .load k rd rs1 imm => some (rd, loadValue m (x rs1 + imm) k)
  | .opImm o rd rs1 imm => some (rd, o.eval (x rs1) imm)
  | .op o rd rs1 rs2 => some (rd, o.eval (x rs1) (x rs2))
  | _ => none

def stored : Insn → Option (Word × F3Store × Word)
  | .store k rs1 rs2 imm => some (x rs1 + imm, k, x rs2)
  | _ => none

/-- The effect of an instruction at `pc`, with registers `x` and memory `m`. -/
def effect (i : Insn) : Effect where
  nextPc := (i.target pc x).getD (pc + 4#32)
  rd := i.result pc x m
  store := i.stored x

end Insn
end RiscForge.Isa
