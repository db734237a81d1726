import RiscForge.Assembler.TwoWord
import RiscForge.Isa.Stmt
import RiscForge.Lib.HexText

/-! Source lines as assembly statements: registers by their names, immediates by their values. -/
namespace RiscForge.Assembler

open Lib Rtl Isa

section Names

/-- The ABI names of `x0` to `x31`. -/
def abiNames : List String :=
  ["zero", "ra", "sp", "gp", "tp", "t0", "t1", "t2", "s0", "s1", "a0", "a1", "a2", "a3", "a4",
    "a5", "a6", "a7", "s2", "s3", "s4", "s5", "s6", "s7", "s8", "s9", "s10", "s11", "t3", "t4",
    "t5", "t6"]

/-- A register by its ABI name, the frame pointer, or `x` and a number. -/
inductive Names : String → BitVec 5 → Prop
  | abi {name : String} {r : BitVec 5} (h : abiNames[r.toNat]? = some name) : Names name r
  | fp : Names "fp" 8#5
  | number {name : String} {ds : List Char} {r : BitVec 5} (h : name.toList = 'x' :: ds)
      (hd : ds.all Char.isDigit = true) (hr : digitsVal 10 ds = some r.toNat) : Names name r

theorem names_of_alias {name : String} {r : ℤ} (h : regAliases name = some r) :
    Names name (BitVec.ofInt 5 r) := by
  unfold regAliases at h
  split at h <;> cases h <;> first | exact .abi rfl | exact .fp

theorem names_of_parseReg {py : Python} {tok src : String} {lineno : ℕ} {r : ℤ}
    (h : parseReg py tok lineno src = .ok r) :
    Names (lower py (strip tok)) (BitVec.ofInt 5 r) := by
  have hf := parseReg_field h
  unfold parseReg at h
  simp only at h
  split at h
  case h_1 ha =>
    cases h
    exact names_of_alias ha
  case h_2 =>
    split at h
    case h_1 ds hm =>
      split at h
      case h_1 n hn =>
        split at h
        case isTrue =>
          cases h
          obtain ⟨hx, hne, hd⟩ := matchXReg_eq_some hm
          have hv := pyInt_decimal hd hne hn
          have hr : (BitVec.ofInt 5 r).toNat = r.toNat := by
            rw [← hf.toNat, Int.toNat_natCast, ofInt_toNat]
          exact .number hx hd (by rw [hv, hr])
        case isFalse => exact (asmError_ne_ok h).elim
      case h_2 => cases h
    case h_2 => exact (asmError_ne_ok h).elim

end Names

section Reads
variable (py : Python) (syms : Syms) (ln : Line)

/-- Operand `k` names the register. -/
def Line.Register (k : ℕ) (r : BitVec 5) : Prop := Names (lower py (strip (ln.args.getD k ""))) r

/-- The mnemonics of the arithmetic instructions. -/
def opMnemonic : Op → String
  | .add => "add"
  | .sub => "sub"
  | .sll => "sll"
  | .slt => "slt"
  | .sltu => "sltu"
  | .xor => "xor"
  | .srl => "srl"
  | .sra => "sra"
  | .or => "or"
  | .and => "and"

def immMnemonic : Op → Option String
  | .add => some "addi"
  | .sub => none
  | .sll => some "slli"
  | .slt => some "slti"
  | .sltu => some "sltiu"
  | .xor => some "xori"
  | .srl => some "srli"
  | .sra => some "srai"
  | .or => some "ori"
  | .and => some "andi"

def loadMnemonic : F3Load → String
  | .lb => "lb"
  | .lh => "lh"
  | .lw => "lw"
  | .lbu => "lbu"
  | .lhu => "lhu"

def storeMnemonic : F3Store → String
  | .sb => "sb"
  | .sh => "sh"
  | .sw => "sw"

def branchMnemonic : F3Branch → String
  | .beq => "beq"
  | .bne => "bne"
  | .blt => "blt"
  | .bge => "bge"
  | .bltu => "bltu"
  | .bgeu => "bgeu"

/-- The statement a line is read as. `imm(rs1)` is two operands; as those of JALR it is read only
if it is not a register and an immediate. -/
inductive Reads : String → Stmt → Prop
  | op {o : Op} {rd rs1 rs2 : BitVec 5} (hn : ln.args.length = 3) (h0 : ln.Register py 0 rd)
      (h1 : ln.Register py 1 rs1) (h2 : ln.Register py 2 rs2) :
      Reads (opMnemonic o) (.op o rd rs1 rs2)
  | opImm {o : Op} {op : String} {rd rs1 : BitVec 5} {imm : ℤ} (ho : immMnemonic o = some op)
      (hn : ln.args.length = 3) (h0 : ln.Register py 0 rd) (h1 : ln.Register py 1 rs1)
      (h2 : ln.value py syms 2 = .ok imm) : Reads op (.opImm o rd rs1 imm)
  | load {k : F3Load} {rd rs1 : BitVec 5} {imm : ℤ} (hn : ln.args.length = 3)
      (h0 : ln.Register py 0 rd) (h1 : ln.value py syms 1 = .ok imm)
      (h2 : ln.Register py 2 rs1) : Reads (loadMnemonic k) (.load k rd imm rs1)
  | store {k : F3Store} {rs2 rs1 : BitVec 5} {imm : ℤ} (hn : ln.args.length = 3)
      (h0 : ln.Register py 0 rs2) (h1 : ln.value py syms 1 = .ok imm)
      (h2 : ln.Register py 2 rs1) : Reads (storeMnemonic k) (.store k rs2 imm rs1)
  | branch {c : F3Branch} {rs1 rs2 : BitVec 5} {target : ℤ} (hn : ln.args.length = 3)
      (h0 : ln.Register py 0 rs1) (h1 : ln.Register py 1 rs2)
      (h2 : ln.value py syms 2 = .ok target) :
      Reads (branchMnemonic c) (.branch c rs1 rs2 target)
  | jal {rd : BitVec 5} {target : ℤ} (hn : ln.args.length = 2) (h0 : ln.Register py 0 rd)
      (h1 : ln.value py syms 1 = .ok target) : Reads "jal" (.jal rd target)
  | jalRa {target : ℤ} (hn : ln.args.length = 1) (h0 : ln.value py syms 0 = .ok target) :
      Reads "jal" (.jal 1#5 target)
  | jalr {rd rs1 : BitVec 5} {imm : ℤ} (hn : ln.args.length = 3) (h0 : ln.Register py 0 rd)
      (h1 : ln.Register py 1 rs1) (h2 : ln.value py syms 2 = .ok imm) :
      Reads "jalr" (.jalr rd rs1 imm)
  | jalrDisp {rd rs1 : BitVec 5} {imm : ℤ} (hn : ln.args.length = 3) (h0 : ln.Register py 0 rd)
      (h1 : ln.value py syms 1 = .ok imm) (h2 : ln.Register py 2 rs1)
      (hne : ∀ r v, ln.reg py 1 = .ok r → ln.value py syms 2 ≠ .ok v) :
      Reads "jalr" (.jalr rd rs1 imm)
  | jalrRa {rs1 : BitVec 5} (hn : ln.args.length = 1) (h0 : ln.Register py 0 rs1) :
      Reads "jalr" (.jalr 1#5 rs1 0)
  | lui {rd : BitVec 5} {imm : ℤ} (hn : ln.args.length = 2) (h0 : ln.Register py 0 rd)
      (h1 : ln.value py syms 1 = .ok imm) : Reads "lui" (.lui rd imm)
  | auipc {rd : BitVec 5} {imm : ℤ} (hn : ln.args.length = 2) (h0 : ln.Register py 0 rd)
      (h1 : ln.value py syms 1 = .ok imm) : Reads "auipc" (.auipc rd imm)
  | nop : Reads "nop" .nop
  | mv {rd rs : BitVec 5} (hn : ln.args.length = 2) (h0 : ln.Register py 0 rd)
      (h1 : ln.Register py 1 rs) : Reads "mv" (.mv rd rs)
  | not {rd rs : BitVec 5} (hn : ln.args.length = 2) (h0 : ln.Register py 0 rd)
      (h1 : ln.Register py 1 rs) : Reads "not" (.not rd rs)
  | neg {rd rs : BitVec 5} (hn : ln.args.length = 2) (h0 : ln.Register py 0 rd)
      (h1 : ln.Register py 1 rs) : Reads "neg" (.neg rd rs)
  | j {target : ℤ} (hn : ln.args.length = 1) (h0 : ln.value py syms 0 = .ok target) :
      Reads "j" (.j target)
  | jr {rs : BitVec 5} (hn : ln.args.length = 1) (h0 : ln.Register py 0 rs) : Reads "jr" (.jr rs)
  | ret (hn : ln.args = []) : Reads "ret" .ret
  | beqz {rs : BitVec 5} {target : ℤ} (hn : ln.args.length = 2) (h0 : ln.Register py 0 rs)
      (h1 : ln.value py syms 1 = .ok target) : Reads "beqz" (.beqz rs target)
  | bnez {rs : BitVec 5} {target : ℤ} (hn : ln.args.length = 2) (h0 : ln.Register py 0 rs)
      (h1 : ln.value py syms 1 = .ok target) : Reads "bnez" (.bnez rs target)

/-- The displacement form is three operands. -/
example : splitArgs "ra, 4(sp)" = ["ra", "4", "sp"] := by decide +kernel

end Reads
end RiscForge.Assembler
