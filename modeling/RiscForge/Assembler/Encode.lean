import RiscForge.Assembler.Source
import RiscForge.Refmodel.Encoding

/-! The field packers and pass 2 of `assembler/assemble.py`. -/
namespace RiscForge.Assembler

open Lib Rtl Refmodel

section Packers
variable (opcode rd f3 rs1 rs2 f7 imm : ℤ)

def rType : ℤ :=
  (f7 &&& 0x7F) <<< 25 ||| (rs2 &&& 0x1F) <<< 20 ||| (rs1 &&& 0x1F) <<< 15 |||
    (f3 &&& 0x7) <<< 12 ||| (rd &&& 0x1F) <<< 7 ||| (opcode &&& 0x7F)

def iType : ℤ :=
  (imm &&& 0xFFF) <<< 20 ||| (rs1 &&& 0x1F) <<< 15 ||| (f3 &&& 0x7) <<< 12 |||
    (rd &&& 0x1F) <<< 7 ||| (opcode &&& 0x7F)

def sType : ℤ :=
  let hi := imm >>> 5 &&& 0x7F
  let lo := imm &&& 0x1F
  hi <<< 25 ||| (rs2 &&& 0x1F) <<< 20 ||| (rs1 &&& 0x1F) <<< 15 ||| (f3 &&& 0x7) <<< 12 |||
    lo <<< 7 ||| (opcode &&& 0x7F)

def bType : ℤ :=
  let b12 := imm >>> 12 &&& 1
  let b11 := imm >>> 11 &&& 1
  let b10To5 := imm >>> 5 &&& 0x3F
  let b4To1 := imm >>> 1 &&& 0xF
  b12 <<< 31 ||| b10To5 <<< 25 ||| (rs2 &&& 0x1F) <<< 20 ||| (rs1 &&& 0x1F) <<< 15 |||
    (f3 &&& 0x7) <<< 12 ||| b4To1 <<< 8 ||| b11 <<< 7 ||| (opcode &&& 0x7F)

def uType : ℤ := (imm &&& 0xFFFFF) <<< 12 ||| (rd &&& 0x1F) <<< 7 ||| (opcode &&& 0x7F)

def jType : ℤ :=
  let b20 := imm >>> 20 &&& 1
  let b19To12 := imm >>> 12 &&& 0xFF
  let b11 := imm >>> 11 &&& 1
  let b10To1 := imm >>> 1 &&& 0x3FF
  b20 <<< 31 ||| b10To1 <<< 21 ||| b11 <<< 20 ||| b19To12 <<< 12 ||| (rd &&& 0x1F) <<< 7 |||
    (opcode &&& 0x7F)

end Packers

section Tables

/-- `_R_TABLE`. -/
def rTable : String → Option (F3Op × ℤ)
  | "add" => some (.addSub, f7Default)
  | "sub" => some (.addSub, Refmodel.f7Alt)
  | "sll" => some (.sll, f7Default)
  | "slt" => some (.slt, f7Default)
  | "sltu" => some (.sltu, f7Default)
  | "xor" => some (.xor, f7Default)
  | "srl" => some (.sr, f7Default)
  | "sra" => some (.sr, Refmodel.f7Alt)
  | "or" => some (.or, f7Default)
  | "and" => some (.and, f7Default)
  | _ => none

/-- `_I_ALU_TABLE`. -/
def iAluTable : String → Option F3Op
  | "addi" => some .addSub
  | "slti" => some .slt
  | "sltiu" => some .sltu
  | "xori" => some .xor
  | "ori" => some .or
  | "andi" => some .and
  | _ => none

/-- `_LOAD_TABLE`. -/
def loadTable : String → Option F3Load
  | "lb" => some .lb
  | "lh" => some .lh
  | "lw" => some .lw
  | "lbu" => some .lbu
  | "lhu" => some .lhu
  | _ => none

/-- `_STORE_TABLE`. -/
def storeTable : String → Option F3Store
  | "sb" => some .sb
  | "sh" => some .sh
  | "sw" => some .sw
  | _ => none

/-- `_BRANCH_TABLE`. -/
def branchTable : String → Option F3Branch
  | "beq" => some .beq
  | "bne" => some .bne
  | "blt" => some .blt
  | "bge" => some .bge
  | "bltu" => some .bltu
  | "bgeu" => some .bgeu
  | _ => none

end Tables

/-- The symbol table, a `dict` from labels to addresses. -/
abbrev Syms := List (String × ℤ)

variable (py : Python) (syms : Syms) (ln : Line)

section Operands

def resolve (tok : String) (lineno : ℕ) (src : String) : Asm ℤ :=
  let t := strip tok
  match t.toList with
  | [] => asmError lineno "empty operand" src
  | c :: _ =>
    if isAlpha py c || c == '_' || c == '.' then
      match syms.lookup t with
      | some v => .ok v
      | none => asmError lineno s!"undefined symbol {pyRepr py t}" src
    else parseInt py t lineno src

/-- An error that blames the line. -/
def Line.fail {α : Type} (msg : String) : Asm α := asmError ln.lineno msg ln.raw

def expectArgs (n : ℕ) (what : String) : Asm Unit :=
  if ln.args.length ≠ n then
    let got := ln.args.length
    ln.fail s!"{what}: expected {n} operands, got {got}"
  else .ok ()

/-- Operand `k` as a register, and as a literal or label. -/
def Line.reg (k : ℕ) : Asm ℤ := parseReg py (ln.args.getD k "") ln.lineno ln.raw

def Line.value (k : ℕ) : Asm ℤ := resolve py syms (ln.args.getD k "") ln.lineno ln.raw

def Line.fitSigned (v : ℤ) (bits : ℕ) (what : String) : Asm ℤ :=
  Assembler.fitSigned v ln.lineno ln.raw what bits

/-- `{v:#x}`. -/
def hexLiteral (v : ℤ) : String :=
  let digits := String.ofList (Nat.toDigits 16 v.natAbs)
  if v < 0 then s!"-0x{digits}" else s!"0x{digits}"

/-- The distance from the line to a target, which the transfers with `even` check for parity. -/
def Line.offset (target : ℤ) (even : Option String) : Asm ℤ :=
  let offset := target - ln.pc
  match even with
  | some what =>
    if offset &&& 1 ≠ 0 then ln.fail s!"{what} target {hexLiteral target} not 2-byte aligned"
    else .ok offset
  | none => .ok offset

/-- `try: rs1 = parse_reg(..); imm = _resolve(..)`, `except AsmError: ..`. -/
def orElse {α : Type} (x y : Asm α) : Asm α :=
  match x with
  | .error (.asm _) => y
  | x => x

/-- The upper part that, with a sign-extended low part, makes `v`. -/
def hi20 (v : ℤ) : ℤ :=
  let lo := v &&& 0xFFF
  let hi := v >>> 12 &&& 0xFFFFF
  if lo &&& 0x800 ≠ 0 then hi + 1 &&& 0xFFFFF else hi

end Operands

section Families
variable (op : String)

def opcodeOf (o : Opcode) : ℤ := IntEnum.value o

def encodeR (f3 : F3Op) (f7 : ℤ) : Asm (List ℤ) := do
  expectArgs ln 3 op
  let rd ← ln.reg py 0
  let rs1 ← ln.reg py 1
  let rs2 ← ln.reg py 2
  return [rType (opcodeOf .reg) rd (IntEnum.value f3) rs1 rs2 f7]

def encodeIAlu (f3 : F3Op) : Asm (List ℤ) := do
  expectArgs ln 3 op
  let rd ← ln.reg py 0
  let rs1 ← ln.reg py 1
  let imm ← ln.value py syms 2
  let imm12 ← ln.fitSigned imm 12 "imm"
  return [iType (opcodeOf .imm) rd (IntEnum.value f3) rs1 imm12]

def encodeShift : Asm (List ℤ) := do
  expectArgs ln 3 op
  let rd ← ln.reg py 0
  let rs1 ← ln.reg py 1
  let sh ← ln.value py syms 2
  let sh ← fitUnsigned sh ln.lineno ln.raw "shamt" 5
  let f3 : F3Op := if op = "slli" then .sll else .sr
  let f7 := if op = "srai" then Refmodel.f7Alt else f7Default
  return [rType (opcodeOf .imm) rd (IntEnum.value f3) rs1 sh f7]

def encodeLoad (f3 : F3Load) : Asm (List ℤ) := do
  expectArgs ln 3 op
  let rd ← ln.reg py 0
  let imm ← ln.value py syms 1
  let rs1 ← ln.reg py 2
  let imm12 ← ln.fitSigned imm 12 "offset"
  return [iType (opcodeOf .load) rd (IntEnum.value f3) rs1 imm12]

def encodeStore (f3 : F3Store) : Asm (List ℤ) := do
  expectArgs ln 3 op
  let rs2 ← ln.reg py 0
  let imm ← ln.value py syms 1
  let rs1 ← ln.reg py 2
  let imm12 ← ln.fitSigned imm 12 "offset"
  return [sType (opcodeOf .store) (IntEnum.value f3) rs1 rs2 imm12]

def encodeBranch (f3 : F3Branch) : Asm (List ℤ) := do
  expectArgs ln 3 op
  let rs1 ← ln.reg py 0
  let rs2 ← ln.reg py 1
  let target ← ln.value py syms 2
  let offset ← ln.offset target (some "branch")
  let imm13 ← ln.fitSigned offset 13 "branch offset"
  return [bType (opcodeOf .branch) (IntEnum.value f3) rs1 rs2 imm13]

/-- `jal label` links in `ra`. -/
def Line.jalOperands : Asm (ℤ × ℤ) :=
  if ln.args.length = 1 then do
    let target ← ln.value py syms 0
    return (1, target)
  else if ln.args.length = 2 then do
    let rd ← ln.reg py 0
    let target ← ln.value py syms 1
    return (rd, target)
  else ln.fail "jal: expected 1 or 2 operands"

def encodeJal : Asm (List ℤ) := do
  let (rd, target) ← ln.jalOperands py syms
  let offset ← ln.offset target (some "jal")
  let imm21 ← ln.fitSigned offset 21 "jal offset"
  return [jType (opcodeOf .jal) rd imm21]

/-- `jalr rs1`, `jalr rd, rs1, imm` and `jalr rd, imm(rs1)`: the last two are told apart by
trying the second operand as a register. -/
def Line.jalrOperands : Asm (ℤ × ℤ × ℤ) :=
  if ln.args.length = 1 then do
    let rs1 ← ln.reg py 0
    return (1, rs1, 0)
  else if ln.args.length = 3 then do
    let rd ← ln.reg py 0
    let (rs1, imm) ← orElse
      (do
        let rs1 ← ln.reg py 1
        let imm ← ln.value py syms 2
        return (rs1, imm))
      (do
        let imm ← ln.value py syms 1
        let rs1 ← ln.reg py 2
        return (rs1, imm))
    return (rd, rs1, imm)
  else ln.fail "jalr: expected 1 or 3 operands"

def encodeJalr : Asm (List ℤ) := do
  let (rd, rs1, imm) ← ln.jalrOperands py syms
  let imm12 ← ln.fitSigned imm 12 "offset"
  return [iType (opcodeOf .jalr) rd 0 rs1 imm12]

/-- LUI and AUIPC take the upper 20 bits, signed or unsigned. -/
def encodeUpper : Asm (List ℤ) := do
  expectArgs ln 2 op
  let rd ← ln.reg py 0
  let v ← ln.value py syms 1
  if -(1 <<< 19) ≤ v ∧ v < 1 <<< 20 then
    return [uType (opcodeOf (if op = "lui" then .lui else .auipc)) rd (v &&& 0xFFFFF)]
  else
    let shown ← showInt v
    ln.fail s!"{op} immediate {shown} out of 20-bit range"

/-- `mv` and `not`: a register-register move through an immediate operation. -/
def encodeMove (f3 : F3Op) (imm : ℤ) : Asm (List ℤ) := do
  expectArgs ln 2 op
  let rd ← ln.reg py 0
  let rs ← ln.reg py 1
  return [iType (opcodeOf .imm) rd (IntEnum.value f3) rs imm]

def encodeNeg : Asm (List ℤ) := do
  expectArgs ln 2 op
  let rd ← ln.reg py 0
  let rs ← ln.reg py 1
  return [rType (opcodeOf .reg) rd (IntEnum.value F3Op.addSub) 0 rs Refmodel.f7Alt]

/-- `j` does not check the parity of its offset. -/
def encodeJ : Asm (List ℤ) := do
  expectArgs ln 1 op
  let target ← ln.value py syms 0
  let offset ← ln.offset target none
  let imm21 ← ln.fitSigned offset 21 "j offset"
  return [jType (opcodeOf .jal) 0 imm21]

def encodeJr : Asm (List ℤ) := do
  expectArgs ln 1 op
  let rs1 ← ln.reg py 0
  return [iType (opcodeOf .jalr) 0 0 rs1 0]

def encodeRet : Asm (List ℤ) :=
  if ln.args ≠ [] then ln.fail "ret takes no operands"
  else .ok [iType (opcodeOf .jalr) 0 0 1 0]

/-- `beqz` and `bnez`, which do not check the parity of their offset either. -/
def encodeBranchZero (f3 : F3Branch) : Asm (List ℤ) := do
  expectArgs ln 2 op
  let rs1 ← ln.reg py 0
  let target ← ln.value py syms 1
  let offset ← ln.offset target none
  let imm13 ← ln.fitSigned offset 13 s!"{op} offset"
  return [bType (opcodeOf .branch) (IntEnum.value f3) rs1 0 imm13]

def nop : ℤ := iType (opcodeOf .imm) 0 (IntEnum.value F3Op.addSub) 0 0

def encodeLi : Asm (List ℤ) := do
  expectArgs ln 2 op
  let rd ← ln.reg py 0
  let v ← ln.value py syms 1
  let v32 := v &&& 0xFFFFFFFF
  if -(1 <<< 11) ≤ v ∧ v ≤ 1 <<< 11 - 1 then
    return [iType (opcodeOf .imm) rd (IntEnum.value F3Op.addSub) 0 (v &&& 0xFFF), nop]
  else
    return [uType (opcodeOf .lui) rd (hi20 v32),
      iType (opcodeOf .imm) rd (IntEnum.value F3Op.addSub) rd (v32 &&& 0xFFF)]

def encodeLa : Asm (List ℤ) := do
  expectArgs ln 2 op
  let rd ← ln.reg py 0
  let target ← ln.value py syms 1
  let offset := target - ln.pc &&& 0xFFFFFFFF
  return [uType (opcodeOf .auipc) rd (hi20 offset),
    iType (opcodeOf .imm) rd (IntEnum.value F3Op.addSub) rd (offset &&& 0xFFF)]

def encodeCall : Asm (List ℤ) := do
  expectArgs ln 1 op
  let target ← ln.value py syms 0
  let offset := target - ln.pc &&& 0xFFFFFFFF
  return [uType (opcodeOf .auipc) 1 (hi20 offset),
    iType (opcodeOf .jalr) 1 0 1 (offset &&& 0xFFF)]

end Families

/-- The directives that hold data: each operand, cut to its width. -/
def encodeData (mask : ℤ) : Asm (List ℤ) :=
  ln.args.mapM fun a => do
    let v ← resolve py syms a ln.lineno ln.raw
    return v &&& mask

/-- The mnemonics outside the tables, in the order in which they are tried. -/
def encodeOther (op : String) : Asm (List ℤ) :=
  match op with
  | "slli" | "srli" | "srai" => encodeShift py syms ln op
  | "jal" => encodeJal py syms ln
  | "jalr" => encodeJalr py syms ln
  | "lui" | "auipc" => encodeUpper py syms ln op
  | "fence" => .ok [iType (opcodeOf .fence) 0 0 0 0b000011111111]
  | "fence.i" => .ok [iType (opcodeOf .fence) 0 1 0 0]
  | "ecall" => .ok [iType (opcodeOf .system) 0 0 0 Refmodel.f12Ecall]
  | "ebreak" => .ok [iType (opcodeOf .system) 0 0 0 Refmodel.f12Ebreak]
  | "nop" => .ok [nop]
  | "mv" => encodeMove py ln op .addSub 0
  | "not" => encodeMove py ln op .xor (-1 &&& 0xFFF)
  | "neg" => encodeNeg py ln op
  | "j" => encodeJ py syms ln op
  | "jr" => encodeJr py ln op
  | "ret" => encodeRet ln
  | "beqz" => encodeBranchZero py syms ln op .beq
  | "bnez" => encodeBranchZero py syms ln op .bne
  | "li" => encodeLi py syms ln op
  | "la" => encodeLa py syms ln op
  | "call" => encodeCall py syms ln op
  | op => ln.fail s!"unknown mnemonic or directive {pyRepr py op}"

/-- An instruction line. No mnemonic is in two tables. -/
def encodeInstruction (op : String) : Asm (List ℤ) :=
  match rTable op with
  | some (f3, f7) => encodeR py ln op f3 f7
  | none =>
    match iAluTable op with
    | some f3 => encodeIAlu py syms ln op f3
    | none =>
      match loadTable op with
      | some f3 => encodeLoad py syms ln op f3
      | none =>
        match storeTable op with
        | some f3 => encodeStore py syms ln op f3
        | none =>
          match branchTable op with
          | some f3 => encodeBranch py syms ln op f3
          | none => encodeOther py syms ln op

/-- `encode_line`. -/
def encodeLine : Asm (List ℤ) :=
  match ln.op with
  | none => .ok []
  | some ".text" | some ".data" | some ".align" => .ok []
  | some ".word" => encodeData py syms ln 0xFFFFFFFF
  | some ".byte" => encodeData py syms ln 0xFF
  | some op => encodeInstruction py syms ln op

end RiscForge.Assembler
