import RiscForge.Lib.IntText
import RiscForge.Lib.Pattern
import RiscForge.Refmodel.Encoding

/-! `scripts/encoding_check.py`, which compares the RTL package with the Python tables. -/
namespace RiscForge.Gate

open Lib Rtl Refmodel

/-- A `dict` from names to numbers, in the order of its keys. -/
abbrev Dict := List (String × ℤ)

def Dict.set (d : Dict) (key : String) (v : ℤ) : Dict :=
  if d.any fun p => p.1 == key then d.map fun p => if p.1 == key then (key, v) else p
  else d ++ [(key, v)]

/-- `d == e`, whatever the orders. -/
def Dict.same (d e : Dict) : Bool :=
  d.length == e.length && d.all fun p => e.lookup p.1 == some p.2

/-- What `\w` matches beyond ASCII is `wide`. -/
def isWord (wide : Char → Bool) (c : Char) : Bool :=
  if isAscii c then c.isAlphanum || c == '_' else wide c

section Parsers
variable (py : Python) (wide : Char → Bool)

def isDecimal (c : Char) : Bool := if isAscii c then c.isDigit else (py.decimal c).isSome

/-- `_INT_LITERAL`, with its base letter and its digits. -/
def intLiteral : Pattern (Char × List Char) := do
  let _ ← Pattern.plus (isDecimal py)
  Pattern.lit ['\'']
  let letter ← Pattern.one fun c => c ∈ ['b', 'd', 'h', 'o', 'B', 'D', 'H', 'O']
  let digits ← Pattern.plus fun c => c.isDigit || ('a' ≤ c && c ≤ 'f') || ('A' ≤ c && c ≤ 'F') || c == '_'
  return (letter, digits)

def literalBase (letter : Char) : ℕ :=
  match letter.toLower with
  | 'b' => 2
  | 'd' => 10
  | 'h' => 16
  | _ => 8

/-- The error of this script is always a `ValueError`. -/
abbrev Check := Except String

def toInt : Option ℤ → Check ℤ
  | some v => .ok v
  | none => .error "invalid literal for int()"

def parseSvIntLiteral (s : String) : Check ℤ :=
  let s := (strip s).toList.filter (· ≠ '_')
  match (intLiteral py).fullMatch s with
  | some (letter, digits) => toInt (pyInt py (literalBase letter) digits)
  | none => toInt (pyIntAnyBase py s)

/-- `close_pat` and `open_pat`. -/
def closePat (typedefName : String) : Pattern Unit := do
  let _ ← Pattern.star isSpace
  Pattern.lit ['}']
  let _ ← Pattern.star isSpace
  Pattern.lit typedefName.toList
  let _ ← Pattern.star isSpace
  Pattern.lit [';']

def openPat : Pattern Unit := do
  let _ ← Pattern.star isSpace
  Pattern.lit "typedef".toList
  let _ ← Pattern.plus isSpace
  Pattern.lit "enum".toList
  Pattern.wordEnd (isWord wide)

def closes (typedefName : String) (line : String) : Bool :=
  (closePat typedefName).matches? line.toList

def opens (line : String) : Bool := (openPat wide).matches? line.toList

/-- `re.sub(r"//.*", "", line)`. -/
def dropLineComment : List Char → List Char
  | [] => []
  | '/' :: '/' :: _ => []
  | c :: cs => c :: dropLineComment cs

/-- The line of a member without its comment, its comma and the blanks around it. -/
def memberText (raw : String) : String :=
  let line := strip (String.ofList (dropLineComment raw.toList))
  strip (String.ofList (line.toList.rdropWhile (· == ',')))

def addMember (typedefName : String) (members : Dict) (raw : String) : Check Dict :=
  let line := memberText raw
  if line = "" then .ok members
  else
    match line.toList.dropWhile (· != '=') with
    | [] => .error s!"{typedefName}: member line {pyRepr py raw} has no `=`"
    | _ :: val => do
      let name := String.ofList (line.toList.takeWhile (· != '='))
      let v ← parseSvIntLiteral py (strip (String.ofList val))
      return members.set (strip name) v

/-- The members between the opening line that is closest to the closing line, and that line. -/
def enumOfLines (typedefName : String) (lines : List String) : Check Dict :=
  match lines.findIdx? (closes typedefName) with
  | none => .error s!"could not find closing line `\x7d {typedefName};`"
  | some closeIdx =>
    match (List.range closeIdx).reverse.find? fun i => opens wide (lines.getD i "") with
    | none => .error s!"found close for {typedefName} but no `typedef enum` opener above it"
    | some openIdx =>
      ((lines.take closeIdx).drop (openIdx + 1)).foldlM (addMember py typedefName) []

def parseSvEnum (svText typedefName : String) : Check Dict :=
  enumOfLines py wide typedefName (splitlines svText)

/-- `localparam\s+(?:logic\s*\[[^\]]+\]\s+|int\s+)?NAME\s*=\s*([^;]+);`. -/
def logicType : Pattern Unit := do
  Pattern.lit "logic".toList
  let _ ← Pattern.star isSpace
  Pattern.lit ['[']
  let _ ← Pattern.plus (· != ']')
  Pattern.lit [']']
  let _ ← Pattern.plus isSpace
  return ()

def intType : Pattern Unit := do
  Pattern.lit "int".toList
  let _ ← Pattern.plus isSpace
  return ()

def localparamPat (name : String) : Pattern (List Char) := do
  Pattern.lit "localparam".toList
  let _ ← Pattern.plus isSpace
  Pattern.opt (Pattern.alt logicType intType)
  Pattern.lit name.toList
  let _ ← Pattern.star isSpace
  Pattern.lit ['=']
  let _ ← Pattern.star isSpace
  let val ← Pattern.plus (· != ';')
  Pattern.lit [';']
  return val

def parseSvLocalparam (svText name : String) : Check ℤ :=
  match (localparamPat name).search svText.toList with
  | none => .error s!"could not find localparam {name}"
  | some val => parseSvIntLiteral py (String.ofList val)

end Parsers

/-- A row of `ENUM_MAPPINGS`, with the members of the Python class. -/
structure EnumMapping where
  typedefName : String
  cls : String
  members : Dict
  lead : String

section Classes

def opcodeNames : List (String × Opcode) :=
  [("LUI", .lui), ("AUIPC", .auipc), ("JAL", .jal), ("JALR", .jalr), ("BRANCH", .branch),
    ("LOAD", .load), ("STORE", .store), ("IMM", .imm), ("REG", .reg), ("FENCE", .fence),
    ("SYSTEM", .system)]

def f3OpNames : List (String × F3Op) :=
  [("ADD_SUB", .addSub), ("SLL", .sll), ("SLT", .slt), ("SLTU", .sltu), ("XOR", .xor), ("SR", .sr),
    ("OR", .or), ("AND", .and)]

def f3BranchNames : List (String × F3Branch) :=
  [("BEQ", .beq), ("BNE", .bne), ("BLT", .blt), ("BGE", .bge), ("BLTU", .bltu), ("BGEU", .bgeu)]

def f3LoadNames : List (String × F3Load) :=
  [("LB", .lb), ("LH", .lh), ("LW", .lw), ("LBU", .lbu), ("LHU", .lhu)]

def f3StoreNames : List (String × F3Store) := [("SB", .sb), ("SH", .sh), ("SW", .sw)]

/-- The members of a class with their values. -/
def classItems {α : Type} {n : ℕ} [BitEnum α n] [IntEnum α] (names : List (String × α)) : Dict :=
  names.map fun p => (p.1, IntEnum.value p.2)

end Classes

/-- `ENUM_MAPPINGS`. -/
def enumMappings : List EnumMapping :=
  [⟨"opcode_e", "Opcode", classItems opcodeNames, "OP_"⟩,
    ⟨"funct3_op_e", "F3Op", classItems f3OpNames, "F3_"⟩,
    ⟨"funct3_branch_e", "F3Branch", classItems f3BranchNames, "F3_"⟩,
    ⟨"funct3_load_e", "F3Load", classItems f3LoadNames, "F3_"⟩,
    ⟨"funct3_store_e", "F3Store", classItems f3StoreNames, "F3_"⟩,
    ⟨"alu_op_e", "AluOp", [("ADD", 0), ("SUB", 1), ("AND", 2), ("OR", 3), ("XOR", 4), ("SLL", 5),
      ("SRL", 6), ("SRA", 7), ("SLT", 8), ("SLTU", 9), ("PASS_B", 10)], "ALU_"⟩,
    ⟨"alu_src_a_e", "AluSrcA", [("RS1", 0), ("PC", 1)], "ALU_A_"⟩,
    ⟨"alu_src_b_e", "AluSrcB", [("RS2", 0), ("IMM", 1)], "ALU_B_"⟩,
    ⟨"wb_src_e", "WbSrc", [("ALU", 0), ("MEM", 1), ("PC4", 2)], "WB_"⟩,
    ⟨"branch_op_e", "BranchOp", [("NONE", 0), ("EQ", 1), ("NE", 2), ("LT", 3), ("GE", 4),
      ("LTU", 5), ("GEU", 6), ("JUMP", 7)], "BR_"⟩,
    ⟨"mem_size_e", "MemSize", [("B", 0), ("H", 1), ("W", 2)], "MEM_"⟩]

/-- `LOCALPARAMS`, with their values in Python. -/
def localparams : Dict :=
  [("XLEN", 32), ("F7_DEFAULT", f7Default), ("F7_ALT", f7Alt), ("F12_ECALL", f12Ecall),
    ("F12_EBREAK", f12Ebreak)]

section Gate
variable (py : Python) (wide : Char → Bool) (svText : String)

def showInt (v : ℤ) : Check String :=
  match pyStr v with
  | some s => .ok s
  | none => .error "Exceeds the limit for integer string conversion"

/-- `sorted(d.items())`. -/
def showItems (d : Dict) : Check String := do
  let items ← (d.mergeSort fun p q => decide (p.1 ≤ q.1)).mapM fun p => do
    let shown ← showInt p.2
    return s!"({pyRepr py p.1}, {shown})"
  let joined := String.intercalate ", " items
  return s!"[{joined}]"

/-- The errors of one enumeration. -/
def checkEnum (m : EnumMapping) : Check (List String) := do
  let svMembers ← parseSvEnum py wide svText m.typedefName
  let named := fun p : String × ℤ => decide (m.lead.toList <+: p.1.toList)
  let misnamed := (svMembers.filter (!named ·)).map fun p =>
    s!"{m.typedefName}: member {pyRepr py p.1} does not start with expected prefix {pyRepr py m.lead}"
  let stripped := (svMembers.filter named).foldl (fun (d : Dict) p =>
    d.set (String.ofList (p.1.toList.drop m.lead.length)) p.2) []
  if stripped.same m.members then return misnamed
  else
    let sv ← showItems py stripped
    let python ← showItems py m.members
    return misnamed ++
      [s!"{m.typedefName} ({m.cls}) disagree:\n    SV:     {sv}\n    Python: {python}"]

def checkLocalparam (p : String × ℤ) : Check (List String) := do
  let svVal ← parseSvLocalparam py svText p.1
  if svVal = p.2 then return []
  else
    let sv ← showInt svVal
    let python ← showInt p.2
    return [s!"{p.1}: SV={sv}, Python={python}"]

/-- `errors`. -/
def driftErrors : Check (List String) := do
  let enums ← enumMappings.mapM (checkEnum py wide svText)
  let constants ← localparams.mapM (checkLocalparam py svText)
  return enums.flatten ++ constants.flatten

/-- The exit code. -/
def main : Check ℕ := do
  let errors ← driftErrors py wide svText
  return if errors = [] then 0 else 1

end Gate
end RiscForge.Gate
