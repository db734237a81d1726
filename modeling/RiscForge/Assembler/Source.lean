import RiscForge.Lib.PyStr

/-! Source lines of `assembler/assemble.py`: literals, registers, operands and tokenizing. -/
namespace RiscForge.Assembler

open Lib

/-- `AsmError`, with the text of the exception. -/
structure AsmError where
  lineno : ℕ
  text : String
  deriving DecidableEq, Repr

/-- What the assembler can raise. -/
inductive Raised
  | asm (e : AsmError)
  | valueError (msg : String)
  | memoryError
  deriving DecidableEq, Repr

abbrev Asm := Except Raised

/-- The constructor of `AsmError`. -/
def AsmError.init (lineno : ℕ) (msg src : String) : AsmError :=
  ⟨lineno, s!"line {lineno}: {msg}\n    {rstrip src}"⟩

def asmError {α : Type} (lineno : ℕ) (msg src : String) : Asm α :=
  .error (.asm (.init lineno msg src))

variable (py : Python)

section Literals
variable (tok : String) (v : ℤ) (lineno : ℕ) (src what : String)

/-- `_REG_ALIASES`. -/
def regAliases : String → Option ℤ
  | "zero" => some 0
  | "ra" => some 1
  | "sp" => some 2
  | "gp" => some 3
  | "tp" => some 4
  | "t0" => some 5
  | "t1" => some 6
  | "t2" => some 7
  | "s0" => some 8
  | "fp" => some 8
  | "s1" => some 9
  | "a0" => some 10
  | "a1" => some 11
  | "a2" => some 12
  | "a3" => some 13
  | "a4" => some 14
  | "a5" => some 15
  | "a6" => some 16
  | "a7" => some 17
  | "s2" => some 18
  | "s3" => some 19
  | "s4" => some 20
  | "s5" => some 21
  | "s6" => some 22
  | "s7" => some 23
  | "s8" => some 24
  | "s9" => some 25
  | "s10" => some 26
  | "s11" => some 27
  | "t3" => some 28
  | "t4" => some 29
  | "t5" => some 30
  | "t6" => some 31
  | _ => none

/-- The group of `x([0-9]+)`, matched in full. -/
def matchXReg : List Char → Option (List Char)
  | 'x' :: ds => if !ds.isEmpty && ds.all Char.isDigit then some ds else none
  | _ => none

theorem matchXReg_eq_some {cs ds : List Char} (h : matchXReg cs = some ds) :
    cs = 'x' :: ds ∧ ds ≠ [] ∧ ds.all Char.isDigit = true := by
  unfold matchXReg at h
  split at h
  case h_1 ds' =>
    split at h
    case isTrue hd =>
      cases h
      simp only [Bool.and_eq_true, Bool.not_eq_true', List.isEmpty_eq_false_iff] at hd
      exact ⟨rfl, hd.1, hd.2⟩
    case isFalse => cases h
  case h_2 => cases h

/-- No alias looks like `x` and a number. -/
theorem regAliases_of_xReg {t : String} {ds : List Char} (h : matchXReg t.toList = some ds) :
    regAliases t = none := by
  unfold regAliases
  split <;> first | rfl | cases (matchXReg_eq_some h).1

def parseReg : Asm ℤ :=
  let t := lower py (strip tok)
  let bad : Asm ℤ := asmError lineno s!"bad register name {pyRepr py tok}" src
  match regAliases t with
  | some n => .ok n
  | none =>
    match matchXReg t.toList with
    | some ds =>
      match pyInt py 10 ds with
      | some n => if 0 ≤ n ∧ n ≤ 31 then .ok n else bad
      | none => .error (.valueError "int")
    | none => bad

/-- The conversion that `parse_int` selects by the literal's beginning. -/
def intLiteral (t : List Char) : Option ℤ :=
  match t with
  | '-' :: '0' :: 'x' :: ds | '-' :: '0' :: 'X' :: ds => (pyInt py 16 ds).map Neg.neg
  | '0' :: 'x' :: ds | '0' :: 'X' :: ds => pyInt py 16 ds
  | '-' :: '0' :: 'b' :: ds | '-' :: '0' :: 'B' :: ds => (pyInt py 2 ds).map Neg.neg
  | '0' :: 'b' :: ds | '0' :: 'B' :: ds => pyInt py 2 ds
  | '-' :: '0' :: 'o' :: ds | '-' :: '0' :: 'O' :: ds => (pyInt py 8 ds).map Neg.neg
  | '0' :: 'o' :: ds | '0' :: 'O' :: ds => pyInt py 8 ds
  | ds => pyInt py 10 ds

def parseInt : Asm ℤ :=
  match intLiteral py ((strip tok).toList.filter (· ≠ '_')) with
  | some v => .ok v
  | none => asmError lineno s!"bad integer literal {pyRepr py tok}" src

/-- `v` in a message: a number with too many digits cannot be shown. -/
def showInt : Asm String :=
  match pyStr v with
  | some s => .ok s
  | none => .error (.valueError "str")

def fitSigned (bits : ℕ) : Asm ℤ := do
  let lo : ℤ := -(1 <<< (bits - 1))
  let hi : ℤ := 1 <<< (bits - 1) - 1
  if lo ≤ v ∧ v ≤ hi then
    return v &&& (1 <<< bits - 1)
  else
    let shown ← showInt v
    asmError lineno s!"{what}={shown} out of signed {bits}-bit range [{lo}, {hi}]" src

def fitUnsigned (bits : ℕ) : Asm ℤ := do
  let hi : ℤ := 1 <<< bits - 1
  if 0 ≤ v ∧ v < 1 <<< bits then
    return v
  else
    let shown ← showInt v
    asmError lineno s!"{what}={shown} out of unsigned {bits}-bit range [0, {hi}]" src

end Literals

section Lines

inductive Section
  | text | data
  deriving DecidableEq, Repr

/-- `Line`; `pc` and `size` are filled in by pass 1. -/
structure Line where
  lineno : ℕ
  raw : String
  label : Option String
  op : Option String
  args : List String
  sec : Section
  pc : ℤ
  size : ℤ
  deriving DecidableEq, Repr

/-- `_COMMENT_RE.sub("", raw)`: everything from the first `#` or `//` on goes. -/
def dropComment : List Char → List Char
  | [] => []
  | '#' :: _ => []
  | '/' :: '/' :: _ => []
  | c :: cs => c :: dropComment cs

def isLabelStart (c : Char) : Bool := isAscii c && c.isAlpha || c == '_' || c == '.'

def isLabelChar (c : Char) : Bool :=
  isAscii c && c.isAlphanum || c == '_' || c == '.' || c == '$'

/-- The two groups of `_LABEL_RE`. -/
def matchLabel (line : List Char) : Option (List Char × List Char) :=
  match line with
  | [] => none
  | c :: cs =>
    if isLabelStart c then
      match (cs.dropWhile isLabelChar).dropWhile isSpace with
      | ':' :: rest => some (c :: cs.takeWhile isLabelChar, rest.dropWhile isSpace)
      | _ => none
    else none

def isParen (c : Char) : Bool := c == '(' || c == ')'

/-- The group of `\(\s*([^()]+?)\s*\)` for the text between the parentheses: blanks around it are
not part of it, unless there is nothing else. -/
def parenGroup (inner : List Char) : List Char :=
  if (stripChars inner).isEmpty then inner.drop (inner.length - 1) else stripChars inner

/-- `re.sub` of that pattern by `, \1`. -/
def subParens : ℕ → List Char → List Char
  | 0, cs => cs
  | _ + 1, [] => []
  | n + 1, '(' :: cs =>
    let inner := cs.takeWhile fun c => !isParen c
    match cs.dropWhile fun c => !isParen c with
    | ')' :: rest =>
      if inner.isEmpty then '(' :: subParens n cs
      else ',' :: ' ' :: parenGroup inner ++ subParens n rest
    | _ => '(' :: subParens n cs
  | n + 1, c :: cs => c :: subParens n cs

/-- `_split_args`. -/
def splitArgs (rest : String) : List String :=
  let rest := stripChars rest.toList
  let parts := (subParens rest.length rest).splitOn ','
  (parts.map stripChars).filterMap fun a => if a.isEmpty then none else some (String.ofList a)

/-- What `tokenize` makes of one source line, if it is not empty. -/
def tokenizeLine (raw : String) (lineno : ℕ) : Option Line :=
  let line := stripChars (dropComment raw.toList)
  if line.isEmpty then none
  else
    let (label, line) :=
      match matchLabel line with
      | some (name, rest) => (some (String.ofList name), stripChars rest)
      | none => (none, line)
    if line.isEmpty then some ⟨lineno, raw, label, none, [], .text, 0, 0⟩
    else
      let op := lower py (String.ofList (line.takeWhile fun c => !isSpace c))
      let rest := (line.dropWhile fun c => !isSpace c).dropWhile isSpace
      some ⟨lineno, raw, label, some op, splitArgs (String.ofList rest), .text, 0, 0⟩

def tokenize (source : String) : List Line :=
  ((splitlines source).zipIdx 1).filterMap fun p => tokenizeLine py p.1 p.2

end Lines
end RiscForge.Assembler
