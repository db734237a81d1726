import Mathlib.Data.List.DropRight
import RiscForge.Lib.PyInt

/-! The string methods of Python that a line-based tool needs, and its integer literals. -/
namespace RiscForge.Lib

/-- The interpreter: what its Unicode tables say beyond ASCII, and the largest `n` for which
`1 << n` fits into the memory. -/
structure Python where
  lower : String → String
  isAlpha : Char → Bool
  decimal : Char → Option (Fin 10)
  repr : String → String
  maxShift : ℕ

/-- An interpreter that knows ASCII only. -/
def Python.plain : Python where
  lower := id
  isAlpha _ := false
  decimal _ := none
  repr := id
  maxShift := 2 ^ 32

def isAscii (c : Char) : Bool := c.toNat < 128

section Chars

/-- `str.isspace`, which is also `\s` of a regular expression. -/
def isSpace (c : Char) : Bool :=
  let n := c.toNat
  (0x09 ≤ n && n ≤ 0x0D) || (0x1C ≤ n && n ≤ 0x20) || n == 0x85 || n == 0xA0 || n == 0x1680 ||
    (0x2000 ≤ n && n ≤ 0x200A) || n == 0x2028 || n == 0x2029 || n == 0x202F || n == 0x205F ||
    n == 0x3000

/-- The line boundaries of `str.splitlines`. -/
def isLineBreak (c : Char) : Bool :=
  let n := c.toNat
  (0x0A ≤ n && n ≤ 0x0D) || (0x1C ≤ n && n ≤ 0x1E) || n == 0x85 || n == 0x2028 || n == 0x2029

variable (py : Python) (c : Char)

def isAlpha : Bool := if isAscii c then c.isAlpha else py.isAlpha c

end Chars

section Strings
variable (py : Python) (s : String)

def stripChars (cs : List Char) : List Char := (cs.dropWhile isSpace).rdropWhile isSpace

def strip : String := String.ofList (stripChars s.toList)

def rstrip : String := String.ofList (s.toList.rdropWhile isSpace)

def lower : String :=
  if s.toList.all isAscii then String.ofList (s.toList.map Char.toLower) else py.lower s

/-- `repr(s)`. -/
def pyRepr : String :=
  if s.toList.all fun c => 0x20 ≤ c.toNat && c.toNat < 0x7F && c != '\'' && c != '\\' then
    s!"'{s}'"
  else py.repr s

/-- The lines from `cur` on, which is the current line so far in reverse. -/
def linesFrom (cur : List Char) : List Char → List String
  | [] => if cur.isEmpty then [] else [String.ofList cur.reverse]
  | '\r' :: '\n' :: cs => String.ofList cur.reverse :: linesFrom [] cs
  | c :: cs =>
    if isLineBreak c then String.ofList cur.reverse :: linesFrom [] cs
    else linesFrom (c :: cur) cs

def splitlines : List String := linesFrom [] s.toList

/-- The words from `cur` on, which is the current word so far in reverse. -/
def wordsFrom (cur : List Char) : List Char → List String
  | [] => if cur.isEmpty then [] else [String.ofList cur.reverse]
  | c :: cs =>
    if isSpace c then
      if cur.isEmpty then wordsFrom [] cs else String.ofList cur.reverse :: wordsFrom [] cs
    else wordsFrom (c :: cur) cs

/-- `s.split()`. -/
def splitWords : List String := wordsFrom [] s.toList

end Strings

section Ints
variable (py : Python)

/-- The value of a digit in base `b`. -/
def digitVal (b : ℕ) (c : Char) : Option ℕ :=
  let n := c.toNat
  let v :=
    if 48 ≤ n ∧ n ≤ 57 then n - 48
    else if 97 ≤ n ∧ n ≤ 122 then n - 87
    else if 65 ≤ n ∧ n ≤ 90 then n - 55
    else b
  if v < b then some v else none

/-- The value of a digit string. -/
def digitsVal (b : ℕ) (cs : List Char) : Option ℕ :=
  cs.foldlM (fun acc c => (digitVal b c).map (acc * b + ·)) 0

/-- A string beyond ASCII is read with its spaces and decimal digits brought back to ASCII. -/
def toAscii (cs : List Char) : List Char :=
  if cs.all isAscii then cs
  else cs.map fun c =>
    if isAscii c then c
    else if isSpace c then ' '
    else match py.decimal c with
      | some d => Char.ofNat (48 + d)
      | none => '?'

def isBlank (c : Char) : Bool := c == ' ' || (0x09 ≤ c.toNat && c.toNat ≤ 0x0D)

/-- The sign, if there is one, and what follows it. -/
def splitSign : List Char → Bool × List Char
  | '-' :: cs => (true, cs)
  | '+' :: cs => (false, cs)
  | cs => (false, cs)

/-- The digits behind a base prefix, which may be followed by an underscore. -/
def dropBasePrefix (b : ℕ) : List Char → List Char
  | '0' :: c :: cs =>
    if b = 16 ∧ c.toLower = 'x' ∨ b = 8 ∧ c.toLower = 'o' ∨ b = 2 ∧ c.toLower = 'b' then
      match cs with
      | '_' :: cs => cs
      | cs => cs
    else '0' :: c :: cs
  | cs => cs

/-- The longest decimal string that is converted. -/
def intMaxStrDigits : ℕ := 4300

/-- `int(s, b)` for the bases 2, 8, 10 and 16; `none` is a `ValueError`. -/
def pyInt (b : ℕ) (cs : List Char) : Option ℤ :=
  let (neg, rest) := splitSign ((toAscii py cs).dropWhile isBlank)
  let groups := ((dropBasePrefix b rest).rdropWhile isBlank).splitOn '_'
  let digits := groups.flatten
  if groups.any List.isEmpty then none
  else if b = 10 ∧ intMaxStrDigits < digits.length then none
  else (digitsVal b digits).map fun v => if neg then -(v : ℤ) else v

/-- `str(v)`, which also has the limit. -/
def pyStr (v : ℤ) : Option String :=
  if v.natAbs < 10 ^ intMaxStrDigits then some (toString v) else none

end Ints
end RiscForge.Lib
