import Mathlib.Logic.Function.Basic
import RiscForge.Assembler.Encode
import RiscForge.Lib.LittleEndian

/-! Pass 1, the image and the hex file of `assembler/assemble.py`. -/
namespace RiscForge.Assembler

open Lib

variable (py : Python)

section Pass1

/-- `_instruction_size`. -/
def instructionSize : String → ℤ
  | "la" | "call" | "li" => 8
  | _ => 4

/-- `v` rounded up to a multiple of `1 << n`. -/
def padTo (v : ℤ) (n : ℕ) : ℤ :=
  let boundary : ℤ := 1 <<< n
  v + boundary - 1 &&& ~~~(boundary - 1)

/-- The variables of `pass1`: the symbols, the `pc` of each section and the current section. -/
structure Layout where
  syms : Syms
  pc : Section → ℤ
  current : Section

def Layout.init (textBase dataBase : ℤ) : Layout where
  syms := []
  pc
    | .text => textBase
    | .data => dataBase
  current := .text

/-- The line takes `size` bytes of the current section. -/
def Layout.place (st : Layout) (ln : Line) (size : ℤ) : Line × Layout :=
  ({ ln with sec := st.current, pc := st.pc st.current, size := size },
    { st with pc := Function.update st.pc st.current (st.pc st.current + size) })

/-- A section directive. -/
def Layout.switch (st : Layout) (ln : Line) (sec : Section) : Line × Layout :=
  ({ ln with sec := sec, pc := st.pc sec, size := 0 }, { st with current := sec })

def Layout.define (st : Layout) (ln : Line) : Asm Layout :=
  match ln.label with
  | none => .ok st
  | some label =>
    if (st.syms.lookup label).isSome then ln.fail s!"duplicate label {pyRepr py label}"
    else .ok { st with syms := (label, st.pc st.current) :: st.syms }

def pass1Line (st : Layout) (ln : Line) : Asm (Line × Layout) := do
  let st ← st.define py ln
  match ln.op with
  | none => return st.place ln 0
  | some ".text" => return st.switch ln .text
  | some ".data" => return st.switch ln .data
  | some ".align" =>
    if ln.args.length ≠ 1 then ln.fail ".align needs exactly one argument"
    else
      let n ← parseInt py (ln.args.getD 0 "") ln.lineno ln.raw
      if 0 ≤ n ∧ n ≤ 12 then
        return st.place ln (padTo (st.pc st.current) n.toNat - st.pc st.current)
      else
        let shown ← showInt n
        ln.fail s!".align {shown} unreasonable"
  | some ".word" =>
    if ln.args = [] then ln.fail ".word needs at least one value"
    else return st.place ln (4 * ln.args.length)
  | some ".byte" =>
    if ln.args = [] then ln.fail ".byte needs at least one value"
    else return st.place ln ln.args.length
  | some op => return st.place ln (instructionSize op)

/-- The lines with their places, and the state at the end, which holds the symbol table. -/
def pass1From (st : Layout) : List Line → Asm (List Line × Layout)
  | [] => .ok ([], st)
  | ln :: lines => do
    let (ln, st) ← pass1Line py st ln
    let (lines, st) ← pass1From st lines
    return (ln :: lines, st)

def pass1 (lines : List Line) (textBase dataBase : ℤ) : Asm (List Line × Layout) :=
  pass1From py (.init textBase dataBase) lines

end Pass1

section Sizing

/-- The variables of the sizing loop of `assemble`. -/
structure Sizes where
  sizes : Section → ℤ
  current : Section

def Sizes.add (st : Sizes) (size : ℤ) : Sizes :=
  { st with sizes := Function.update st.sizes st.current (st.sizes st.current + size) }

def sizeLine (st : Sizes) (ln : Line) : Asm Sizes :=
  match ln.op with
  | none => .ok st
  | some ".text" => .ok { st with current := .text }
  | some ".data" => .ok { st with current := .data }
  | some ".align" =>
    match ln.args with
    | [] => .ok st
    | a :: _ => do
      let n ← parseInt py a ln.lineno ln.raw
      if n < 0 then .error (.valueError "negative shift count")
      else if py.maxShift < n then .error .memoryError
      else return { st with
        sizes := Function.update st.sizes st.current (padTo (st.sizes st.current) n.toNat) }
  | some ".word" => .ok (st.add (4 * ln.args.length))
  | some ".byte" => .ok (st.add ln.args.length)
  | some op => .ok (st.add (instructionSize op))

def sizeLines (lines : List Line) : Asm Sizes :=
  lines.foldlM (sizeLine py) ⟨fun _ => 0, .text⟩

/-- Where the data section starts if the caller does not say. -/
def Sizes.dataBase (st : Sizes) (textBase : ℤ) : ℤ := textBase + (st.sizes .text + 3 &&& ~~~3)

/-- The part of `assemble` before pass 2. -/
def layOut (source : String) (textBase : ℤ) (dataBase : Option ℤ) :
    Asm (List Line × Layout) := do
  let lines := tokenize py source
  let sizes ← sizeLines py lines
  pass1 py lines textBase (dataBase.getD (sizes.dataBase textBase))

end Sizing

section Image

/-- A `dict` from addresses to bytes, the last assignment first. -/
abbrev Image := List (ℤ × ℤ)

def Image.set (image : Image) (addr b : ℤ) : Image := (addr, b) :: image

/-- `image.get(addr, 0)`. -/
def Image.get (image : Image) (addr : ℤ) : ℤ := (image.lookup addr).getD 0

/-- `_emit_word`. -/
def emitWord (image : Image) (addr word : ℤ) : Image :=
  let word := word &&& 0xFFFFFFFF
  (((image.set addr (word &&& 0xFF)).set (addr + 1) (word >>> 8 &&& 0xFF)).set (addr + 2)
    (word >>> 16 &&& 0xFF)).set (addr + 3) (word >>> 24 &&& 0xFF)

def emitBytes (image : Image) (pc : ℤ) : List ℤ → Image
  | [] => image
  | b :: out => emitBytes (image.set pc (b &&& 0xFF)) (pc + 1) out

def emitWords (image : Image) (pc : ℤ) : List ℤ → Image
  | [] => image
  | w :: out => emitWords (emitWord image pc w) (pc + 4) out

def emitLine (syms : Syms) (image : Image) (ln : Line) : Asm Image :=
  match ln.op with
  | none => .ok image
  | some op => do
    let out ← encodeLine py syms ln
    return if op = ".byte" then emitBytes image ln.pc out else emitWords image ln.pc out

def emit (syms : Syms) (lines : List Line) : Asm Image := lines.foldlM (emitLine py syms) []

/-- The words of `[lo, hi)`, rounded out to word boundaries. -/
def packWords : Image → List ℤ
  | [] => []
  | (a, b) :: rest =>
    let image : Image := (a, b) :: rest
    let lo := (rest.map Prod.fst).foldl min a &&& ~~~3
    let hi := (rest.map Prod.fst).foldl max a + 1 + 3 &&& ~~~3
    (List.range ((hi - lo + 3) / 4).toNat).map fun k : ℕ =>
      let addr := lo + 4 * k
      image.get addr ||| image.get (addr + 1) <<< 8 ||| image.get (addr + 2) <<< 16 |||
        image.get (addr + 3) <<< 24

def assemble (source : String) (textBase : ℤ) (dataBase : Option ℤ) : Asm (List ℤ) := do
  let (lines, st) ← layOut py source textBase dataBase
  let image ← emit py st.syms lines
  return packWords image

def toHexLines (words : List ℤ) : String := String.join (words.map fun w => hexPad 8 w ++ "\n")

/-- `load_hex_words` of the testbench; `none` is the `ValueError` of `int`. -/
def loadHexWords (text : String) : Option (List (BitVec 8)) := do
  let words ← (splitWords text).mapM fun line => pyInt py 16 (strip line).toList
  return words.flatMap fun w => (List.range 4).map fun i => leByte (w &&& 0xFFFFFFFF).toNat i

end Image
end RiscForge.Assembler
