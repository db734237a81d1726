import RiscForge.Lib.IntText
import RiscForge.Assembler.Errors

/-! The operands that each mnemonic takes, and how those of a line are read. -/
namespace RiscForge.Assembler

open Lib Rtl

/-- What a mnemonic takes as an operand: a register, a number `v` with `lo ≤ v < hi`, a target
whose offset fits `n + 1` bits, or any number. -/
inductive Operand
  | reg
  | imm (lo hi : ℤ)
  | target (n : ℕ)
  | any
  deriving DecidableEq, Repr

def imm12 : Operand := .imm (-2 ^ 11) (2 ^ 11)

/-- The operands of the mnemonics outside the tables. -/
def otherForms : String → List (List Operand)
  | "slli" | "srli" | "srai" => [[.reg, .reg, .imm 0 (2 ^ 5)]]
  | "jal" => [[.target 20], [.reg, .target 20]]
  | "jalr" => [[.reg], [.reg, .reg, imm12], [.reg, imm12, .reg]]
  | "lui" | "auipc" => [[.reg, .imm (-2 ^ 19) (2 ^ 20)]]
  | "fence" | "fence.i" | "ecall" | "ebreak" | "nop" | "ret" => [[]]
  | "mv" | "not" | "neg" => [[.reg, .reg]]
  | "j" => [[.target 20]]
  | "jr" => [[.reg]]
  | "beqz" | "bnez" => [[.reg, .target 12]]
  | "li" | "la" => [[.reg, .any]]
  | "call" => [[.any]]
  | _ => []

/-- The forms that the operands of a mnemonic have; there is none for a word that is none. -/
def forms (op : String) : List (List Operand) :=
  match rTable op with
  | some _ => [[.reg, .reg, .reg]]
  | none =>
    match iAluTable op with
    | some _ => [[.reg, .reg, imm12]]
    | none =>
      match loadTable op with
      | some _ => [[.reg, imm12, .reg]]
      | none =>
        match storeTable op with
        | some _ => [[.reg, imm12, .reg]]
        | none =>
          match branchTable op with
          | some _ => [[.reg, .reg, .target 12]]
          | none => otherForms op

/-- A register is named by an alias, or by `x` and its number. -/
def RegName (py : Python) (tok : String) (r : ℤ) : Prop :=
  regAliases (lower py (strip tok)) = some r ∨
    ∃ ds, matchXReg (lower py (strip tok)).toList = some ds ∧ ∃ n, Numeral 10 ds n ∧ n ≤ 31 ∧ r = n

section Specification
variable (py : Python) (syms : Syms) (ln : Line)

/-- The operand is what the mnemonic takes there; `even` asks for targets at an even offset. -/
def Operand.Fits (even : Bool) (o : Operand) (a : String) : Prop :=
  match o with
  | .reg => ∃ r, RegName py a r
  | .imm lo hi => ∃ v, resolve py syms a ln.lineno ln.raw = .ok v ∧ lo ≤ v ∧ v < hi
  | .target n => ∃ v, resolve py syms a ln.lineno ln.raw = .ok v ∧
      (even = true → (v - ln.pc) % 2 = 0) ∧ -2 ^ n ≤ v - ln.pc ∧ v - ln.pc < 2 ^ n
  | .any => ∃ v, resolve py syms a ln.lineno ln.raw = .ok v

def Line.FitsForm (even : Bool) (form : List Operand) : Prop :=
  List.Forall₂ (Operand.Fits py syms ln even) form ln.args

/-- The operands have one of the forms of the mnemonic. -/
def Line.Fits (even : Bool) (op : String) : Prop :=
  ∃ form ∈ forms op, ln.FitsForm py syms even form

/-- The line is accepted if and only if its operands fit, and otherwise reported. -/
structure EncodesExactly (op : String) : Prop where
  accepts : (∃ words, encodeLine py syms ln = .ok words) ↔ ln.Fits py syms true op
  rejects : ¬ ln.Fits py syms true op →
    ∃ e, encodeLine py syms ln = .error (.asm e) ∧ e.lineno = ln.lineno

end Specification

section Registers
variable {py : Python} {tok src : String} {lineno : ℕ} {r : ℤ}

/-- `int` reads the number of a register unless it has too many digits. -/
theorem pyInt_xReg_eq_some {cs ds : List Char} (h : matchXReg cs = some ds) :
    pyInt py 10 ds = some r ↔
      ds.length ≤ intMaxStrDigits ∧ ∃ n, Numeral 10 ds n ∧ r = (n : ℤ) := by
  obtain ⟨-, hne, hd⟩ := matchXReg_eq_some h
  simp only [pyInt_isDigit hd hne, numeral_iff]
  split
  case isTrue hl => simp [Nat.not_le.mpr hl]
  case isFalse hl =>
    cases digitsVal 10 ds with
    | none => simp
    | some n => simp [Nat.not_lt.mp hl, hne, eq_comm]

theorem regNumber_iff {cs ds : List Char} {v : ℤ} (h : matchXReg cs = some ds)
    (hv : pyInt py 10 ds = some v) :
    (∃ n, Numeral 10 ds n ∧ n ≤ 31 ∧ r = n) ↔ (0 ≤ v ∧ v ≤ 31) ∧ r = v := by
  obtain ⟨-, n, hn, rfl⟩ := (pyInt_xReg_eq_some h).mp hv
  constructor
  · rintro ⟨m, hm, hle, rfl⟩
    obtain rfl := hm.unique hn
    exact ⟨by omega, rfl⟩
  · rintro ⟨hle, rfl⟩
    exact ⟨n, hn, by omega, rfl⟩

theorem parseReg_eq_ok :
    parseReg py tok lineno src = .ok r ↔ RegName py tok r ∧ ¬ LongRegister py tok := by
  simp only [parseReg, RegName, LongRegister]
  generalize ht : lower py (strip tok) = t
  cases ha : regAliases t with
  | some k =>
    have hx : matchXReg t.toList = none := by
      cases hx : matchXReg t.toList with
      | none => rfl
      | some ds => rw [regAliases_of_xReg hx] at ha; cases ha
    simp [hx]
  | none =>
    cases hx : matchXReg t.toList with
    | none => simp [asmError]
    | some ds =>
      have hlen : (∃ ds' ∈ some ds, intMaxStrDigits < ds'.length) ↔ ¬ ds.length ≤ intMaxStrDigits := by
        simp
      rw [hlen]
      dsimp only
      cases hv : pyInt py 10 ds with
      | none =>
        have hl := (pyInt_xReg py hx).mp hv
        refine iff_of_false (by rintro ⟨⟩) ?_
        rintro ⟨-, h⟩
        exact h (Nat.not_le.mpr hl)
      | some v =>
        have hl := ((pyInt_xReg_eq_some hx).mp hv).1
        simp only [reduceCtorEq, Option.some.injEq, false_or, exists_eq_left', not_not, hl, and_true]
        rw [regNumber_iff hx hv]
        split
        case isTrue h => rw [Except.ok.injEq, and_iff_right h, eq_comm]
        case isFalse h => exact iff_of_false (by rintro ⟨⟩) fun hr => h hr.1

end Registers

section Reading
variable (py : Python) (syms : Syms) (ln : Line)

/-- The mnemonics of which the operands are not looked at. -/
def IgnoresOperands (op : String) : Prop :=
  op = "fence" ∨ op = "fence.i" ∨ op = "ecall" ∨ op = "ebreak" ∨ op = "nop"

instance (op : String) : Decidable (IgnoresOperands op) := by
  unfold IgnoresOperands
  infer_instance

/-- The transfers whose offset is not checked for parity. -/
def IgnoresParity (op : String) : Prop := op = "j" ∨ op = "beqz" ∨ op = "bnez"

instance (op : String) : Decidable (IgnoresParity op) := by
  unfold IgnoresParity
  infer_instance

/-- The form that the operands are read in. -/
def Line.readAs (op : String) : List Operand :=
  if op = "jal" then if ln.args.length = 1 then [.target 20] else [.reg, .target 20]
  else if op = "jalr" then
    if ln.args.length = 1 then [.reg]
    else
      match ln.rs1Imm py syms with
      | .error (.asm _) => [.reg, imm12, .reg]
      | _ => [.reg, .reg, imm12]
  else (forms op).headD []

/-- `parse_reg` or `_resolve` returns. -/
def Operand.Reads (o : Operand) (a : String) : Prop :=
  match o with
  | .reg => (parseReg py a ln.lineno ln.raw).isOk = true
  | _ => (resolve py syms a ln.lineno ln.raw).isOk = true

instance (o : Operand) (a : String) : Decidable (o.Reads py syms ln a) := by
  unfold Operand.Reads
  split <;> infer_instance

/-- The number that the operand reads as is out of range, and too long for the message. -/
def Operand.Overflows (even : Bool) (o : Operand) (a : String) : Prop :=
  match o with
  | .imm lo hi => ∃ v, resolve py syms a ln.lineno ln.raw = .ok v ∧ ¬ (lo ≤ v ∧ v < hi) ∧ TooLong v
  | .target n => ∃ v, resolve py syms a ln.lineno ln.raw = .ok v ∧
      (even = true → (v - ln.pc) % 2 = 0) ∧ ¬ (-2 ^ n ≤ v - ln.pc ∧ v - ln.pc < 2 ^ n) ∧
      TooLong (v - ln.pc)
  | _ => False

/-- Reading from left to right, one comes to a register with too many digits. -/
def ReadsBreak (ops : List (Operand × String)) : Prop :=
  ∃ pre p post, ops = pre ++ p :: post ∧ (∀ q ∈ pre, q.1.Reads py syms ln q.2) ∧
    p.1 = .reg ∧ LongRegister py p.2

/-- All are read, and one of the numbers overflows. -/
def RangesBreak (even : Bool) (ops : List (Operand × String)) : Prop :=
  (∀ q ∈ ops, q.1.Reads py syms ln q.2) ∧ ∃ pre p post, ops = pre ++ p :: post ∧
    (∀ q ∈ pre, q.1.Fits py syms ln even q.2) ∧ p.1.Overflows py syms ln even p.2

/-- A crash while the operands are read, or while the message for one is made. -/
def Line.Breaks (even : Bool) (form : List Operand) : Prop :=
  ln.args.length = form.length ∧ (ReadsBreak py syms ln (form.zip ln.args) ∨
    RangesBreak py syms ln even (form.zip ln.args))

/-- JALR takes the second operand for `rs1`, although only `imm(rs1)` fits. -/
structure Line.Misread : Prop where
  other : ln.FitsForm py syms true [.reg, imm12, .reg]
  rs1 : (ln.reg py 1).isOk = true
  imm : ∃ v, ln.value py syms 2 = .ok v ∧ ¬ (-2 ^ 11 ≤ v ∧ v < 2 ^ 11)

end Reading

end RiscForge.Assembler
