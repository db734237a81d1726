import RiscForge.Assembler.Readings
import RiscForge.Isa.Machine

/-! The source language: the statements lines are, and how a program runs by its lines. -/
namespace RiscForge.Assembler

open Lib Rtl Isa

/-- What an instruction line is: one instruction, or a pseudo-instruction of two words. -/
inductive Statement
  | one (st : Stmt)
  | li (rd : BitVec 5) (v : ℤ)
  | la (rd : BitVec 5) (target : ℤ)
  | call (target : ℤ)
  | fence
  | ecall
  | ebreak
  deriving DecidableEq, Repr

namespace Statement
variable (pc : Word) (x : BitVec 5 → Word) (m : Word → BitVec 8)

/-- The effect of the statement as a whole. -/
def effect : Statement → Effect
  | .one st => st.effect pc x m
  | .li rd v => { Effect.writes pc rd (.ofInt 32 v) with nextPc := pc + 8#32 }
  | .la rd target => { Effect.writes pc rd (.ofInt 32 target) with nextPc := pc + 8#32 }
  | .call target => { Effect.writes pc 1#5 (pc + 8#32) with nextPc := .ofInt 32 target }
  | .fence | .ecall | .ebreak => .goesOn pc

def access : Statement → Option (Word × ℕ)
  | .one st => st.access x
  | _ => none

/-- The operand that control goes to. -/
def label : Statement → Option ℤ
  | .one st => st.label
  | .call target => some target
  | _ => none

end Statement

section Spells
variable (py : Python) (syms : Syms) (ln : Line) (op : String)

/-- The statement the line is. -/
inductive Spells : Statement → Prop
  | one {st : Stmt} (hr : Reads py syms ln op st) (hc : op = "jalr" → ln.Clear py) :
      Spells (.one st)
  | li {rd : BitVec 5} {v : ℤ} (ho : op = "li") (h0 : ln.Register py 0 rd)
      (h1 : ln.value py syms 1 = .ok v) : Spells (.li rd v)
  | la {rd : BitVec 5} {target : ℤ} (ho : op = "la") (h0 : ln.Register py 0 rd)
      (h1 : ln.value py syms 1 = .ok target) : Spells (.la rd target)
  | call {target : ℤ} (ho : op = "call") (h0 : ln.value py syms 0 = .ok target) :
      Spells (.call target)
  | fence (ho : op = "fence" ∨ op = "fence.i") : Spells .fence
  | ecall (ho : op = "ecall") : Spells .ecall
  | ebreak (ho : op = "ebreak") : Spells .ebreak

end Spells

/-- A line that holds an instruction, and not a directive or a label only. -/
def Line.isInstruction (ln : Line) : Bool :=
  match ln.op with
  | none | some ".text" | some ".data" | some ".align" | some ".word" | some ".byte" => false
  | some _ => true

/-- The lines of a program where pass 1 puts them, and the memory `[0, hi)` they are to run in. -/
structure Program where
  py : Python
  lines : List Line
  syms : Syms
  hi : ℕ
  tohost : ℕ

namespace Program
variable (P : Program)

/-- The line with the statement is at `pc`. -/
structure At (pc : Word) (ln : Line) (stmt : Statement) : Prop where
  mem : ln ∈ P.lines
  line : ln.pc = pc.toNat
  aligned : pc.toNat % 4 = 0
  spells : ∃ op, ln.op = some op ∧ Spells P.py P.syms ln op stmt

/-- The statement may execute: where control goes is aligned, the access is aligned and inside the
memory, and a store hits neither an instruction line nor `tohost`. -/
structure Permits (c : Cpu) (stmt : Statement) : Prop where
  label : ∀ target, stmt.label = some target → target % 4 = 0
  target : (stmt.effect c.pc c.x c.mem).nextPc.toNat % 4 = 0
  aligned : ∀ a n, stmt.access c.x = some (a, n) → a.toNat % n = 0
  inside : ∀ a n, stmt.access c.x = some (a, n) → a.toNat + n ≤ P.hi
  notTohost : ∀ a k v, (stmt.effect c.pc c.x c.mem).store = some (a, k, v) → a.toNat ≠ P.tohost
  notCode : ∀ a k v, (stmt.effect c.pc c.x c.mem).store = some (a, k, v) → ∀ ln ∈ P.lines,
    ln.isInstruction = true → (a.toNat + Isa.storeSize k : ℤ) ≤ ln.pc ∨ ln.pc + ln.size ≤ a.toNat

/-- One line. -/
inductive Step : Cpu → Cpu → Prop
  | exec {c : Cpu} {ln : Line} {stmt : Statement} (here : P.At c.pc ln stmt)
      (ecall : stmt ≠ .ecall) (ebreak : stmt ≠ .ebreak) (permits : P.Permits c stmt) :
      Step c (c.after (stmt.effect c.pc c.x c.mem))

/-- The next line ends the run. -/
inductive Ends (c : Cpu) : Ending → Prop
  | ecall {ln : Line} (here : P.At c.pc ln .ecall) : Ends c .ecall
  | ebreak {ln : Line} (here : P.At c.pc ln .ebreak) : Ends c .ebreak
  | tohost {ln : Line} {st : Stmt} {a v : Word} {k : F3Store} (here : P.At c.pc ln (.one st))
      (stored : (st.effect c.pc c.x c.mem).store = some (a, k, v)) (hit : a.toNat = P.tohost) :
      Ends c (.tohost v)

end Program

/-- The lines and the labels of a source text; there are none if it is rejected. -/
def laidOut (py : Python) (source : String) : List Line × Syms :=
  match layOut py source 0 none with
  | .ok (lines, st) => (lines, st.syms)
  | .error _ => ([], [])

/-- A source text as a program. -/
def Program.of (py : Python) (source : String) (hi tohost : ℕ) : Program where
  py := py
  lines := (laidOut py source).1
  syms := (laidOut py source).2
  hi := hi
  tohost := tohost

section Lines
variable {py : Python} {syms : Syms} {ln : Line} {op : String} {stmt stmt' : Statement}

theorem and_not_one {t : Word} (h : t.toNat % 4 = 0) : t &&& ~~~1#32 = t := by
  have hc : (t.toNat : ℤ) &&& ~~~1 = t.toNat := by
    rw [clear_bit0]
    omega
  calc t &&& ~~~1#32 = BitVec.ofInt 32 (t.toNat : ℤ) &&& BitVec.ofInt 32 (~~~1) := by
        rw [ofInt_toNat]
        rfl
    _ = t := by rw [← ofInt_and, hc, ofInt_toNat]

theorem isInstruction_iff (hop : ln.op = some op) :
    ln.isInstruction = true ↔ op ∉ [".text", ".data", ".align", ".word", ".byte"] := by
  unfold Line.isInstruction
  split <;> simp_all

theorem Reads.not_pseudo {st : Stmt} (h : Reads py syms ln op st) :
    op ∉ ["li", "la", "call", "fence", "fence.i", "ecall", "ebreak"] := by
  intro hop
  have hd : ∀ op ∈ oneWord, op ∉ ["li", "la", "call", "fence", "fence.i", "ecall", "ebreak"] := by
    decide
  exact hd op h.mem_oneWord hop

theorem Spells.not_directive (h : Spells py syms ln op stmt) :
    op ∉ [".text", ".data", ".align", ".word", ".byte"] := by
  cases h with
  | one hr => exact oneWord_not_directive op hr.mem_oneWord
  | fence ho => rcases ho with rfl | rfl <;> decide
  | li ho | la ho | call ho | ecall ho | ebreak ho =>
    rw [ho]
    decide

theorem Program.At.isInstruction {P : Program} {pc : Word} (h : P.At pc ln stmt) :
    ln.isInstruction = true := by
  obtain ⟨op, hop, hs⟩ := h.spells
  exact (isInstruction_iff hop).mpr hs.not_directive

theorem spells_one_unique {st : Stmt} (hr : Reads py syms ln op st)
    (hc : op = "jalr" → ln.Clear py) (h' : Spells py syms ln op stmt') : .one st = stmt' := by
  cases h' with
  | one hr' => rw [reads_unique hc hr hr']
  | li ho | la ho | call ho | ecall ho | ebreak ho => exact (hr.not_pseudo (by simp [ho])).elim
  | fence ho => exact (hr.not_pseudo (by rcases ho with rfl | rfl <;> simp)).elim

/-- A line is one statement. -/
theorem spells_unique (h : Spells py syms ln op stmt) (h' : Spells py syms ln op stmt') :
    stmt = stmt' := by
  cases h with
  | one hr hc => exact spells_one_unique hr hc h'
  | li ho h0 h1 =>
    cases h' with
    | one hr hc => exact (spells_one_unique hr hc (.li ho h0 h1)).symm
    | li _ h0' h1' => rw [ln.register_unique h0 h0', ln.value_unique h1 h1']
    | _ => simp_all
  | la ho h0 h1 =>
    cases h' with
    | one hr hc => exact (spells_one_unique hr hc (.la ho h0 h1)).symm
    | la _ h0' h1' => rw [ln.register_unique h0 h0', ln.value_unique h1 h1']
    | _ => simp_all
  | call ho h0 =>
    cases h' with
    | one hr hc => exact (spells_one_unique hr hc (.call ho h0)).symm
    | call _ h0' => rw [ln.value_unique h0 h0']
    | _ => simp_all
  | fence ho =>
    cases h' with
    | one hr hc => exact (spells_one_unique hr hc (.fence ho)).symm
    | fence => rfl
    | _ => simp_all
  | ecall ho =>
    cases h' with
    | one hr hc => exact (spells_one_unique hr hc (.ecall ho)).symm
    | ecall => rfl
    | _ => simp_all
  | ebreak ho =>
    cases h' with
    | one hr hc => exact (spells_one_unique hr hc (.ebreak ho)).symm
    | ebreak => rfl
    | _ => simp_all

end Lines
end RiscForge.Assembler
