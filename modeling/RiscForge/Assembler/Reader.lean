import RiscForge.Assembler.Program

/-! Reading the statements of a program off its lines, by evaluation. -/
namespace RiscForge.Assembler

open Lib Rtl Isa

section Read
variable (py : Python) (syms : Syms) (ln : Line)

def Line.readReg (k : ℕ) : Option (BitVec 5) := (ln.reg py k).toOption.map (BitVec.ofInt 5)

def Line.readValue (k : ℕ) : Option ℤ := (ln.value py syms k).toOption

/-- The line as an instruction with this mnemonic. -/
def Line.readStmt (k : Mnemonic) : Option Stmt := do
  match k, ln.args.length with
  | .op o, 3 => return .op o (← ln.readReg py 0) (← ln.readReg py 1) (← ln.readReg py 2)
  | .opImm o, 3 => return .opImm o (← ln.readReg py 0) (← ln.readReg py 1) (← ln.readValue py syms 2)
  | .load k, 3 => return .load k (← ln.readReg py 0) (← ln.readValue py syms 1) (← ln.readReg py 2)
  | .store k, 3 =>
    return .store k (← ln.readReg py 0) (← ln.readValue py syms 1) (← ln.readReg py 2)
  | .branch c, 3 =>
    return .branch c (← ln.readReg py 0) (← ln.readReg py 1) (← ln.readValue py syms 2)
  | .jal, 2 => return .jal (← ln.readReg py 0) (← ln.readValue py syms 1)
  | .jal, 1 => return .jal 1#5 (← ln.readValue py syms 0)
  | .jalr, 3 => return .jalr (← ln.readReg py 0) (← ln.readReg py 1) (← ln.readValue py syms 2)
  | .lui, 2 => return .lui (← ln.readReg py 0) (← ln.readValue py syms 1)
  | .auipc, 2 => return .auipc (← ln.readReg py 0) (← ln.readValue py syms 1)
  | .nop, _ => return .nop
  | .mv, 2 => return .mv (← ln.readReg py 0) (← ln.readReg py 1)
  | .not, 2 => return .not (← ln.readReg py 0) (← ln.readReg py 1)
  | .neg, 2 => return .neg (← ln.readReg py 0) (← ln.readReg py 1)
  | .j, 1 => return .j (← ln.readValue py syms 0)
  | .jr, 1 => return .jr (← ln.readReg py 0)
  | .ret, 0 => return .ret
  | .beqz, 2 => return .beqz (← ln.readReg py 0) (← ln.readValue py syms 1)
  | .bnez, 2 => return .bnez (← ln.readReg py 0) (← ln.readValue py syms 1)
  | _, _ => none

/-- The statement of the line. The displacement form of JALR is not read. -/
def Line.read : Option Statement := do
  let op ← ln.op
  match op with
  | "li" => return .li (← ln.readReg py 0) (← ln.readValue py syms 1)
  | "la" => return .la (← ln.readReg py 0) (← ln.readValue py syms 1)
  | "call" => return .call (← ln.readValue py syms 0)
  | "fence" | "fence.i" => return .fence
  | "ecall" => return .ecall
  | "ebreak" => return .ebreak
  | op => return .one (← ln.readStmt py syms (← mnemonicOf op))

variable {py syms ln}

theorem register_of_read {k : ℕ} {r : BitVec 5} (h : ln.readReg py k = some r) :
    ln.Register py k r ∧ ∃ v, ln.reg py k = .ok v := by
  unfold Line.readReg at h
  cases hr : ln.reg py k with
  | error e =>
    rw [hr] at h
    cases h
  | ok v =>
    rw [hr] at h
    cases h
    exact ⟨register_of_reg hr, v, rfl⟩

theorem value_of_read {k : ℕ} {v : ℤ} (h : ln.readValue py syms k = some v) :
    ln.value py syms k = .ok v := by
  unfold Line.readValue at h
  cases hv : ln.value py syms k with
  | error e =>
    rw [hv] at h
    cases h
  | ok w =>
    rw [hv] at h
    cases h
    rfl

theorem text_of_mnemonicOf {op : String} {k : Mnemonic} (h : mnemonicOf op = some k) :
    k.text = some op := by
  unfold mnemonicOf at h
  split at h <;> cases h <;> rfl

theorem reads_of_readStmt {op : String} {k : Mnemonic} {st : Stmt} (hk : k.text = some op)
    (h : ln.readStmt py syms k = some st) : Reads py syms ln op st := by
  unfold Line.readStmt at h
  split at h <;> simp only [Option.bind_eq_bind, Option.bind_eq_some_iff, Option.pure_def,
    Option.some.injEq, reduceCtorEq] at h
  case h_1 hn =>
    obtain ⟨_, h0, _, h1, _, h2, rfl⟩ := h
    cases hk
    exact .op hn (register_of_read h0).1 (register_of_read h1).1 (register_of_read h2).1
  case h_2 hn =>
    obtain ⟨_, h0, _, h1, _, h2, rfl⟩ := h
    exact .opImm hk hn (register_of_read h0).1 (register_of_read h1).1 (value_of_read h2)
  case h_3 hn =>
    obtain ⟨_, h0, _, h1, _, h2, rfl⟩ := h
    cases hk
    exact .load hn (register_of_read h0).1 (value_of_read h1) (register_of_read h2).1
  case h_4 hn =>
    obtain ⟨_, h0, _, h1, _, h2, rfl⟩ := h
    cases hk
    exact .store hn (register_of_read h0).1 (value_of_read h1) (register_of_read h2).1
  case h_5 hn =>
    obtain ⟨_, h0, _, h1, _, h2, rfl⟩ := h
    cases hk
    exact .branch hn (register_of_read h0).1 (register_of_read h1).1 (value_of_read h2)
  case h_6 hn =>
    obtain ⟨_, h0, _, h1, rfl⟩ := h
    cases hk
    exact .jal hn (register_of_read h0).1 (value_of_read h1)
  case h_7 hn =>
    obtain ⟨_, h0, rfl⟩ := h
    cases hk
    exact .jalRa hn (value_of_read h0)
  case h_8 hn =>
    obtain ⟨_, h0, _, h1, _, h2, rfl⟩ := h
    cases hk
    exact .jalr hn (register_of_read h0).1 (register_of_read h1).1 (value_of_read h2)
  case h_9 hn =>
    obtain ⟨_, h0, _, h1, rfl⟩ := h
    cases hk
    exact .lui hn (register_of_read h0).1 (value_of_read h1)
  case h_10 hn =>
    obtain ⟨_, h0, _, h1, rfl⟩ := h
    cases hk
    exact .auipc hn (register_of_read h0).1 (value_of_read h1)
  case h_11 =>
    cases h
    cases hk
    exact .nop
  case h_12 hn =>
    obtain ⟨_, h0, _, h1, rfl⟩ := h
    cases hk
    exact .mv hn (register_of_read h0).1 (register_of_read h1).1
  case h_13 hn =>
    obtain ⟨_, h0, _, h1, rfl⟩ := h
    cases hk
    exact .not hn (register_of_read h0).1 (register_of_read h1).1
  case h_14 hn =>
    obtain ⟨_, h0, _, h1, rfl⟩ := h
    cases hk
    exact .neg hn (register_of_read h0).1 (register_of_read h1).1
  case h_15 hn =>
    obtain ⟨_, h0, rfl⟩ := h
    cases hk
    exact .j hn (value_of_read h0)
  case h_16 hn =>
    obtain ⟨_, h0, rfl⟩ := h
    cases hk
    exact .jr hn (register_of_read h0).1
  case h_17 hn =>
    cases h
    cases hk
    exact .ret (List.eq_nil_of_length_eq_zero hn)
  case h_18 hn =>
    obtain ⟨_, h0, _, h1, rfl⟩ := h
    cases hk
    exact .beqz hn (register_of_read h0).1 (value_of_read h1)
  case h_19 hn =>
    obtain ⟨_, h0, _, h1, rfl⟩ := h
    cases hk
    exact .bnez hn (register_of_read h0).1 (value_of_read h1)

theorem clear_of_readStmt {op : String} {k : Mnemonic} {st : Stmt} (hk : k.text = some op)
    (h : ln.readStmt py syms k = some st) (hop : op = "jalr") : ln.Clear py := by
  subst hop
  obtain rfl : Mnemonic.jalr = k := Option.some.inj (mnemonicOf_text hk)
  unfold Line.readStmt at h
  split at h
  case h_8 =>
    simp only [Option.bind_eq_bind, Option.bind_eq_some_iff, Option.pure_def] at h
    obtain ⟨_, -, _, h1, -⟩ := h
    exact fun r _ => (register_of_read h1).2
  case h_11 hj => cases hj
  case h_20 => cases h
  all_goals
    rename_i hj _
    cases hj

/-- What is read off the line is what the line is. -/
theorem spells_of_read {stmt : Statement} (h : ln.read py syms = some stmt) :
    ∃ op, ln.op = some op ∧ Spells py syms ln op stmt := by
  unfold Line.read at h
  simp only [Option.bind_eq_bind, Option.bind_eq_some_iff, Option.pure_def] at h
  obtain ⟨op, hop, h⟩ := h
  refine ⟨op, hop, ?_⟩
  split at h <;> simp only [Option.bind_eq_some_iff, Option.some.injEq] at h
  case h_1 =>
    obtain ⟨_, h0, _, h1, rfl⟩ := h
    exact .li rfl (register_of_read h0).1 (value_of_read h1)
  case h_2 =>
    obtain ⟨_, h0, _, h1, rfl⟩ := h
    exact .la rfl (register_of_read h0).1 (value_of_read h1)
  case h_3 =>
    obtain ⟨_, h0, rfl⟩ := h
    exact .call rfl (value_of_read h0)
  case h_4 =>
    cases h
    exact .fence (.inl rfl)
  case h_5 =>
    cases h
    exact .fence (.inr rfl)
  case h_6 =>
    cases h
    exact .ecall rfl
  case h_7 =>
    cases h
    exact .ebreak rfl
  case h_8 =>
    obtain ⟨k, hk, _, hst, rfl⟩ := h
    have ht := text_of_mnemonicOf hk
    exact .one (reads_of_readStmt ht hst) (clear_of_readStmt ht hst)

end Read

section Listing
variable {P : Program}

/-- The statements of the program with their addresses, as they are read. -/
def Program.listing (P : Program) : List (ℤ × Statement) :=
  P.lines.filterMap fun ln => (ln.read P.py P.syms).map fun stmt => (ln.pc, stmt)

/-- What the listing shows is in the program. -/
theorem at_of_listing {pc : Word} {stmt : Statement} (h : ((pc.toNat : ℤ), stmt) ∈ P.listing)
    (h4 : pc.toNat % 4 = 0) : ∃ ln, P.At pc ln stmt := by
  obtain ⟨ln, hl, hm⟩ := List.mem_filterMap.mp h
  obtain ⟨stmt', hr, he⟩ := Option.map_eq_some_iff.mp hm
  obtain ⟨hpc, rfl⟩ := Prod.mk.inj he
  exact ⟨ln, hl, hpc, h4, spells_of_read hr⟩

end Listing
end RiscForge.Assembler
