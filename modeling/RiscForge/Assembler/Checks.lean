import RiscForge.Assembler.Overlap
import RiscForge.Assembler.Words
import RiscForge.Lib.Verdict

/-! The checks that the assembler makes of a source, in their order. -/
namespace RiscForge.Assembler

open Lib Rtl

/-- An `AsmError` is a report of its line; every other exception is a crash. -/
def Raised.report : Raised → Option ℕ
  | .asm e => some e.lineno
  | _ => none

/-- A number with more decimal digits than Python shows. -/
def TooLong (v : ℤ) : Prop := 10 ^ intMaxStrDigits ≤ v.natAbs

instance (v : ℤ) : Decidable (TooLong v) := by
  unfold TooLong
  infer_instance

/-- `x` with more decimal digits than Python reads. -/
def LongRegister (py : Python) (tok : String) : Prop :=
  ∃ ds ∈ matchXReg (lower py (strip tok)).toList, intMaxStrDigits < ds.length

instance (py : Python) (tok : String) : Decidable (LongRegister py tok) := by
  unfold LongRegister
  infer_instance

section Checks
variable (py : Python) (syms : Syms) (ln : Line)

/-- A check whose failure is reported with the line. -/
def Line.check (p : Prop) [Decidable p] : Verdict ℕ := if p then .passes else .rejects ln.lineno

def Line.readsReg (k : ℕ) : Verdict ℕ :=
  if LongRegister py (ln.args.getD k "") then .crashes else ln.check ((ln.reg py k).isOk = true)

def Line.readsValue (k : ℕ) : Verdict ℕ := ln.check ((ln.value py syms k).isOk = true)

/-- A number that is out of range is shown in the message. -/
def Line.fits (lo hi v : ℤ) : Verdict ℕ :=
  if lo ≤ v ∧ v < hi then .passes else if TooLong v then .crashes else .rejects ln.lineno

/-- The checks of the number that operand `k` reads as, if it does. -/
def Line.ofValue (k : ℕ) (checks : ℤ → List (Verdict ℕ)) : List (Verdict ℕ) :=
  match ln.value py syms k with
  | .ok v => checks v
  | .error _ => []

/-- The checks of a transfer's target, for an offset of `n + 1` bits. -/
def Line.reaches (even : Option String) (n : ℕ) (target : ℤ) : List (Verdict ℕ) :=
  [ln.check (Parity even (target - ln.pc)), ln.fits (-2 ^ n) (2 ^ n) (target - ln.pc)]

/-- The operands `rd, rs1, imm`, and what is checked of the last. -/
def Line.immChecks (checks : ℤ → List (Verdict ℕ)) : List (Verdict ℕ) :=
  ln.check (ln.args.length = 3) :: ln.readsReg py 0 :: ln.readsReg py 1 ::
    ln.readsValue py syms 2 :: ln.ofValue py syms 2 checks

/-- The operands `reg, imm(rs1)`. -/
def Line.memChecks : List (Verdict ℕ) :=
  ln.check (ln.args.length = 3) :: ln.readsReg py 0 :: ln.readsValue py syms 1 ::
    ln.readsReg py 2 :: ln.ofValue py syms 1 fun v => [ln.fits (-2 ^ 11) (2 ^ 11) v]

/-- `n` register operands. -/
def Line.regChecks : ℕ → List (Verdict ℕ)
  | 1 => [ln.check (ln.args.length = 1), ln.readsReg py 0]
  | 2 => [ln.check (ln.args.length = 2), ln.readsReg py 0, ln.readsReg py 1]
  | _ => [ln.check (ln.args.length = 3), ln.readsReg py 0, ln.readsReg py 1, ln.readsReg py 2]

/-- A register and a value. -/
def Line.valueChecks (checks : ℤ → List (Verdict ℕ)) : List (Verdict ℕ) :=
  ln.check (ln.args.length = 2) :: ln.readsReg py 0 :: ln.readsValue py syms 1 ::
    ln.ofValue py syms 1 checks

/-- A target alone. -/
def Line.targetChecks (checks : ℤ → List (Verdict ℕ)) : List (Verdict ℕ) :=
  ln.check (ln.args.length = 1) :: ln.readsValue py syms 0 :: ln.ofValue py syms 0 checks

def Line.jalChecks : List (Verdict ℕ) :=
  if ln.args.length = 1 then
    ln.readsValue py syms 0 :: ln.ofValue py syms 0 (ln.reaches (some "jal") 20)
  else if ln.args.length = 2 then
    ln.readsReg py 0 :: ln.readsValue py syms 1 ::
      ln.ofValue py syms 1 (ln.reaches (some "jal") 20)
  else [.rejects ln.lineno]

/-- JALR reads `imm(rs1)` where `rs1, imm` is rejected. -/
def Line.jalrChecks : List (Verdict ℕ) :=
  if ln.args.length = 1 then [ln.readsReg py 0]
  else if ln.args.length = 3 then
    ln.readsReg py 0 ::
      match ln.rs1Imm py syms with
      | .error (.asm _) => ln.readsValue py syms 1 :: ln.readsReg py 2 ::
          ln.ofValue py syms 1 fun v => [ln.fits (-2 ^ 11) (2 ^ 11) v]
      | _ => ln.readsReg py 1 :: ln.readsValue py syms 2 ::
          ln.ofValue py syms 2 fun v => [ln.fits (-2 ^ 11) (2 ^ 11) v]
  else [.rejects ln.lineno]

def Line.otherChecks (op : String) : List (Verdict ℕ) :=
  match op with
  | "slli" | "srli" | "srai" => ln.immChecks py syms fun v => [ln.fits 0 (2 ^ 5) v]
  | "jal" => ln.jalChecks py syms
  | "jalr" => ln.jalrChecks py syms
  | "lui" | "auipc" => ln.valueChecks py syms fun v => [ln.fits (-2 ^ 19) (2 ^ 20) v]
  | "fence" | "fence.i" | "ecall" | "ebreak" | "nop" => []
  | "mv" | "not" | "neg" => ln.regChecks py 2
  | "j" => ln.targetChecks py syms (ln.reaches none 20)
  | "jr" => ln.regChecks py 1
  | "ret" => [ln.check (ln.args = [])]
  | "beqz" | "bnez" => ln.valueChecks py syms (ln.reaches none 12)
  | "li" | "la" => ln.valueChecks py syms fun _ => []
  | "call" => ln.targetChecks py syms fun _ => []
  | _ => [.rejects ln.lineno]

def Line.instructionChecks (op : String) : List (Verdict ℕ) :=
  match rTable op with
  | some _ => ln.regChecks py 3
  | none =>
    match iAluTable op with
    | some _ => ln.immChecks py syms fun v => [ln.fits (-2 ^ 11) (2 ^ 11) v]
    | none =>
      match loadTable op with
      | some _ => ln.memChecks py syms
      | none =>
        match storeTable op with
        | some _ => ln.memChecks py syms
        | none =>
          match branchTable op with
          | some _ => ln.immChecks py syms (ln.reaches (some "branch") 12)
          | none => ln.otherChecks py syms op

/-- Every datum reads as a number. -/
def Line.dataChecks : List (Verdict ℕ) :=
  ln.args.map fun a => ln.check ((resolve py syms a ln.lineno ln.raw).isOk = true)

/-- The checks of pass 2. -/
def Line.encodeChecks : List (Verdict ℕ) :=
  match ln.op with
  | none | some ".text" | some ".data" | some ".align" => []
  | some ".word" | some ".byte" => ln.dataChecks py syms
  | some op => ln.instructionChecks py syms op

/-- The checks of the sizing loop: it shifts by the operand of `.align`, whatever it is. -/
def Line.sizeChecks : List (Verdict ℕ) :=
  match ln.op, ln.args with
  | some ".align", a :: _ =>
    match parseInt py a ln.lineno ln.raw with
    | .ok n => [if 0 ≤ n ∧ n ≤ py.maxShift then .passes else .crashes]
    | .error _ => [.rejects ln.lineno]
  | _, _ => []

/-- The checks of pass 1, after the labels `seen`. -/
def Line.placeChecks (seen : List String) : List (Verdict ℕ) :=
  ln.check (∀ label ∈ ln.label, label ∉ seen) ::
    match ln.op with
    | some ".align" =>
      ln.check (ln.args.length = 1) ::
        match parseInt py (ln.args.getD 0 "") ln.lineno ln.raw with
        | .ok n => [ln.fits 0 13 n]
        | .error _ => [.rejects ln.lineno]
    | some ".word" | some ".byte" => [ln.check (ln.args ≠ [])]
    | _ => []

def placeChecksFrom (seen : List String) : List Line → List (Verdict ℕ)
  | [] => []
  | ln :: lines => ln.placeChecks py seen ++ placeChecksFrom (ln.label.toList ++ seen) lines

/-- All checks that `assemble` makes of a source; pass 2 checks the lines that pass 1 has placed. -/
def checks (source : String) (textBase : ℤ) (dataBase : Option ℤ) : List (Verdict ℕ) :=
  (tokenize py source).flatMap (Line.sizeChecks py) ++
    (placeChecksFrom py [] (tokenize py source) ++
      match layOut py source textBase dataBase with
      | .ok (lines, st) => lines.flatMap (Line.encodeChecks py st.syms)
      | .error _ => [])

end Checks

section Operands
variable {py : Python} {syms : Syms} {ln : Line} {n k : ℕ} {what : String} {v : ℤ} {α : Type}

/-- `int` reads the digits of a register unless there are too many. -/
theorem pyInt_xReg (py : Python) {cs ds : List Char} (h : matchXReg cs = some ds) :
    pyInt py 10 ds = none ↔ intMaxStrDigits < ds.length := by
  obtain ⟨-, hne, hd⟩ := matchXReg_eq_some h
  exact pyInt_decimal_eq_none hd hne

/-- A program that raises nothing but reports of its line. -/
theorem verdict_check {x : Asm α} (h : ∀ e, x = .error e → e.report = some ln.lineno) :
    verdict Raised.report x = ln.check (x.isOk = true) := by
  cases x with
  | ok a => rfl
  | error e =>
    simp only [verdict, h e rfl]
    rfl

theorem parseInt_report {tok src : String} {e : Raised} (h : parseInt py tok n src = .error e) :
    e.report = some n := by
  unfold parseInt at h
  split at h <;> cases h
  rfl

theorem resolve_report {tok src : String} {e : Raised} (h : resolve py syms tok n src = .error e) :
    e.report = some n := by
  unfold resolve at h
  simp only at h
  split at h
  · cases h
    rfl
  · split at h
    · split at h <;> cases h
      rfl
    · exact parseInt_report h

/-- Of a register operand only the conversion of its number can break down. -/
theorem verdict_reg : verdict Raised.report (ln.reg py k) = ln.readsReg py k := by
  unfold Line.readsReg
  by_cases hlong : LongRegister py (ln.args.getD k "")
  · obtain ⟨ds, hx, hlen⟩ := hlong
    rw [if_pos ⟨ds, hx, hlen⟩, Line.reg, parseReg]
    simp only [regAliases_of_xReg hx, Option.mem_def.mp hx, (pyInt_xReg py hx).mpr hlen]
    rfl
  · rw [if_neg hlong]
    refine verdict_check fun e he => ?_
    unfold Line.reg parseReg at he
    simp only at he
    split at he
    · cases he
    · split at he
      next ds hx =>
        split at he
        · split at he <;> cases he
          rfl
        next hn => exact (hlong ⟨ds, hx, (pyInt_xReg py hx).mp hn⟩).elim
      next =>
        cases he
        rfl

theorem verdict_value : verdict Raised.report (ln.value py syms k) = ln.readsValue py syms k :=
  verdict_check fun _ he => resolve_report he

/-- A message that shows a number is lost if the number is too long. -/
theorem verdict_show {msg : String → String} :
    verdict Raised.report (showInt v >>= fun shown => (ln.fail (msg shown) : Asm α)) =
      if TooLong v then .crashes else .rejects ln.lineno := by
  unfold showInt pyStr
  by_cases h : TooLong v
  · rw [if_pos h, if_neg (not_lt.mpr h)]
    rfl
  · rw [if_neg h, if_pos (not_le.mp h)]
    rfl

theorem verdict_fitSigned :
    verdict Raised.report (ln.fitSigned v (n + 1) what) = ln.fits (-2 ^ n) (2 ^ n) v := by
  unfold Line.fitSigned Assembler.fitSigned Line.fits
  simp only [Nat.add_sub_cancel, shiftLeft_one, Int.le_sub_one_iff]
  split
  · rfl
  · exact verdict_show

theorem verdict_fitUnsigned :
    verdict Raised.report (fitUnsigned v ln.lineno ln.raw what n) = ln.fits 0 (2 ^ n) v := by
  unfold fitUnsigned Line.fits
  simp only [shiftLeft_one]
  split
  · rfl
  · exact verdict_show

theorem verdict_offset {even : Option String} :
    verdict Raised.report (ln.offset v even) = ln.check (Parity even (v - ln.pc)) := by
  unfold Line.offset Line.check Parity
  cases even with
  | none => simp [verdict]
  | some what =>
    simp only [and_one, Option.isSome_some, forall_const]
    by_cases h : (v - ln.pc) % 2 = 0
    · rw [if_neg (by omega), if_pos h]
      rfl
    · rw [if_pos h, if_neg h]
      rfl

variable {f : ℤ → Asm α} {vs : List (Verdict ℕ)}

/-- A test that fails the line. -/
theorem verdict_guard {p q : Prop} [Decidable p] [Decidable q] {msg : String} {x : Asm α}
    (h : p ↔ ¬ q) (hx : verdict Raised.report x = firstFailure vs) :
    verdict Raised.report (if q then ln.fail msg else x) = firstFailure (ln.check p :: vs) := by
  unfold Line.check
  by_cases hq : q
  · rw [if_pos hq, if_neg (by rw [h]; exact not_not.mpr hq)]
    rfl
  · rw [if_neg hq, if_pos (h.mpr hq)]
    exact hx

theorem bind_expectArgs {f : Unit → Asm α} (hf : verdict Raised.report (f ()) = firstFailure vs) :
    verdict Raised.report (expectArgs ln n what >>= f) =
      firstFailure (ln.check (ln.args.length = n) :: vs) := by
  have he : verdict Raised.report (expectArgs ln n what) =
      firstFailure [ln.check (ln.args.length = n)] := verdict_guard not_not.symm rfl
  exact verdict_bind he fun _ _ => hf

theorem bind_reg (hf : ∀ r, verdict Raised.report (f r) = firstFailure vs) :
    verdict Raised.report (ln.reg py k >>= f) = firstFailure (ln.readsReg py k :: vs) :=
  verdict_bind_cons verdict_reg fun r _ => hf r

theorem bind_value
    (hf : ∀ v, ln.value py syms k = .ok v → verdict Raised.report (f v) = firstFailure vs) :
    verdict Raised.report (ln.value py syms k >>= f) =
      firstFailure (ln.readsValue py syms k :: vs) :=
  verdict_bind_cons verdict_value hf

theorem of_value {x : Asm α} {c : ℤ → List (Verdict ℕ)} (hv : ln.value py syms k = .ok v)
    (hx : verdict Raised.report x = firstFailure (c v)) :
    verdict Raised.report x = firstFailure (ln.ofValue py syms k c) := by
  rw [Line.ofValue, hv]
  exact hx

theorem bind_fitSigned (hf : ∀ r, verdict Raised.report (f r) = .passes) :
    verdict Raised.report (ln.fitSigned v (n + 1) what >>= f) =
      firstFailure [ln.fits (-2 ^ n) (2 ^ n) v] :=
  verdict_bind_cons verdict_fitSigned fun r _ => hf r

theorem bind_reaches {even : Option String} {target : ℤ}
    (hf : ∀ r, verdict Raised.report (f r) = .passes) :
    verdict Raised.report (ln.offset target even >>= fun offset =>
      ln.fitSigned offset (n + 1) what >>= f) = firstFailure (ln.reaches even n target) := by
  refine verdict_bind_cons verdict_offset fun offset ho => ?_
  obtain ⟨rfl, -⟩ := offset_eq_ok.mp ho
  exact bind_fitSigned hf

end Operands

section Encoders
variable {py : Python} {syms : Syms} {ln : Line} {op : String}

theorem verdict_encodeR {f3 : F3Op} {f7 : ℤ} :
    verdict Raised.report (encodeR py ln op f3 f7) = firstFailure (ln.regChecks py 3) :=
  bind_expectArgs <| bind_reg fun _ => bind_reg fun _ => bind_reg fun _ => rfl

theorem verdict_encodeIAlu {f3 : F3Op} :
    verdict Raised.report (encodeIAlu py syms ln op f3) =
      firstFailure (ln.immChecks py syms fun v => [ln.fits (-2 ^ 11) (2 ^ 11) v]) := by
  refine bind_expectArgs <| bind_reg fun rd => bind_reg fun rs1 => bind_value fun v hv => ?_
  exact of_value hv (bind_fitSigned (n := 11) fun _ => rfl)

theorem verdict_encodeShift :
    verdict Raised.report (encodeShift py syms ln op) =
      firstFailure (ln.immChecks py syms fun v => [ln.fits 0 (2 ^ 5) v]) := by
  refine bind_expectArgs <| bind_reg fun rd => bind_reg fun rs1 => bind_value fun v hv => ?_
  exact of_value hv (verdict_bind_cons verdict_fitUnsigned fun _ _ => rfl)

theorem verdict_encodeLoad {f3 : F3Load} :
    verdict Raised.report (encodeLoad py syms ln op f3) = firstFailure (ln.memChecks py syms) := by
  refine bind_expectArgs <| bind_reg fun rd => bind_value fun v hv => bind_reg fun rs1 => ?_
  exact of_value hv (bind_fitSigned (n := 11) fun _ => rfl)

theorem verdict_encodeStore {f3 : F3Store} :
    verdict Raised.report (encodeStore py syms ln op f3) = firstFailure (ln.memChecks py syms) := by
  refine bind_expectArgs <| bind_reg fun rs2 => bind_value fun v hv => bind_reg fun rs1 => ?_
  exact of_value hv (bind_fitSigned (n := 11) fun _ => rfl)

theorem verdict_encodeBranch {f3 : F3Branch} :
    verdict Raised.report (encodeBranch py syms ln op f3) =
      firstFailure (ln.immChecks py syms (ln.reaches (some "branch") 12)) := by
  refine bind_expectArgs <| bind_reg fun rs1 => bind_reg fun rs2 => bind_value fun v hv => ?_
  exact of_value hv (bind_reaches (n := 12) fun _ => rfl)

theorem verdict_encodeJal :
    verdict Raised.report (encodeJal py syms ln) = firstFailure (ln.jalChecks py syms) := by
  unfold encodeJal Line.jalOperands Line.jalChecks
  split
  · rw [bind_assoc]
    refine bind_value fun v hv => ?_
    exact of_value hv (bind_reaches (n := 20) fun _ => rfl)
  · split
    · rw [bind_assoc]
      refine bind_reg fun rd => ?_
      rw [bind_assoc]
      refine bind_value fun v hv => ?_
      exact of_value hv (bind_reaches (n := 20) fun _ => rfl)
    · rfl

theorem verdict_encodeJalr :
    verdict Raised.report (encodeJalr py syms ln) = firstFailure (ln.jalrChecks py syms) := by
  unfold encodeJalr Line.jalrOperands Line.jalrChecks
  split
  · rw [bind_assoc]
    exact bind_reg fun rs1 => rfl
  · split
    · rw [bind_assoc]
      refine bind_reg fun rd => ?_
      change verdict Raised.report ((orElse (ln.rs1Imm py syms) (ln.immRs1 py syms) >>=
        fun p => pure (rd, p.1, p.2)) >>= _) = _
      rw [bind_assoc]
      split
      next e he =>
        rw [he]
        simp only [orElse, Line.immRs1]
        rw [bind_assoc]
        refine bind_value fun v hv => ?_
        rw [bind_assoc]
        exact bind_reg fun rs1 => of_value hv (bind_fitSigned (n := 11) fun _ => rfl)
      next hne =>
        -- a register that breaks down is not caught
        have hx : orElse (ln.rs1Imm py syms) (ln.immRs1 py syms) = ln.rs1Imm py syms := by
          unfold orElse
          split
          next e he => exact (hne e he).elim
          next => rfl
        rw [hx, Line.rs1Imm, bind_assoc]
        refine bind_reg fun rs1 => ?_
        rw [bind_assoc]
        exact bind_value fun v hv => of_value hv (bind_fitSigned (n := 11) fun _ => rfl)
    · rfl

theorem verdict_encodeUpper :
    verdict Raised.report (encodeUpper py syms ln op) =
      firstFailure (ln.valueChecks py syms fun v => [ln.fits (-2 ^ 19) (2 ^ 20) v]) := by
  refine bind_expectArgs <| bind_reg fun rd => bind_value fun v hv => of_value hv ?_
  rw [firstFailure_singleton, Line.fits]
  simp only [shiftLeft_one]
  split
  · rfl
  · exact verdict_show

theorem verdict_encodeMove {f3 : F3Op} {imm : ℤ} :
    verdict Raised.report (encodeMove py ln op f3 imm) = firstFailure (ln.regChecks py 2) :=
  bind_expectArgs <| bind_reg fun _ => bind_reg fun _ => rfl

theorem verdict_encodeNeg :
    verdict Raised.report (encodeNeg py ln op) = firstFailure (ln.regChecks py 2) :=
  bind_expectArgs <| bind_reg fun _ => bind_reg fun _ => rfl

theorem verdict_encodeJ :
    verdict Raised.report (encodeJ py syms ln op) =
      firstFailure (ln.targetChecks py syms (ln.reaches none 20)) := by
  refine bind_expectArgs <| bind_value fun v hv => ?_
  exact of_value hv (bind_reaches (n := 20) fun _ => rfl)

theorem verdict_encodeJr :
    verdict Raised.report (encodeJr py ln op) = firstFailure (ln.regChecks py 1) :=
  bind_expectArgs <| bind_reg fun _ => rfl

theorem verdict_encodeRet :
    verdict Raised.report (encodeRet ln) = firstFailure [ln.check (ln.args = [])] :=
  verdict_guard not_not.symm rfl

theorem verdict_encodeBranchZero {f3 : F3Branch} :
    verdict Raised.report (encodeBranchZero py syms ln op f3) =
      firstFailure (ln.valueChecks py syms (ln.reaches none 12)) := by
  refine bind_expectArgs <| bind_reg fun rs1 => bind_value fun v hv => ?_
  exact of_value hv (bind_reaches (n := 12) fun _ => rfl)

theorem verdict_encodeLi :
    verdict Raised.report (encodeLi py syms ln op) =
      firstFailure (ln.valueChecks py syms fun _ => []) := by
  refine bind_expectArgs <| bind_reg fun rd => bind_value fun v hv => of_value hv ?_
  simp only
  split <;> rfl

theorem verdict_encodeLa :
    verdict Raised.report (encodeLa py syms ln op) =
      firstFailure (ln.valueChecks py syms fun _ => []) :=
  bind_expectArgs <| bind_reg fun _ => bind_value fun _ hv => of_value hv rfl

theorem verdict_encodeCall :
    verdict Raised.report (encodeCall py syms ln op) =
      firstFailure (ln.targetChecks py syms fun _ => []) :=
  bind_expectArgs <| bind_value fun _ hv => of_value hv rfl

theorem verdict_encodeOther :
    verdict Raised.report (encodeOther py syms ln op) = firstFailure (ln.otherChecks py syms op) := by
  unfold encodeOther
  split
  · exact verdict_encodeShift
  · exact verdict_encodeShift
  · exact verdict_encodeShift
  · exact verdict_encodeJal
  · exact verdict_encodeJalr
  · exact verdict_encodeUpper
  · exact verdict_encodeUpper
  · rfl
  · rfl
  · rfl
  · rfl
  · rfl
  · exact verdict_encodeMove
  · exact verdict_encodeMove
  · exact verdict_encodeNeg
  · exact verdict_encodeJ
  · exact verdict_encodeJr
  · exact verdict_encodeRet
  · exact verdict_encodeBranchZero
  · exact verdict_encodeBranchZero
  · exact verdict_encodeLi
  · exact verdict_encodeLa
  · exact verdict_encodeCall
  · have hr : ln.otherChecks py syms op = [.rejects ln.lineno] := by
      unfold Line.otherChecks
      split <;> first | contradiction | rfl
    rw [hr]
    rfl

/-- Each mnemonic makes the checks of its table or encoder. -/
theorem verdict_encodeInstruction :
    verdict Raised.report (encodeInstruction py syms ln op) =
      firstFailure (ln.instructionChecks py syms op) := by
  unfold encodeInstruction Line.instructionChecks
  cases rTable op with
  | some r => exact verdict_encodeR
  | none =>
    cases iAluTable op with
    | some f3 => exact verdict_encodeIAlu
    | none =>
      cases loadTable op with
      | some f3 => exact verdict_encodeLoad
      | none =>
        cases storeTable op with
        | some f3 => exact verdict_encodeStore
        | none =>
          cases branchTable op with
          | some f3 => exact verdict_encodeBranch
          | none => exact verdict_encodeOther

theorem verdict_encodeData {mask : ℤ} :
    verdict Raised.report (encodeData py syms ln mask) = firstFailure (ln.dataChecks py syms) := by
  refine verdict_mapM fun tok _ => ?_
  rw [← firstFailure_singleton (v := ln.check _)]
  exact verdict_bind_cons (verdict_check fun _ he => resolve_report he) fun v _ => rfl

theorem verdict_encodeLine :
    verdict Raised.report (encodeLine py syms ln) = firstFailure (ln.encodeChecks py syms) := by
  unfold encodeLine
  split
  next hop => simp only [Line.encodeChecks, hop, verdict, firstFailure]
  next hop => simp only [Line.encodeChecks, hop, verdict, firstFailure]
  next hop => simp only [Line.encodeChecks, hop, verdict, firstFailure]
  next hop => simp only [Line.encodeChecks, hop, verdict, firstFailure]
  next hop => simp only [Line.encodeChecks, hop, verdict_encodeData]
  next hop => simp only [Line.encodeChecks, hop, verdict_encodeData]
  next op _ _ _ _ _ hop =>
    have hc : ln.encodeChecks py syms = ln.instructionChecks py syms op := by
      simp only [Line.encodeChecks, hop]
    rw [hc]
    exact verdict_encodeInstruction

end Encoders

section Walks
variable {py : Python} {syms : Syms} {ln : Line} {lines : List Line} {st : Layout}

theorem verdict_parseInt_error {tok : String} {e : Raised}
    (h : parseInt py tok ln.lineno ln.raw = .error e) {α : Type} :
    verdict Raised.report (.error e : Asm α) = .rejects ln.lineno := by
  simp only [verdict, parseInt_report h]

theorem verdict_sizeLine (sizes : Sizes) :
    verdict Raised.report (sizeLine py sizes ln) = firstFailure (ln.sizeChecks py) := by
  unfold sizeLine Line.sizeChecks
  split
  next hop => simp [hop, verdict, firstFailure]
  next hop => simp [hop, verdict, firstFailure]
  next hop => simp [hop, verdict, firstFailure]
  next hop =>
    cases ha : ln.args with
    | nil => simp [hop, verdict, firstFailure]
    | cons a as =>
      simp only [hop]
      cases hn : parseInt py a ln.lineno ln.raw with
      | error e =>
        rw [firstFailure_singleton]
        exact verdict_parseInt_error hn
      | ok n =>
        rw [firstFailure_singleton]
        change verdict Raised.report (if n < 0 then _ else _) = _
        by_cases h0 : n < 0
        · rw [if_pos h0, if_neg (by omega)]
          rfl
        · rw [if_neg h0]
          by_cases h1 : (py.maxShift : ℤ) < n
          · rw [if_pos h1, if_neg (by omega)]
            rfl
          · rw [if_neg h1, if_pos (by omega)]
            rfl
  next hop => simp [hop, verdict, firstFailure]
  next hop => simp [hop, verdict, firstFailure]
  next op _ _ _ _ _ hop =>
    rw [hop]
    split
    · simp_all
    · rfl

/-- The symbols so far are the labels seen so far. -/
def Seen (st : Layout) (seen : List String) : Prop :=
  ∀ label, (st.syms.lookup label).isSome = true ↔ label ∈ seen

theorem verdict_define {seen : List String} (hs : Seen st seen) :
    verdict Raised.report (st.define py ln) =
      ln.check (∀ label ∈ ln.label, label ∉ seen) := by
  unfold Layout.define Line.check
  cases ln.label with
  | none => simp [verdict]
  | some label =>
    simp only [Option.mem_def, Option.some.injEq, forall_eq', hs label]
    by_cases h : label ∈ seen
    · rw [if_pos h, if_neg (not_not.mpr h)]
      rfl
    · rw [if_neg h, if_pos h]
      rfl

theorem verdict_pass1Line {seen : List String} (hs : Seen st seen) :
    verdict Raised.report (pass1Line py st ln) = firstFailure (ln.placeChecks py seen) := by
  refine verdict_bind_cons (verdict_define hs) fun st₁ _ => ?_
  split
  next hop => simp [hop, verdict, firstFailure, pure, Except.pure]
  next hop => simp [hop, verdict, firstFailure, pure, Except.pure]
  next hop => simp [hop, verdict, firstFailure, pure, Except.pure]
  next hop =>
    simp only [hop]
    refine verdict_guard not_not.symm ?_
    cases hn : parseInt py (ln.args.getD 0 "") ln.lineno ln.raw with
    | error e =>
      rw [firstFailure_singleton]
      exact verdict_parseInt_error hn
    | ok n =>
      rw [firstFailure_singleton]
      change verdict Raised.report (if 0 ≤ n ∧ n ≤ 12 then _ else _) = _
      unfold Line.fits
      by_cases h : 0 ≤ n ∧ n ≤ 12
      · rw [if_pos h, if_pos (by omega)]
        rfl
      · rw [if_neg h, if_neg (by omega)]
        exact verdict_show
  next hop =>
    simp only [hop]
    exact verdict_guard Iff.rfl rfl
  next hop =>
    simp only [hop]
    exact verdict_guard Iff.rfl rfl
  next op _ _ _ _ _ hop =>
    rw [hop]
    split
    · simp_all
    · simp_all
    · simp_all
    · rfl

theorem seen_placed {seen : List String} {ln' : Line} {st' : Layout} (hs : Seen st seen)
    (h : Placed py st ln ln' st') : Seen st' (ln.label.toList ++ seen) := by
  intro label
  rw [h.syms]
  cases ln.label with
  | none => exact hs label
  | some l =>
    rw [List.lookup_cons]
    by_cases hl : label = l
    · simp [hl]
    · simp [beq_eq_false_iff_ne.mpr hl, hl, hs label]

theorem verdict_pass1From {seen : List String} (hs : Seen st seen) :
    verdict Raised.report (pass1From py st lines) =
      firstFailure (placeChecksFrom py seen lines) := by
  induction lines generalizing st seen with
  | nil => rfl
  | cons ln lines ih =>
    refine verdict_bind (verdict_pass1Line hs) fun p hp => ?_
    exact verdict_bind_passes (ih (seen_placed hs (pass1Line_ok hp))) fun q => rfl

theorem verdict_layOut {source : String} {textBase : ℤ} {dataBase : Option ℤ} :
    verdict Raised.report (layOut py source textBase dataBase) =
      firstFailure ((tokenize py source).flatMap (Line.sizeChecks py) ++
        placeChecksFrom py [] (tokenize py source)) := by
  have hsize : verdict Raised.report (sizeLines py (tokenize py source)) =
      firstFailure ((tokenize py source).flatMap (Line.sizeChecks py)) :=
    verdict_foldlM (f := sizeLine py) (fun sizes ln _ => verdict_sizeLine sizes) _
  refine verdict_bind hsize fun sizes _ => ?_
  exact verdict_pass1From fun label => by simp [Layout.init]

theorem verdict_emitLine (image : Image) :
    verdict Raised.report (emitLine py syms image ln) = firstFailure (ln.encodeChecks py syms) := by
  unfold emitLine
  cases hop : ln.op with
  | none => simp only [Line.encodeChecks, hop]; rfl
  | some op =>
    exact verdict_bind_passes verdict_encodeLine fun out => rfl

/-- The assembler makes the checks in their order, and stops at the first that fails. -/
theorem verdict_assemble {source : String} {textBase : ℤ} {dataBase : Option ℤ} :
    verdict Raised.report (assemble py source textBase dataBase) =
      firstFailure (checks py source textBase dataBase) := by
  rw [checks, ← List.append_assoc]
  refine verdict_bind verdict_layOut fun p hp => ?_
  obtain ⟨lines, st⟩ := p
  rw [hp]
  have hemit : verdict Raised.report (emit py st.syms lines) =
      firstFailure (lines.flatMap (Line.encodeChecks py st.syms)) :=
    verdict_foldlM (f := emitLine py st.syms) (fun image ln _ => verdict_emitLine image) _
  exact verdict_bind_passes hemit fun image => rfl

end Walks
end RiscForge.Assembler
