import RiscForge.Assembler.Forms

/-! The checks of an instruction line are those of the form that its operands are read in. -/
namespace RiscForge.Assembler

open Lib Rtl

section Verdicts
variable (py : Python) (syms : Syms) (ln : Line)

def Operand.readCheck (o : Operand) (a : String) : Verdict ℕ :=
  match o with
  | .reg => if LongRegister py a then .crashes else ln.check (Operand.Reads py syms ln .reg a)
  | o => ln.check (o.Reads py syms ln a)

def Operand.rangeChecks (even : Bool) (o : Operand) (a : String) : List (Verdict ℕ) :=
  match o, resolve py syms a ln.lineno ln.raw with
  | .imm lo hi, .ok v => [ln.fits lo hi v]
  | .target n, .ok v => ln.reaches (if even then some "" else none) n v
  | _, _ => []

/-- The operands are read from left to right, then the numbers are checked. -/
def formChecks (even : Bool) (ops : List (Operand × String)) : List (Verdict ℕ) :=
  (ops.flatMap fun p => [p.1.readCheck py syms ln p.2]) ++
    ops.flatMap fun p => p.1.rangeChecks py syms ln even p.2

def Line.formVerdict (even : Bool) (form : List Operand) : Verdict ℕ :=
  if ln.args.length = form.length then
    firstFailure (formChecks py syms ln even (form.zip ln.args))
  else .rejects ln.lineno

variable {py syms ln} {k : ℕ} {a : String} {even : Bool} {p : Prop} {vs : List (Verdict ℕ)}

theorem check_cons (vs : List (Verdict ℕ)) [Decidable p] : firstFailure (ln.check p :: vs) =
    if p then firstFailure vs else .rejects ln.lineno := by
  unfold Line.check
  split <;> rfl

theorem check_congr {q : Prop} [Decidable p] [Decidable q] (h : p ↔ q) :
    ln.check p = ln.check q := by
  unfold Line.check
  exact if_congr h rfl rfl

theorem readsReg_eq (syms : Syms) (h : ln.args.getD k "" = a) :
    ln.readsReg py k = Operand.readCheck py syms ln .reg a := by
  simp only [Line.readsReg, Operand.readCheck, Line.reg, h]
  exact if_congr Iff.rfl rfl (check_congr Iff.rfl)

theorem readsValue_eq {o : Operand} (ho : o ≠ .reg) (h : ln.args.getD k "" = a) :
    ln.readsValue py syms k = o.readCheck py syms ln a := by
  have hr : (ln.value py syms k).isOk = true ↔ o.Reads py syms ln a := by
    rw [Line.value, h]
    cases o with
    | reg => exact absurd rfl ho
    | imm lo hi | target n | any => exact Iff.rfl
  rw [Line.readsValue, check_congr hr]
  cases o with
  | reg => exact absurd rfl ho
  | imm lo hi | target n | any => rfl

@[simp] theorem rangeChecks_reg : Operand.rangeChecks py syms ln even .reg a = [] := rfl

theorem rangeChecks_imm {lo hi v : ℤ} (h : resolve py syms a ln.lineno ln.raw = .ok v) :
    Operand.rangeChecks py syms ln even (.imm lo hi) a = [ln.fits lo hi v] := by
  unfold Operand.rangeChecks
  rw [h]

theorem rangeChecks_target {n : ℕ} {v : ℤ} (h : resolve py syms a ln.lineno ln.raw = .ok v) :
    Operand.rangeChecks py syms ln even (.target n) a =
      ln.reaches (if even then some "" else none) n v := by
  unfold Operand.rangeChecks
  rw [h]

theorem rangeChecks_error {o : Operand} {e : Raised}
    (h : resolve py syms a ln.lineno ln.raw = .error e) :
    Operand.rangeChecks py syms ln even o a = [] := by
  unfold Operand.rangeChecks
  rw [h]
  cases o <;> rfl

theorem ofValue_imm (even : Bool) {lo hi : ℤ} (h : ln.args.getD k "" = a) :
    (ln.ofValue py syms k fun v => [ln.fits lo hi v]) =
      Operand.rangeChecks py syms ln even (.imm lo hi) a := by
  rw [Line.ofValue, Line.value, h]
  cases hv : resolve py syms a ln.lineno ln.raw with
  | ok v => exact (rangeChecks_imm hv).symm
  | error e => exact (rangeChecks_error hv).symm

theorem ofValue_target {flag : Option String} {n : ℕ} (hf : flag.isSome = even)
    (h : ln.args.getD k "" = a) :
    ln.ofValue py syms k (ln.reaches flag n) =
      Operand.rangeChecks py syms ln even (.target n) a := by
  have hp : ∀ target, ln.reaches flag n target =
      ln.reaches (if even then some "" else none) n target := by
    intro target
    simp only [Line.reaches]
    rw [check_congr (q := Parity (if even then some "" else none) (target - ln.pc))]
    cases even <;> simp [Parity, hf]
  rw [Line.ofValue, Line.value, h]
  cases hv : resolve py syms a ln.lineno ln.raw with
  | ok v => exact (hp v).trans (rangeChecks_target hv).symm
  | error e => exact (rangeChecks_error hv).symm

/-- The number of operands is checked first. -/
theorem formVerdict_of_count {n : ℕ} {form : List Operand} (hn : form.length = n)
    (h : ln.args.length = n →
      firstFailure vs = firstFailure (formChecks py syms ln even (form.zip ln.args))) :
    firstFailure (ln.check (ln.args.length = n) :: vs) = ln.formVerdict py syms even form := by
  subst hn
  rw [check_cons, Line.formVerdict]
  split
  case isTrue hl => exact h hl
  case isFalse => rfl

theorem regChecks_three :
    firstFailure (ln.regChecks py 3) = ln.formVerdict py syms even [.reg, .reg, .reg] := by
  refine formVerdict_of_count rfl fun hl => ?_
  obtain ⟨a, b, c, h⟩ := List.length_eq_three.mp hl
  rw [readsReg_eq syms (a := a) (by rw [h]; rfl),
    readsReg_eq syms (a := b) (by rw [h]; rfl),
    readsReg_eq syms (a := c) (by rw [h]; rfl), h]
  rfl

theorem regChecks_two :
    firstFailure (ln.regChecks py 2) = ln.formVerdict py syms even [.reg, .reg] := by
  refine formVerdict_of_count rfl fun hl => ?_
  obtain ⟨a, b, h⟩ := List.length_eq_two.mp hl
  rw [readsReg_eq syms (a := a) (by rw [h]; rfl),
    readsReg_eq syms (a := b) (by rw [h]; rfl), h]
  rfl

theorem regChecks_one :
    firstFailure (ln.regChecks py 1) = ln.formVerdict py syms even [.reg] := by
  refine formVerdict_of_count rfl fun hl => ?_
  obtain ⟨a, h⟩ := List.length_eq_one_iff.mp hl
  rw [readsReg_eq syms (a := a) (by rw [h]; rfl), h]
  rfl

variable {c : ℤ → List (Verdict ℕ)} {o : Operand}

/-- The number in operand `k` is checked as the form asks. -/
def Line.Ranges (py : Python) (syms : Syms) (ln : Line) (even : Bool) (o : Operand)
    (c : ℤ → List (Verdict ℕ)) : Prop :=
  o ≠ .reg ∧ ∀ k a, ln.args.getD k "" = a →
    ln.ofValue py syms k c = Operand.rangeChecks py syms ln even o a

theorem immChecks_form (hc : ln.Ranges py syms even o c) :
    firstFailure (ln.immChecks py syms c) = ln.formVerdict py syms even [.reg, .reg, o] := by
  refine formVerdict_of_count rfl fun hl => ?_
  obtain ⟨a, b, x, h⟩ := List.length_eq_three.mp hl
  rw [readsReg_eq syms (a := a) (by rw [h]; rfl),
    readsReg_eq syms (a := b) (by rw [h]; rfl),
    readsValue_eq (a := x) hc.1 (by rw [h]; rfl), hc.2 2 x (by rw [h]; rfl), h]
  simp [formChecks]

theorem valueChecks_form (hc : ln.Ranges py syms even o c) :
    firstFailure (ln.valueChecks py syms c) = ln.formVerdict py syms even [.reg, o] := by
  refine formVerdict_of_count rfl fun hl => ?_
  obtain ⟨a, x, h⟩ := List.length_eq_two.mp hl
  rw [readsReg_eq syms (a := a) (by rw [h]; rfl),
    readsValue_eq (a := x) hc.1 (by rw [h]; rfl), hc.2 1 x (by rw [h]; rfl), h]
  simp [formChecks]

theorem targetChecks_form (hc : ln.Ranges py syms even o c) :
    firstFailure (ln.targetChecks py syms c) = ln.formVerdict py syms even [o] := by
  refine formVerdict_of_count rfl fun hl => ?_
  obtain ⟨x, h⟩ := List.length_eq_one_iff.mp hl
  rw [readsValue_eq (a := x) hc.1 (by rw [h]; rfl), hc.2 0 x (by rw [h]; rfl), h]
  simp [formChecks]

theorem ranges_imm {lo hi : ℤ} :
    ln.Ranges py syms even (.imm lo hi) fun v => [ln.fits lo hi v] :=
  ⟨nofun, fun _ _ h => ofValue_imm even h⟩

theorem ranges_target {flag : Option String} {n : ℕ} (hf : flag.isSome = even) :
    ln.Ranges py syms even (.target n) (ln.reaches flag n) :=
  ⟨nofun, fun _ _ h => ofValue_target hf h⟩

theorem ranges_any : ln.Ranges py syms even .any fun _ => [] := by
  refine ⟨nofun, fun k a _ => ?_⟩
  unfold Line.ofValue Operand.rangeChecks
  split <;> rfl

theorem memChecks_form :
    firstFailure (ln.memChecks py syms) = ln.formVerdict py syms even [.reg, imm12, .reg] := by
  refine formVerdict_of_count rfl fun hl => ?_
  obtain ⟨a, x, b, h⟩ := List.length_eq_three.mp hl
  rw [readsReg_eq syms (a := a) (by rw [h]; rfl),
    readsValue_eq (o := imm12) (a := x) nofun (by rw [h]; rfl),
    readsReg_eq syms (a := b) (by rw [h]; rfl),
    ofValue_imm even (a := x) (by rw [h]; rfl), h]
  simp [formChecks, imm12]

theorem jalChecks_form :
    firstFailure (ln.jalChecks py syms) = ln.formVerdict py syms true (ln.readAs py syms "jal") := by
  have ht : ln.Ranges py syms true (.target 20) (ln.reaches (some "jal") 20) := ranges_target rfl
  simp only [Line.jalChecks, Line.readAs, if_true]
  by_cases h1 : ln.args.length = 1
  · rw [if_pos h1, if_pos h1, ← targetChecks_form ht, Line.targetChecks, check_cons, if_pos h1]
  · rw [if_neg h1, if_neg h1, ← valueChecks_form ht, Line.valueChecks, check_cons]
    split <;> rfl

theorem jalrChecks_form :
    firstFailure (ln.jalrChecks py syms) =
      ln.formVerdict py syms true (ln.readAs py syms "jalr") := by
  have hi : ln.Ranges py syms true imm12 fun v => [ln.fits (-2 ^ 11) (2 ^ 11) v] := ranges_imm
  simp only [Line.jalrChecks, Line.readAs, if_true]
  rw [if_neg (show ¬ ("jalr" = "jal") by decide)]
  by_cases h1 : ln.args.length = 1
  · rw [if_pos h1, if_pos h1, ← regChecks_one, Line.regChecks, check_cons, if_pos h1]
  · rw [if_neg h1, if_neg h1]
    cases ln.rs1Imm py syms with
    | ok p =>
      rw [← immChecks_form hi, Line.immChecks, check_cons]
      split <;> rfl
    | error e =>
      cases e with
      | asm e =>
        rw [← memChecks_form, Line.memChecks, check_cons]
        split <;> rfl
      | valueError msg | memoryError =>
        rw [← immChecks_form hi, Line.immChecks, check_cons]
        split <;> rfl

theorem readAs_of_ne {op : String} (h1 : op ≠ "jal") (h2 : op ≠ "jalr") :
    ln.readAs py syms op = (forms op).headD [] := by
  rw [Line.readAs, if_neg h1, if_neg h2]

/-- The checks of a mnemonic are those of the form that its operands are read in. -/
theorem otherChecks_form {op : String} (ho : otherForms op ≠ []) (hi : ¬ IgnoresOperands op)
    (hf : forms op = otherForms op) : firstFailure (ln.otherChecks py syms op) =
      ln.formVerdict py syms (decide (¬ IgnoresParity op)) (ln.readAs py syms op) := by
  have he (h1 : op ≠ "jal") (h2 : op ≠ "jalr") :
      ln.readAs py syms op = (otherForms op).headD [] := by
    rw [readAs_of_ne h1 h2, hf]
  unfold Line.otherChecks
  split
  case h_4 =>
    rw [show decide (¬ IgnoresParity "jal") = true by decide]
    exact jalChecks_form
  case h_5 =>
    rw [show decide (¬ IgnoresParity "jalr") = true by decide]
    exact jalrChecks_form
  case h_8 | h_9 | h_10 | h_11 | h_12 => exact absurd (by decide) hi
  case h_24 =>
    refine absurd ?_ ho
    unfold otherForms
    split <;> first | contradiction | rfl
  all_goals rw [he (by decide) (by decide)]
  case h_1 | h_2 | h_3 => exact immChecks_form ranges_imm
  case h_6 | h_7 => exact valueChecks_form ranges_imm
  case h_13 | h_14 | h_15 => exact regChecks_two
  case h_16 => exact targetChecks_form (ranges_target (by decide))
  case h_17 => exact regChecks_one
  case h_18 =>
    refine (check_cons []).trans ?_
    simp [Line.formVerdict, formChecks, otherForms, firstFailure, List.length_eq_zero_iff]
  case h_19 | h_20 => exact valueChecks_form (ranges_target (by decide))
  case h_21 | h_22 => exact valueChecks_form ranges_any
  case h_23 => exact targetChecks_form ranges_any

theorem ne_of_table {α : Type} {table : String → Option α} {x : α} {op word : String}
    (h : table op = some x) (hw : table word = none) : op ≠ word := by
  rintro rfl
  rw [hw] at h
  cases h

theorem instructionChecks_form {op : String} (ho : forms op ≠ []) (hi : ¬ IgnoresOperands op) :
    firstFailure (ln.instructionChecks py syms op) =
      ln.formVerdict py syms (decide (¬ IgnoresParity op)) (ln.readAs py syms op) := by
  unfold Line.instructionChecks
  cases hr : rTable op with
  | some r =>
    rw [readAs_of_ne (ne_of_table hr rfl) (ne_of_table hr rfl)]
    simp only [forms, hr]
    exact regChecks_three
  | none =>
    cases ha : iAluTable op with
    | some f3 =>
      rw [readAs_of_ne (ne_of_table ha rfl) (ne_of_table ha rfl)]
      simp only [forms, hr, ha]
      exact immChecks_form ranges_imm
    | none =>
      cases hl : loadTable op with
      | some f3 =>
        rw [readAs_of_ne (ne_of_table hl rfl) (ne_of_table hl rfl)]
        simp only [forms, hr, ha, hl]
        exact memChecks_form
      | none =>
        cases hs : storeTable op with
        | some f3 =>
          rw [readAs_of_ne (ne_of_table hs rfl) (ne_of_table hs rfl)]
          simp only [forms, hr, ha, hl, hs]
          exact memChecks_form
        | none =>
          cases hb : branchTable op with
          | some f3 =>
            have hp : ¬ IgnoresParity op := by
              rintro (h | h | h)
              · exact ne_of_table hb rfl h
              · exact ne_of_table hb rfl h
              · exact ne_of_table hb rfl h
            rw [readAs_of_ne (ne_of_table hb rfl) (ne_of_table hb rfl)]
            simp only [forms, hr, ha, hl, hs, hb]
            exact immChecks_form (ranges_target (by simp [hp]))
          | none =>
            have hf : forms op = otherForms op := by simp only [forms, hr, ha, hl, hs, hb]
            exact otherChecks_form (hf ▸ ho) hi hf

theorem instructionChecks_ignored {op : String} (hi : IgnoresOperands op) :
    firstFailure (ln.instructionChecks py syms op) = .passes := by
  rcases hi with rfl | rfl | rfl | rfl | rfl <;> rfl

theorem encodeChecks_eq {op : String} (hop : ln.op = some op) (ho : forms op ≠ []) :
    ln.encodeChecks py syms = ln.instructionChecks py syms op := by
  have hd : ∀ word, forms word = [] → op ≠ word := by
    rintro word hw rfl
    exact ho hw
  simp only [Line.encodeChecks, hop]
  split
  case h_1 h => cases h
  case h_2 h => exact absurd (Option.some.inj h) (hd _ rfl)
  case h_3 h => exact absurd (Option.some.inj h) (hd _ rfl)
  case h_4 h => exact absurd (Option.some.inj h) (hd _ rfl)
  case h_5 h => exact absurd (Option.some.inj h) (hd _ rfl)
  case h_6 h => exact absurd (Option.some.inj h) (hd _ rfl)
  case h_7 h =>
    cases h
    rfl

end Verdicts

section Forms
variable {py : Python} {syms : Syms} {ln : Line} {even : Bool} {o : Operand} {a : String}
  {form : List Operand} {ops : List (Operand × String)}

theorem check_eq_passes {p : Prop} [Decidable p] : ln.check p = .passes ↔ p := by
  unfold Line.check
  split <;> simp_all

theorem isOk_iff {ε α : Type} {x : Except ε α} : x.isOk = true ↔ ∃ v, x = .ok v := by
  cases x <;> simp [Except.isOk, Except.toBool]

theorem not_longRegister_of_reads (h : Operand.Reads py syms ln .reg a) : ¬ LongRegister py a := by
  obtain ⟨r, hr⟩ := isOk_iff.mp h
  exact (parseReg_eq_ok.mp hr).2

theorem readCheck_eq_passes : o.readCheck py syms ln a = .passes ↔ o.Reads py syms ln a := by
  cases o with
  | reg =>
    simp only [Operand.readCheck]
    split
    case isTrue h => exact iff_of_false (by rintro ⟨⟩) fun hr => not_longRegister_of_reads hr h
    case isFalse => exact check_eq_passes
  | imm lo hi | target n | any => exact check_eq_passes

theorem readCheck_eq_crashes :
    o.readCheck py syms ln a = .crashes ↔ o = .reg ∧ LongRegister py a := by
  have hc : ∀ {p : Prop} [Decidable p], ln.check p ≠ .crashes := by
    intro p _
    unfold Line.check
    split <;> simp
  cases o with
  | reg =>
    simp only [Operand.readCheck]
    split
    case isTrue h => simp [h]
    case isFalse h => simp [h, hc]
  | imm lo hi | target n | any => simp [Operand.readCheck, hc]

theorem fits_eq_passes {lo hi v : ℤ} : ln.fits lo hi v = .passes ↔ lo ≤ v ∧ v < hi := by
  unfold Line.fits
  split
  · simp_all
  · split <;> simp_all

theorem fits_eq_crashes {lo hi v : ℤ} :
    ln.fits lo hi v = .crashes ↔ ¬ (lo ≤ v ∧ v < hi) ∧ TooLong v := by
  unfold Line.fits
  split
  · simp_all
  · split <;> simp_all

theorem parity_iff {x : ℤ} :
    Parity (if even then some "" else none) x ↔ (even = true → x % 2 = 0) := by
  cases even <;> simp [Parity]

/-- An operand that is read fits if its number is in range. -/
theorem fits_iff (hr : o.Reads py syms ln a) :
    firstFailure (o.rangeChecks py syms ln even a) = .passes ↔ o.Fits py syms ln even a := by
  cases o with
  | reg =>
    obtain ⟨r, hr⟩ := isOk_iff.mp hr
    exact iff_of_true rfl ⟨r, (parseReg_eq_ok.mp hr).1⟩
  | imm lo hi =>
    obtain ⟨v, hv⟩ := isOk_iff.mp hr
    simp only [rangeChecks_imm hv, hv, firstFailure_singleton, fits_eq_passes, Operand.Fits,
      Except.ok.injEq, exists_eq_left']
  | target n =>
    obtain ⟨v, hv⟩ := isOk_iff.mp hr
    simp only [rangeChecks_target hv, hv, Line.reaches, firstFailure_eq_passes,
      List.forall_mem_cons, check_eq_passes, fits_eq_passes, parity_iff, Operand.Fits, Except.ok.injEq, exists_eq_left']
    simp
  | any => exact iff_of_true rfl (isOk_iff.mp hr)

theorem overflows_iff (hr : o.Reads py syms ln a) :
    firstFailure (o.rangeChecks py syms ln even a) = .crashes ↔
      o.Overflows py syms ln even a := by
  cases o with
  | reg | any => exact iff_of_false (by rintro ⟨⟩) id
  | imm lo hi =>
    obtain ⟨v, hv⟩ := isOk_iff.mp hr
    simp only [rangeChecks_imm hv, hv, firstFailure_singleton, fits_eq_crashes, Operand.Overflows,
      Except.ok.injEq, exists_eq_left']
  | target n =>
    obtain ⟨v, hv⟩ := isOk_iff.mp hr
    simp only [rangeChecks_target hv, hv, Line.reaches, check_cons, firstFailure_singleton,
      Operand.Overflows, Except.ok.injEq, exists_eq_left', parity_iff]
    split
    case isTrue h => exact fits_eq_crashes.trans (and_iff_right h).symm
    case isFalse h => exact iff_of_false (by rintro ⟨⟩) fun hf => h hf.1

/-- All operands are read, and their numbers are in range. -/
theorem formChecks_eq_passes : firstFailure (formChecks py syms ln even ops) = .passes ↔
    ∀ p ∈ ops, p.1.Reads py syms ln p.2 ∧ p.1.Fits py syms ln even p.2 := by
  simp only [formChecks, firstFailure_eq_passes, List.mem_append, List.mem_flatMap,
    List.mem_singleton]
  constructor
  · intro h p hp
    have hr := readCheck_eq_passes.mp (h _ (.inl ⟨p, hp, rfl⟩))
    exact ⟨hr, (fits_iff hr).mp (firstFailure_eq_passes.mpr fun v hv => h v (.inr ⟨p, hp, hv⟩))⟩
  · rintro h v (⟨p, hp, rfl⟩ | ⟨p, hp, hv⟩)
    · exact readCheck_eq_passes.mpr (h p hp).1
    · exact firstFailure_eq_passes.mp ((fits_iff (h p hp).1).mpr (h p hp).2) v hv

theorem readChecks_eq_passes :
    firstFailure (ops.flatMap fun p => [p.1.readCheck py syms ln p.2]) = .passes ↔
      ∀ p ∈ ops, p.1.Reads py syms ln p.2 := by
  simp only [firstFailure_eq_passes, List.mem_flatMap, List.mem_singleton, forall_exists_index,
    and_imp, ← readCheck_eq_passes]
  exact ⟨fun h p hp => h _ p hp rfl, fun h v p hp he => he ▸ h p hp⟩

theorem formChecks_eq_crashes : firstFailure (formChecks py syms ln even ops) = .crashes ↔
    ReadsBreak py syms ln ops ∨ RangesBreak py syms ln even ops := by
  rw [formChecks, firstFailure_append_eq (v := .crashes) nofun, readChecks_eq_passes,
    firstFailure_flatMap_eq (v := .crashes) nofun, firstFailure_flatMap_eq (v := .crashes) nofun]
  refine or_congr ?_ (and_congr_right fun hr => ?_)
  · simp only [firstFailure_singleton, readCheck_eq_passes, readCheck_eq_crashes, ReadsBreak]
  · refine exists_congr fun pre => exists_congr fun p => exists_congr fun post =>
      and_congr_right fun he => ?_
    have hmem : ∀ q ∈ pre, q ∈ ops := fun q hq => he ▸ List.mem_append_left _ hq
    rw [overflows_iff (hr p (by simp [he]))]
    exact and_congr_left fun _ => forall₂_congr fun q hq => fits_iff (hr q (hmem q hq))

/-- Operands that fit are read, unless one of them is a register with too many digits. -/
theorem reads_of_fits (h : ∀ p ∈ ops, p.1.Fits py syms ln even p.2)
    (hb : ¬ ReadsBreak py syms ln ops) : ∀ p ∈ ops, p.1.Reads py syms ln p.2 := by
  induction ops with
  | nil => exact nofun
  | cons p ops ih =>
    obtain ⟨hp, h⟩ := List.forall_mem_cons.mp h
    have hr : p.1.Reads py syms ln p.2 := by
      obtain ⟨o, a⟩ := p
      cases o with
      | reg =>
        obtain ⟨r, hn⟩ := hp
        have hl : ¬ LongRegister py a := fun hl => hb ⟨[], _, ops, rfl, nofun, rfl, hl⟩
        exact isOk_iff.mpr ⟨r, parseReg_eq_ok.mpr ⟨hn, hl⟩⟩
      | imm lo hi | target n =>
        obtain ⟨v, hv, -⟩ := hp
        exact isOk_iff.mpr ⟨v, hv⟩
      | any => exact isOk_iff.mpr hp
    refine List.forall_mem_cons.mpr ⟨hr, ih h ?_⟩
    rintro ⟨pre, q, post, rfl, hpre, hq⟩
    exact hb ⟨p :: pre, q, post, rfl, List.forall_mem_cons.mpr ⟨hr, hpre⟩, hq⟩

theorem formVerdict_eq_crashes :
    ln.formVerdict py syms even form = .crashes ↔ ln.Breaks py syms even form := by
  unfold Line.formVerdict Line.Breaks
  split
  case isTrue h => rw [formChecks_eq_crashes, and_iff_right h]
  case isFalse h => simp [h]

/-- Without a crash, the operands are accepted in a form if and only if they fit it. -/
theorem formVerdict_eq_passes (hb : ¬ ln.Breaks py syms even form) :
    ln.formVerdict py syms even form = .passes ↔ ln.FitsForm py syms even form := by
  unfold Line.formVerdict Line.FitsForm
  rw [List.forall₂_iff_zip]
  split
  case isTrue h =>
    rw [and_iff_right h.symm, formChecks_eq_passes]
    constructor
    · intro hp a b hab
      exact (hp _ hab).2
    · intro hf p hp
      have hr : ¬ ReadsBreak py syms ln (form.zip ln.args) := fun hr => hb ⟨h, .inl hr⟩
      exact ⟨reads_of_fits (fun q hq => hf hq) hr p hp, hf hp⟩
  case isFalse h =>
    refine iff_of_false nofun fun hf => h hf.1.symm

end Forms

end RiscForge.Assembler
