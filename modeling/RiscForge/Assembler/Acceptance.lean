import RiscForge.Assembler.FormChecks

/-! Which instruction lines `encode_line` accepts, and which ones fit their mnemonic. -/
namespace RiscForge.Assembler

open Lib Rtl

section Lines
variable {py : Python} {syms : Syms} {ln : Line} {even : Bool} {op : String} {form : List Operand}
  {k : ℕ}

/-- The conditions under which the operands that fit are the ones that are accepted. -/
structure Line.Regular (py : Python) (syms : Syms) (ln : Line) (op : String) : Prop where
  noCrash : ¬ ln.Breaks py syms (decide (¬ IgnoresParity op)) (ln.readAs py syms op)
  noneIgnored : IgnoresOperands op → ln.args = []
  evenTarget : IgnoresParity op → ln.Fits py syms false op →
    ∀ v, ln.value py syms (ln.args.length - 1) = .ok v → (v - ln.pc) % 2 = 0
  notMisread : op = "jalr" → ¬ ln.Misread py syms

/-- The outcome of a line is the verdict of its checks. -/
theorem encodesExactly_verdict :
    EncodesExactly py syms ln op ↔ firstFailure (ln.encodeChecks py syms) ≠ .crashes ∧
      (firstFailure (ln.encodeChecks py syms) = .passes ↔ ln.Fits py syms true op) := by
  have hv : verdict Raised.report (encodeLine py syms ln) =
      firstFailure (ln.encodeChecks py syms) := verdict_encodeLine
  have hok : (∃ words, encodeLine py syms ln = .ok words) ↔
      firstFailure (ln.encodeChecks py syms) = .passes := by
    rw [← hv, verdict_eq_passes]
  constructor
  · rintro ⟨ha, hr⟩
    refine ⟨fun hc => ?_, hok.symm.trans ha⟩
    have hn : ¬ ln.Fits py syms true op := by
      rw [← ha, hok, hc]
      simp
    obtain ⟨e, he, -⟩ := hr hn
    rw [← hv, he] at hc
    cases hc
  · rintro ⟨hc, ha⟩
    refine ⟨hok.trans ha, fun hn => ?_⟩
    cases hf : firstFailure (ln.encodeChecks py syms) with
    | passes => exact absurd (ha.mp hf) hn
    | crashes => exact absurd hf hc
    | rejects k =>
      have hk : k = ln.lineno := owns_encodeChecks _ (mem_of_firstFailure hf nofun) k rfl
      rw [hf] at hv
      cases he : encodeLine py syms ln with
      | ok words =>
        rw [he] at hv
        cases hv
      | error e =>
        rw [he] at hv
        cases e with
        | asm e =>
          cases hv
          exact ⟨e, rfl, hk⟩
        | valueError msg | memoryError => cases hv

theorem fits_single (h : forms op = [form]) :
    ln.Fits py syms even op ↔ ln.FitsForm py syms even form := by
  simp [Line.Fits, h]

theorem Line.FitsForm.length (h : ln.FitsForm py syms even form) :
    ln.args.length = form.length := (List.Forall₂.length_eq h).symm

/-- Targets at an even offset are targets. -/
theorem Line.Fits.mono (h : ln.Fits py syms true op) : ln.Fits py syms false op := by
  obtain ⟨form, hf, h⟩ := h
  refine ⟨form, hf, List.Forall₂.imp (fun o a ho => ?_) h⟩
  cases o with
  | target n =>
    obtain ⟨v, hv, -, hr⟩ := ho
    exact ⟨v, hv, nofun, hr⟩
  | reg | imm lo hi | any => exact ho

theorem otherForms_single (ho : otherForms op ≠ []) (h1 : op ≠ "jal") (h2 : op ≠ "jalr") :
    otherForms op = [(otherForms op).headD []] := by
  have h : otherForms op = [] ∨ op = "jal" ∨ op = "jalr" ∨ ∃ form, otherForms op = [form] := by
    unfold otherForms
    split <;> simp
  rcases h with h | h | h | ⟨form, h⟩
  · exact absurd h ho
  · exact absurd h h1
  · exact absurd h h2
  · rw [h]
    rfl

/-- Only JAL and JALR have more than one form. -/
theorem forms_single (ho : forms op ≠ []) (h1 : op ≠ "jal") (h2 : op ≠ "jalr") :
    forms op = [ln.readAs py syms op] := by
  rw [readAs_of_ne h1 h2]
  unfold forms at ho ⊢
  cases hr : rTable op with
  | some r => rfl
  | none =>
    cases ha : iAluTable op with
    | some f3 => rfl
    | none =>
      cases hl : loadTable op with
      | some f3 => rfl
      | none =>
        cases hs : storeTable op with
        | some f3 => rfl
        | none =>
          cases hb : branchTable op with
          | some f3 => rfl
          | none =>
            simp only [hr, ha, hl, hs, hb] at ho ⊢
            exact otherForms_single ho h1 h2

theorem fits_jal : ln.FitsForm py syms true (ln.readAs py syms "jal") ↔
    ln.Fits py syms true "jal" := by
  have hf : ln.Fits py syms true "jal" ↔ ln.FitsForm py syms true [.target 20] ∨
      ln.FitsForm py syms true [.reg, .target 20] := by
    simp [Line.Fits, show forms "jal" = [[.target 20], [.reg, .target 20]] from rfl]
  rw [hf, Line.readAs, if_pos rfl]
  split
  case isTrue h1 =>
    refine (or_iff_left fun h => ?_).symm
    rw [h.length] at h1
    cases h1
  case isFalse h1 => exact (or_iff_right fun h => h1 h.length).symm

/-- What becomes of JALR's second and third operand as `rs1, imm`. -/
theorem rs1Imm_cases (py : Python) (syms : Syms) (ln : Line) :
    (∃ rs1 v, ln.rs1Imm py syms = .ok (rs1, v)) ∨
      ¬ LongRegister py (ln.args.getD 1 "") ∧ (∃ e, ln.rs1Imm py syms = .error (.asm e)) ∨
      LongRegister py (ln.args.getD 1 "") ∧
        ∃ e, ln.rs1Imm py syms = .error e ∧ e.report = none := by
  have hv : verdict Raised.report (ln.rs1Imm py syms) =
      firstFailure [ln.readsReg py 1, ln.readsValue py syms 2] :=
    bind_reg fun rs1 => bind_value fun v _ => rfl
  cases he : ln.rs1Imm py syms with
  | ok p => exact .inl ⟨p.1, p.2, rfl⟩
  | error e =>
    cases hr : e.report with
    | some k =>
      cases e with
      | asm e =>
        refine .inr (.inl ⟨fun hl => ?_, e, rfl⟩)
        rw [he, Line.readsReg, if_pos hl] at hv
        cases hv
      | valueError msg | memoryError => cases hr
    | none =>
      refine .inr (.inr ⟨?_, e, rfl, hr⟩)
      simp only [he, verdict, hr] at hv
      have hm := mem_of_firstFailure hv.symm (by rintro ⟨⟩)
      rw [readsReg_eq syms rfl, readsValue_eq (o := .any) (by rintro ⟨⟩) rfl] at hm
      simp only [List.mem_cons, List.not_mem_nil, or_false] at hm
      rcases hm with h | h
      · exact (readCheck_eq_crashes.mp h.symm).2
      · cases (readCheck_eq_crashes.mp h.symm).1

section Jalr
variable {a b c : String} {rs1 v : ℤ} {e : Raised}

/-- The operands of JALR as `rs1, imm` and as `imm(rs1)`. -/
theorem fitsForm_jalr (h : ln.args = [a, b, c]) {o₁ o₂ : Operand} :
    ln.FitsForm py syms true [.reg, o₁, o₂] ↔ Operand.Fits py syms ln true .reg a ∧
      o₁.Fits py syms ln true b ∧ o₂.Fits py syms ln true c := by
  simp [Line.FitsForm, h]

theorem reg_one (h : ln.args = [a, b, c]) : ln.reg py 1 = parseReg py b ln.lineno ln.raw := by
  rw [Line.reg, h]
  rfl

theorem value_two (h : ln.args = [a, b, c]) :
    ln.value py syms 2 = resolve py syms c ln.lineno ln.raw := by
  rw [Line.value, h]
  rfl

/-- If `rs1, imm` reads, then `imm(rs1)` is not tried. -/
theorem fits_rs1Imm (h : ln.args = [a, b, c]) (he : ln.rs1Imm py syms = .ok (rs1, v)) :
    (ln.FitsForm py syms true [.reg, .reg, imm12] ↔ ln.FitsForm py syms true [.reg, .reg, imm12] ∨
        ln.FitsForm py syms true [.reg, imm12, .reg]) ↔ ¬ ln.Misread py syms := by
  obtain ⟨h1, h2⟩ := rs1Imm_eq_ok.mp he
  constructor
  · intro hiff hm
    obtain ⟨-, -, w, hw, hrange⟩ := (fitsForm_jalr h).mp (hiff.mpr (.inr hm.other))
    obtain ⟨u, hu, hout⟩ := hm.imm
    rw [value_two h, hw] at hu
    cases hu
    exact hout hrange
  · intro hm
    refine ⟨.inl, ?_⟩
    rintro (hx | hx)
    · exact hx
    · by_contra hn
      have hname : RegName py b rs1 := (parseReg_eq_ok.mp (reg_one h ▸ h1)).1
      refine hm ⟨hx, isOk_iff.mpr ⟨rs1, h1⟩, v, h2, fun hrange => hn ?_⟩
      exact (fitsForm_jalr h).mpr
        ⟨((fitsForm_jalr h).mp hx).1, ⟨rs1, hname⟩, v, value_two h ▸ h2, hrange⟩

/-- If `rs1, imm` is rejected, then it does not fit. -/
theorem not_fits_rs1Imm (h : ln.args = [a, b, c]) (hl : ¬ LongRegister py b)
    (he : ∀ rs1 v, ln.rs1Imm py syms ≠ .ok (rs1, v)) :
    ¬ ln.FitsForm py syms true [.reg, .reg, imm12] := by
  intro hx
  obtain ⟨-, ⟨r, hb⟩, v, hv, -⟩ := (fitsForm_jalr h).mp hx
  exact he r v (rs1Imm_eq_ok.mpr
    ⟨(reg_one h).trans (parseReg_eq_ok.mpr ⟨hb, hl⟩), (value_two h).trans hv⟩)

theorem not_misread (he : ∀ rs1 v, ln.rs1Imm py syms ≠ .ok (rs1, v)) : ¬ ln.Misread py syms := by
  intro hm
  obtain ⟨r, h1⟩ := isOk_iff.mp hm.rs1
  obtain ⟨v, h2, -⟩ := hm.imm
  exact he r v (rs1Imm_eq_ok.mpr ⟨h1, h2⟩)

/-- A second operand that breaks down is reached if the first one names a register. -/
theorem breaks_rs1 (h : ln.args = [a, b, c]) (hl : LongRegister py b)
    (hb : ¬ ln.Breaks py syms true [.reg, .reg, imm12]) :
    ¬ Operand.Fits py syms ln true .reg a := by
  rintro ⟨r, ha⟩
  refine hb ⟨by rw [h]; rfl, .inl ?_⟩
  rw [h]
  by_cases hla : LongRegister py a
  · exact ⟨[], (.reg, a), _, rfl, nofun, rfl, hla⟩
  · have hreads : Operand.Reads py syms ln .reg a :=
      isOk_iff.mpr ⟨r, parseReg_eq_ok.mpr ⟨ha, hla⟩⟩
    exact ⟨[(.reg, a)], (.reg, b), _, rfl, by simpa using hreads, rfl, hl⟩

/-- In the form in which three operands of JALR are read, they fit if they fit at all, unless the
second operand is misread. -/
theorem fits_three (h : ln.args = [a, b, c])
    (hb : ¬ ln.Breaks py syms true (ln.readAs py syms "jalr")) :
    (ln.FitsForm py syms true (ln.readAs py syms "jalr") ↔
        ln.FitsForm py syms true [.reg, .reg, imm12] ∨
        ln.FitsForm py syms true [.reg, imm12, .reg]) ↔ ¬ ln.Misread py syms := by
  have h1 : ¬ ln.args.length = 1 := by simp [h]
  rcases rs1Imm_cases py syms ln with
    ⟨rs1, v, he⟩ | ⟨hl, e, he⟩ | ⟨hl, e, he, hn⟩
  · rw [Line.readAs, if_neg (by decide), if_pos rfl, if_neg h1, he]
    exact fits_rs1Imm h he
  · have hno : ∀ rs1 v, ln.rs1Imm py syms ≠ .ok (rs1, v) := by simp [he]
    rw [Line.readAs, if_neg (by decide), if_pos rfl, if_neg h1, he]
    rw [h] at hl
    exact iff_of_true (or_iff_right (not_fits_rs1Imm h hl hno)).symm (not_misread hno)
  · have hr : ln.readAs py syms "jalr" = [.reg, .reg, imm12] := by
      rw [Line.readAs, if_neg (by decide), if_pos rfl, if_neg h1, he]
      cases e with
      | asm e => cases hn
      | valueError msg | memoryError => rfl
    rw [hr] at hb ⊢
    rw [h] at hl
    have hno : ∀ o₁ o₂, ¬ ln.FitsForm py syms true [.reg, o₁, o₂] :=
      fun o₁ o₂ hx => breaks_rs1 h hl hb ((fitsForm_jalr h).mp hx).1
    exact iff_of_true (iff_of_false (hno _ _) (by simp [hno])) fun hm => hno _ _ hm.other

theorem fits_jalr (hb : ¬ ln.Breaks py syms true (ln.readAs py syms "jalr")) :
    (ln.FitsForm py syms true (ln.readAs py syms "jalr") ↔ ln.Fits py syms true "jalr") ↔
      ¬ ln.Misread py syms := by
  have hf : ln.Fits py syms true "jalr" ↔ ln.FitsForm py syms true [.reg] ∨
      ln.FitsForm py syms true [.reg, .reg, imm12] ∨
      ln.FitsForm py syms true [.reg, imm12, .reg] := by
    simp [Line.Fits, show forms "jalr" = [[.reg], [.reg, .reg, imm12], [.reg, imm12, .reg]] from rfl]
  rw [hf]
  by_cases h1 : ln.args.length = 1
  · have h3 : ∀ o₁ o₂, ¬ ln.FitsForm py syms true [.reg, o₁, o₂] := by
      intro o₁ o₂ h
      rw [h.length] at h1
      cases h1
    rw [Line.readAs, if_neg (by decide), if_pos rfl, if_pos h1]
    refine iff_of_true ?_ fun hm => h3 _ _ hm.other
    simp [h3]
  rw [or_iff_right fun h => h1 h.length]
  by_cases h3 : ln.args.length = 3
  · obtain ⟨a, b, c, h⟩ := List.length_eq_three.mp h3
    exact fits_three h hb
  · have hn : ∀ o₁ o₂, ¬ ln.FitsForm py syms true [.reg, o₁, o₂] := fun o₁ o₂ h => h3 h.length
    have hx : ¬ ln.FitsForm py syms true (ln.readAs py syms "jalr") := by
      rw [Line.readAs, if_neg (by decide), if_pos rfl, if_neg h1]
      split
      · exact hn _ _
      · exact hn _ _
    exact iff_of_true (iff_of_false hx (by simp [hn])) fun hm => hn _ _ hm.other

end Jalr

theorem fitsForm_target {n : ℕ} : ln.FitsForm py syms even [.target n] ↔
    ln.args.length = 1 ∧ Operand.Fits py syms ln even (.target n) (ln.args.getD 0 "") := by
  constructor
  · intro h
    obtain ⟨a, ha⟩ := List.length_eq_one_iff.mp h.length
    simp_all [Line.FitsForm]
  · rintro ⟨hl, h⟩
    obtain ⟨a, ha⟩ := List.length_eq_one_iff.mp hl
    simp_all [Line.FitsForm]

theorem fitsForm_reg_target {n : ℕ} : ln.FitsForm py syms even [.reg, .target n] ↔
    ln.args.length = 2 ∧ Operand.Fits py syms ln even .reg (ln.args.getD 0 "") ∧
      Operand.Fits py syms ln even (.target n) (ln.args.getD 1 "") := by
  constructor
  · intro h
    obtain ⟨a, b, ha⟩ := List.length_eq_two.mp h.length
    simp_all [Line.FitsForm]
  · rintro ⟨hl, h⟩
    obtain ⟨a, b, ha⟩ := List.length_eq_two.mp hl
    simp_all [Line.FitsForm]

theorem fits_target_even {n : ℕ} (h : Operand.Fits py syms ln false (.target n) (ln.args.getD k "")) :
    Operand.Fits py syms ln true (.target n) (ln.args.getD k "") ↔
      ∀ v, ln.value py syms k = .ok v → (v - ln.pc) % 2 = 0 := by
  obtain ⟨v, hv, -, hr⟩ := h
  have hk : ln.value py syms k = .ok v := hv
  simp only [Operand.Fits, hv, hk, Except.ok.injEq, exists_eq_left', forall_eq', hr, and_true,
    true_imp_iff]

/-- Where the parity is not checked, it is all that is missing. -/
theorem even_iff (hp : IgnoresParity op) (h : ln.Fits py syms false op) :
    ln.Fits py syms true op ↔
      ∀ v, ln.value py syms (ln.args.length - 1) = .ok v → (v - ln.pc) % 2 = 0 := by
  rcases hp with rfl | hp
  · have hf : forms "j" = [[.target 20]] := rfl
    rw [fits_single hf, fitsForm_target] at h ⊢
    rw [h.1, and_iff_right rfl]
    exact fits_target_even h.2
  · have hf : forms op = [[.reg, .target 12]] := by rcases hp with rfl | rfl <;> rfl
    rw [fits_single hf, fitsForm_reg_target] at h ⊢
    rw [h.1, and_iff_right rfl]
    exact (and_iff_right h.2.1).trans (fits_target_even h.2.2)

/-- The mnemonics that take no operands and are accepted with any. -/
theorem ignored_iff (hi : IgnoresOperands op) :
    ln.Fits py syms true op ↔ ln.args = [] := by
  have hf : forms op = [[]] := by rcases hi with rfl | rfl | rfl | rfl | rfl <;> rfl
  rw [fits_single hf, Line.FitsForm, List.forall₂_nil_left_iff]

theorem not_breaks_nil : ¬ ln.Breaks py syms even [] := by
  rintro ⟨-, ⟨pre, p, post, he, -⟩ | ⟨-, pre, p, post, he, -⟩⟩
  · simp at he
  · simp at he

theorem regular_of_ignored (hi : IgnoresOperands op) :
    ln.Regular py syms op ↔ ln.args = [] := by
  have hr : ln.readAs py syms op = [] := by
    rcases hi with rfl | rfl | rfl | rfl | rfl <;> rfl
  constructor
  · intro h
    exact h.noneIgnored hi
  · intro ha
    refine ⟨by rw [hr]; exact not_breaks_nil, fun _ => ha, fun hp => ?_, fun hj => ?_⟩
    · rcases hi with rfl | rfl | rfl | rfl | rfl <;> exact absurd hp (by decide)
    · rcases hi with rfl | rfl | rfl | rfl | rfl <;> exact absurd hj (by decide)

/-- In the form that is read, the operands fit if and only if they fit at all, unless the parity
or the second operand of JALR comes in between. -/
theorem fitsForm_iff (ho : forms op ≠ [])
    (hb : ¬ ln.Breaks py syms (decide (¬ IgnoresParity op)) (ln.readAs py syms op)) :
    (ln.FitsForm py syms (decide (¬ IgnoresParity op)) (ln.readAs py syms op) ↔
        ln.Fits py syms true op) ↔
      (IgnoresParity op → ln.Fits py syms false op →
          ∀ v, ln.value py syms (ln.args.length - 1) = .ok v → (v - ln.pc) % 2 = 0) ∧
        (op = "jalr" → ¬ ln.Misread py syms) := by
  by_cases hj : op = "jalr"
  · subst hj
    have hp : ¬ IgnoresParity "jalr" := by decide
    simp only [hp, not_false_eq_true, decide_true, false_imp_iff, true_and, forall_const] at hb ⊢
    exact fits_jalr hb
  by_cases hl : op = "jal"
  · subst hl
    have hp : ¬ IgnoresParity "jal" := by decide
    simp only [hp, not_false_eq_true, decide_true, false_imp_iff, hj, and_self, iff_true]
    exact fits_jal
  rw [← fits_single (forms_single ho hl hj)]
  by_cases hp : IgnoresParity op
  · simp only [hp, not_true_eq_false, decide_false, hj, false_imp_iff, and_true, true_imp_iff]
    constructor
    · exact fun h hf => (even_iff hp hf).mp (h.mp hf)
    · exact fun h => ⟨fun hf => (even_iff hp hf).mpr (h hf), Line.Fits.mono⟩
  · simp [hp, hj]

/-- `nop x1` is accepted. -/
def nopLine : Line := ⟨1, "nop x1", none, some "nop", ["x1"], .text, 0, 4⟩

theorem nop_ignores_operand : encodeLine .plain [] nopLine = .ok [0x13] ∧
    ¬ nopLine.Fits .plain [] true "nop" := by
  refine ⟨by decide +kernel, fun h => ?_⟩
  cases (ignored_iff (by decide)).mp h

/-- A line is accepted exactly when its operands fit, if and only if it is regular. -/
theorem encodesExactly_iff (hop : ln.op = some op) (ho : forms op ≠ []) :
    EncodesExactly py syms ln op ↔ ln.Regular py syms op := by
  rw [encodesExactly_verdict, encodeChecks_eq hop ho]
  by_cases hi : IgnoresOperands op
  · rw [instructionChecks_ignored hi, ignored_iff hi, regular_of_ignored hi]
    simp
  · rw [instructionChecks_form ho hi, Ne, formVerdict_eq_crashes]
    constructor
    · rintro ⟨hb, hf⟩
      rw [formVerdict_eq_passes hb, fitsForm_iff ho hb] at hf
      exact ⟨hb, fun h => absurd h hi, hf.1, hf.2⟩
    · intro h
      refine ⟨h.noCrash, ?_⟩
      rw [formVerdict_eq_passes h.noCrash, fitsForm_iff ho h.noCrash]
      exact ⟨h.evenTarget, h.notMisread⟩

/-- `j 3` at address 0. -/
def oddJumpLine : Line := ⟨1, "j 3", none, some "j", ["3"], .text, 0, 4⟩

/-- `lw a0, -4(sp)`. -/
def loadLine : Line := ⟨1, "lw a0, -4(sp)", none, some "lw", ["a0", "-4", "sp"], .text, 0, 4⟩

theorem regular_loadLine : loadLine.Regular .plain [] "lw" where
  noCrash hb := by
    have hc := formVerdict_eq_crashes.mpr hb
    revert hc
    decide +kernel
  noneIgnored h := absurd h (by decide)
  evenTarget h := absurd h (by decide)
  notMisread h := absurd h (by decide)

theorem encodesExactly_iff_lw_j : loadLine.Fits .plain [] true "lw" ∧
    EncodesExactly .plain [] loadLine "lw" ∧ ¬ EncodesExactly .plain [] oddJumpLine "j" := by
  have hload : EncodesExactly .plain [] loadLine "lw" :=
    (encodesExactly_iff rfl (by decide)).mpr regular_loadLine
  have he : encodeLine .plain [] loadLine = .ok [0xFFC12503] := by decide +kernel
  refine ⟨hload.accepts.mp ⟨_, he⟩, hload, fun h => ?_⟩
  have hv : resolve .plain [] "3" 1 "j 3" = .ok 3 := by decide +kernel
  have hf : oddJumpLine.Fits .plain [] false "j" :=
    ⟨[.target 20], by decide, .cons ⟨3, hv, nofun, by decide, by decide⟩ .nil⟩
  have ht := ((encodesExactly_iff rfl (by decide)).mp h).evenTarget (by decide) hf 3 hv
  exact absurd ht (by decide)

end Lines
end RiscForge.Assembler
