import RiscForge.Assembler.Checks
import RiscForge.Assembler.Faithful

/-! What a caller of `assemble` that handles `AsmError` alone can rely on. -/
namespace RiscForge.Assembler

open Lib

section Blame
variable {py : Python} {syms : Syms} {ln : Line} {c : ℤ → List (Verdict ℕ)} {k : ℕ} {op : String}
  {seen : List String}

/-- The check reports no other line. -/
def Line.Own (ln : Line) (v : Verdict ℕ) : Prop := ∀ n, v = .rejects n → n = ln.lineno

@[simp] theorem own_check {p : Prop} [Decidable p] : ln.Own (ln.check p) := by
  unfold Line.check
  split <;> simp [Line.Own, eq_comm]

@[simp] theorem own_rejects : ln.Own (.rejects ln.lineno) := by
  simp [Line.Own, eq_comm]

@[simp] theorem own_readsReg : ln.Own (ln.readsReg py k) := by
  unfold Line.readsReg
  split
  · simp [Line.Own]
  · exact own_check

@[simp] theorem own_readsValue : ln.Own (ln.readsValue py syms k) := own_check

@[simp] theorem own_fits {lo hi v : ℤ} : ln.Own (ln.fits lo hi v) := by
  unfold Line.fits
  split
  · simp [Line.Own]
  · split
    · simp [Line.Own]
    · exact own_rejects

/-- All of the checks report the line itself. -/
def Line.Owns (ln : Line) (vs : List (Verdict ℕ)) : Prop := ∀ v ∈ vs, ln.Own v

@[simp] theorem owns_nil : ln.Owns [] := by
  simp [Line.Owns]

@[simp] theorem owns_cons {v : Verdict ℕ} {vs : List (Verdict ℕ)} :
    ln.Owns (v :: vs) ↔ ln.Own v ∧ ln.Owns vs := List.forall_mem_cons

theorem owns_ofValue (h : ∀ v, ln.Owns (c v)) : ln.Owns (ln.ofValue py syms k c) := by
  unfold Line.ofValue
  split
  · exact h _
  · exact owns_nil

@[simp] theorem owns_reaches {even : Option String} {n : ℕ} {target : ℤ} :
    ln.Owns (ln.reaches even n target) := by
  simp [Line.reaches]

theorem owns_regChecks (n : ℕ) : ln.Owns (ln.regChecks py n) := by
  unfold Line.regChecks
  split <;> simp

theorem owns_immChecks (h : ∀ v, ln.Owns (c v)) : ln.Owns (ln.immChecks py syms c) := by
  simp [Line.immChecks, owns_ofValue h]

theorem owns_valueChecks (h : ∀ v, ln.Owns (c v)) : ln.Owns (ln.valueChecks py syms c) := by
  simp [Line.valueChecks, owns_ofValue h]

theorem owns_targetChecks (h : ∀ v, ln.Owns (c v)) : ln.Owns (ln.targetChecks py syms c) := by
  simp [Line.targetChecks, owns_ofValue h]

theorem owns_memChecks : ln.Owns (ln.memChecks py syms) := by
  simp [Line.memChecks, owns_ofValue]

theorem owns_jalChecks : ln.Owns (ln.jalChecks py syms) := by
  unfold Line.jalChecks
  split
  · simp [owns_ofValue]
  · split <;> simp [owns_ofValue]

theorem owns_jalrChecks : ln.Owns (ln.jalrChecks py syms) := by
  unfold Line.jalrChecks
  split
  · simp
  · split
    · split <;> simp [owns_ofValue]
    · simp

theorem owns_otherChecks : ln.Owns (ln.otherChecks py syms op) := by
  unfold Line.otherChecks
  split
  · exact owns_immChecks (by simp)
  · exact owns_immChecks (by simp)
  · exact owns_immChecks (by simp)
  · exact owns_jalChecks
  · exact owns_jalrChecks
  · exact owns_valueChecks (by simp)
  · exact owns_valueChecks (by simp)
  · exact owns_nil
  · exact owns_nil
  · exact owns_nil
  · exact owns_nil
  · exact owns_nil
  · exact owns_regChecks 2
  · exact owns_regChecks 2
  · exact owns_regChecks 2
  · exact owns_targetChecks fun _ => owns_reaches
  · exact owns_regChecks 1
  · simp
  · exact owns_valueChecks fun _ => owns_reaches
  · exact owns_valueChecks fun _ => owns_reaches
  · exact owns_valueChecks fun _ => owns_nil
  · exact owns_valueChecks fun _ => owns_nil
  · exact owns_targetChecks fun _ => owns_nil
  · simp

theorem owns_encodeChecks : ln.Owns (ln.encodeChecks py syms) := by
  unfold Line.encodeChecks
  split
  · exact owns_nil
  · exact owns_nil
  · exact owns_nil
  · exact owns_nil
  · simp [Line.dataChecks, Line.Owns]
  · simp [Line.dataChecks, Line.Owns]
  · unfold Line.instructionChecks
    repeat' split
    · exact owns_regChecks 3
    · exact owns_immChecks (by simp)
    · exact owns_memChecks
    · exact owns_memChecks
    · exact owns_immChecks (by simp)
    · exact owns_otherChecks

theorem owns_sizeChecks : ln.Owns (ln.sizeChecks py) := by
  unfold Line.sizeChecks
  split
  · split
    · rw [owns_cons]
      refine ⟨?_, owns_nil⟩
      split <;> simp [Line.Own]
    · simp
  · exact owns_nil

theorem owns_placeChecks : ln.Owns (ln.placeChecks py seen) := by
  unfold Line.placeChecks
  rw [owns_cons]
  refine ⟨own_check, ?_⟩
  split
  · rw [owns_cons]
    refine ⟨own_check, ?_⟩
    split <;> simp
  · simp
  · simp
  · exact owns_nil

end Blame

section Lines
variable {py : Python} {source : String} {st st' : Layout} {lines lines' : List Line} {ln : Line}

/-- The line numbers of the tokens count from 1. -/
theorem lineno_tokenize (h : ln ∈ tokenize py source) :
    1 ≤ ln.lineno ∧ ln.lineno ≤ (splitlines source).length := by
  obtain ⟨⟨raw, lineno⟩, hp, ht⟩ := List.mem_filterMap.mp h
  have hr := List.mem_zipIdx hp
  have hn : ln.lineno = lineno := by
    simp only [tokenizeLine] at ht
    split at ht
    · cases ht
    · split at ht <;> split at ht <;> cases ht <;> rfl
  rw [hn]
  omega

theorem Pass1.lineno (h : Pass1 py st lines lines' st') :
    ∀ ln' ∈ lines', ∃ ln ∈ lines, ln'.lineno = ln.lineno := by
  induction h with
  | nil => simp
  | @cons st st₁ st' ln ln' lines lines' head tail ih =>
    intro m hm
    rcases List.mem_cons.mp hm with rfl | hm
    · exact ⟨ln, List.mem_cons_self, by rw [head.line]⟩
    · obtain ⟨a, ha, he⟩ := ih m hm
      exact ⟨a, List.mem_cons_of_mem ln ha, he⟩

theorem rejects_placeChecksFrom {seen : List String} {k : ℕ}
    (h : Verdict.rejects k ∈ placeChecksFrom py seen lines) : ∃ ln ∈ lines, k = ln.lineno := by
  induction lines generalizing seen with
  | nil => cases h
  | cons ln lines ih =>
    rcases List.mem_append.mp h with h | h
    · exact ⟨ln, List.mem_cons_self, owns_placeChecks _ h k rfl⟩
    · obtain ⟨m, hm, he⟩ := ih h
      exact ⟨m, List.mem_cons_of_mem ln hm, he⟩

theorem rejects_checks {textBase : ℤ} {dataBase : Option ℤ} {k : ℕ}
    (h : Verdict.rejects k ∈ checks py source textBase dataBase) :
    ∃ ln ∈ tokenize py source, k = ln.lineno := by
  rcases List.mem_append.mp h with h | h
  · obtain ⟨ln, hl, hv⟩ := List.mem_flatMap.mp h
    exact ⟨ln, hl, owns_sizeChecks _ hv k rfl⟩
  rcases List.mem_append.mp h with h | h
  · exact rejects_placeChecksFrom h
  · cases hlay : layOut py source textBase dataBase with
    | error e =>
      rw [hlay] at h
      cases h
    | ok p =>
      obtain ⟨placed, st⟩ := p
      rw [hlay] at h
      obtain ⟨sizes, -, hp⟩ := layOut_eq_ok.mp hlay
      obtain ⟨ln', hl, hv⟩ := List.mem_flatMap.mp h
      obtain ⟨ln, hln, he⟩ := (pass1From_ok hp).lineno ln' hl
      exact ⟨ln, hln, (owns_encodeChecks _ hv k rfl).trans he⟩

end Lines

section Handled
variable {py : Python} {source : String} {textBase : ℤ} {dataBase : Option ℤ} {words : List ℤ}

/-- The words are 32-bit numbers, or the error is an `AsmError` on a line of the source. -/
def Handled (source : String) : Asm (List ℤ) → Prop
  | .ok words => AreWords words
  | .error (.asm e) => 1 ≤ e.lineno ∧ e.lineno ≤ (splitlines source).length
  | .error _ => False

theorem areWords_assemble (h : assemble py source textBase dataBase = .ok words) :
    AreWords words := by
  obtain ⟨lines, st, -, image, he, rfl⟩ := assemble_eq_ok.mp h
  by_cases hne : image = []
  · subst hne
    simp [packWords, AreWords]
  · obtain ⟨lo, hp⟩ := packWords_packed (emitFrom_ok he).imageBytes hne
    exact hp.areWords

/-- Nothing but `AsmError` escapes, unless the first check that fails is one that breaks down: the
shift by an `.align`, or a conversion of a number with too many digits from or to decimal. -/
theorem handled_iff :
    Handled source (assemble py source textBase dataBase) ↔
      firstFailure (checks py source textBase dataBase) ≠ .crashes := by
  have hv : verdict Raised.report (assemble py source textBase dataBase) =
      firstFailure (checks py source textBase dataBase) := verdict_assemble
  rw [← hv]
  cases ha : assemble py source textBase dataBase with
  | ok words => simpa [Handled, verdict] using areWords_assemble ha
  | error e =>
    cases e with
    | asm e =>
      rw [ha] at hv
      have hmem := mem_of_firstFailure hv.symm (by simp [verdict, Raised.report])
      obtain ⟨ln, hl, he⟩ := rejects_checks hmem
      have hr := lineno_tokenize hl
      rw [← he] at hr
      simpa [Handled, verdict, Raised.report] using hr
    | valueError msg => simp [Handled, verdict, Raised.report]
    | memoryError => simp [Handled, verdict, Raised.report]

/-- The sizing loop shifts by a negative alignment before pass 1 looks at it. -/
theorem negative_align_escapes :
    ¬ Handled ".align -1\n" (assemble .plain ".align -1\n" 0 none) := by
  have h : assemble .plain ".align -1\n" 0 none =
      .error (.valueError "negative shift count") := by decide +kernel
  rw [h]
  exact id

end Handled
end RiscForge.Assembler
