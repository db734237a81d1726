import Mathlib.Data.List.Basic

/-! Programs that check one thing after another: the first check that fails decides. -/
namespace RiscForge.Lib

variable {κ ε α β σ : Type}

/-- The input passes, it is rejected with a report, or the check itself breaks down. -/
inductive Verdict (κ : Type)
  | passes
  | rejects (k : κ)
  | crashes
  deriving DecidableEq, Repr

/-- The verdict of some checks made in their order. -/
def firstFailure : List (Verdict κ) → Verdict κ
  | [] => .passes
  | .passes :: vs => firstFailure vs
  | .rejects k :: _ => .rejects k
  | .crashes :: _ => .crashes

/-- The verdict of a program whose errors are reports where `report` says so. -/
def verdict (report : ε → Option κ) : Except ε α → Verdict κ
  | .ok _ => .passes
  | .error e =>
    match report e with
    | some k => .rejects k
    | none => .crashes

section Lists
variable {v : Verdict κ} {vs ws : List (Verdict κ)}

theorem firstFailure_append (h : firstFailure vs = .passes) :
    firstFailure (vs ++ ws) = firstFailure ws := by
  induction vs with
  | nil => rfl
  | cons v vs ih =>
    cases v with
    | passes => exact ih h
    | rejects k => cases h
    | crashes => cases h

theorem firstFailure_append_of_ne (h : firstFailure vs ≠ .passes) :
    firstFailure (vs ++ ws) = firstFailure vs := by
  induction vs with
  | nil => exact (h rfl).elim
  | cons v vs ih =>
    cases v with
    | passes => exact ih h
    | rejects k => rfl
    | crashes => rfl

@[simp] theorem firstFailure_singleton : firstFailure [v] = v := by
  cases v <;> rfl

theorem firstFailure_eq_passes : firstFailure vs = .passes ↔ ∀ v ∈ vs, v = .passes := by
  induction vs with
  | nil => simp [firstFailure]
  | cons v vs ih =>
    cases v with
    | passes => simpa [firstFailure] using ih
    | rejects k => simp [firstFailure]
    | crashes => simp [firstFailure]

/-- The second group of checks counts once the first has passed. -/
theorem firstFailure_append_eq (hv : v ≠ .passes) : firstFailure (vs ++ ws) = v ↔
    firstFailure vs = v ∨ firstFailure vs = .passes ∧ firstFailure ws = v := by
  by_cases h : firstFailure vs = .passes
  · rw [firstFailure_append h, h]
    simp [hv.symm]
  · rw [firstFailure_append_of_ne h]
    simp [h]

/-- In groups of checks, one for each element, the first group that fails decides. -/
theorem firstFailure_flatMap_eq {f : α → List (Verdict κ)} {as : List α} (hv : v ≠ .passes) :
    firstFailure (as.flatMap f) = v ↔ ∃ pre a post, as = pre ++ a :: post ∧
      (∀ b ∈ pre, firstFailure (f b) = .passes) ∧ firstFailure (f a) = v := by
  induction as with
  | nil => simp [firstFailure, hv.symm]
  | cons a as ih =>
    rw [List.flatMap_cons, firstFailure_append_eq hv, ih]
    constructor
    · rintro (h | ⟨ha, pre, b, post, rfl, hpre, hb⟩)
      · exact ⟨[], a, as, rfl, nofun, h⟩
      · exact ⟨a :: pre, b, post, rfl, List.forall_mem_cons.mpr ⟨ha, hpre⟩, hb⟩
    · rintro ⟨pre, b, post, he, hpre, hb⟩
      cases pre with
      | nil =>
        cases he
        exact .inl hb
      | cons c pre =>
        cases he
        obtain ⟨ha, hpre⟩ := List.forall_mem_cons.mp hpre
        exact .inr ⟨ha, pre, b, post, rfl, hpre, hb⟩

/-- What decides is one of the checks. -/
theorem mem_of_firstFailure (h : firstFailure vs = v) (hv : v ≠ .passes) : v ∈ vs := by
  induction vs with
  | nil => exact (hv h.symm).elim
  | cons w vs ih =>
    cases w with
    | passes => exact List.mem_cons_of_mem _ (ih h)
    | rejects k => exact h ▸ List.mem_cons_self
    | crashes => exact h ▸ List.mem_cons_self

end Lists

section Programs
variable {report : ε → Option κ} {x : Except ε α} {f : α → Except ε β} {v : Verdict κ}
  {vs ws : List (Verdict κ)}

theorem verdict_eq_passes : verdict report x = .passes ↔ ∃ a, x = .ok a := by
  cases x with
  | ok a => simp [verdict]
  | error e =>
    simp only [verdict, reduceCtorEq, exists_false, iff_false]
    cases report e <;> simp

theorem verdict_bind (hx : verdict report x = firstFailure vs)
    (hf : ∀ a, x = .ok a → verdict report (f a) = firstFailure ws) :
    verdict report (x >>= f) = firstFailure (vs ++ ws) := by
  cases x with
  | ok a => exact (hf a rfl).trans (firstFailure_append hx.symm).symm
  | error e =>
    have hne : firstFailure vs ≠ .passes := by
      rw [← hx, Ne, verdict_eq_passes]
      rintro ⟨a, ⟨⟩⟩
    exact hx.trans (firstFailure_append_of_ne hne).symm

/-- What follows the last check cannot fail. -/
theorem verdict_bind_passes (hx : verdict report x = firstFailure vs)
    (hf : ∀ a, verdict report (f a) = .passes) :
    verdict report (x >>= f) = firstFailure vs := by
  rw [← List.append_nil vs]
  exact verdict_bind hx fun a _ => hf a

theorem verdict_bind_cons (hx : verdict report x = v)
    (hf : ∀ a, x = .ok a → verdict report (f a) = firstFailure ws) :
    verdict report (x >>= f) = firstFailure (v :: ws) := by
  have hv : verdict report x = firstFailure [v] := by rw [hx, firstFailure_singleton]
  exact verdict_bind hv hf

/-- A loop makes the checks of its elements, where they do not depend on the state. -/
theorem verdict_foldlM {f : σ → α → Except ε σ} {g : α → List (Verdict κ)} {as : List α}
    (h : ∀ s, ∀ a ∈ as, verdict report (f s a) = firstFailure (g a)) (s : σ) :
    verdict report (as.foldlM f s) = firstFailure (as.flatMap g) := by
  induction as generalizing s with
  | nil => rfl
  | cons a as ih =>
    rw [List.foldlM_cons, List.flatMap_cons]
    exact verdict_bind (h s a List.mem_cons_self) fun t _ =>
      ih (fun s b hb => h s b (List.mem_cons_of_mem a hb)) t

theorem verdict_mapM {g : α → Verdict κ} {as : List α}
    (h : ∀ a ∈ as, verdict report (f a) = g a) :
    verdict report (as.mapM f) = firstFailure (as.map g) := by
  induction as with
  | nil => rfl
  | cons a as ih =>
    rw [List.mapM_cons, List.map_cons]
    refine verdict_bind_cons (h a List.mem_cons_self) fun b _ => ?_
    exact verdict_bind_passes (ih fun c hc => h c (List.mem_cons_of_mem a hc)) fun bs => rfl

end Programs
end RiscForge.Lib
