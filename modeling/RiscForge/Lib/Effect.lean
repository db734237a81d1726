import Mathlib.Logic.Basic

/-! Programs with a state and exceptions: which of them read, write and raise. -/
namespace RiscForge.Lib

variable {ε σ α β : Type} {x : EStateM ε σ α} {f : α → EStateM ε σ β} {s s' : σ} {a : α} {b : β}

/-- The program does not change the state. -/
def ReadOnly (x : EStateM ε σ α) : Prop := ∀ s a s', x s = .ok a s' → s' = s

/-- The program raises only before it has changed the state. -/
def Atomic (x : EStateM ε σ α) : Prop := ∀ s e s', x s = .error e s' → s' = s

/-- The program raises nothing. -/
def Total (x : EStateM ε σ α) : Prop := ∀ s e s', x s ≠ .error e s'

/-- The state after the program, whether it returned or raised. -/
def stateAfter (x : EStateM ε σ α) (s : σ) : σ :=
  match x s with
  | .ok _ s' => s'
  | .error _ s' => s'

theorem stateAfter_ok (h : x s = .ok a s') : stateAfter x s = s' := by
  simp only [stateAfter, h]

theorem stateAfter_error {e : ε} (h : x s = .error e s') : stateAfter x s = s' := by
  simp only [stateAfter, h]

/-- What the program returns, if it does. -/
def resultOf (x : EStateM ε σ α) (s : σ) : Option α :=
  match x s with
  | .ok a _ => some a
  | .error _ _ => none

theorem resultOf_eq_some : resultOf x s = some a ↔ ∃ s', x s = .ok a s' := by
  unfold resultOf
  cases x s with
  | ok b t => simp
  | error e t => simp

theorem run_bind_ok : (x >>= f) s = .ok b s' ↔ ∃ a t, x s = .ok a t ∧ f a t = .ok b s' := by
  change EStateM.bind x f s = _ ↔ _
  unfold EStateM.bind
  cases x s with
  | ok a t =>
    constructor
    · intro h
      exact ⟨a, t, rfl, h⟩
    · rintro ⟨_, _, ⟨⟩, h⟩
      exact h
  | error e t => simp

theorem run_bind_error {e : ε} : (x >>= f) s = .error e s' ↔
    x s = .error e s' ∨ ∃ a t, x s = .ok a t ∧ f a t = .error e s' := by
  change EStateM.bind x f s = _ ↔ _
  unfold EStateM.bind
  cases x s with
  | ok a t =>
    constructor
    · intro h
      exact .inr ⟨a, t, rfl, h⟩
    · rintro (⟨⟨⟩⟩ | ⟨_, _, ⟨⟩, h⟩)
      exact h
  | error e t => simp

section Rules

theorem Total.atomic (h : Total x) : Atomic x := fun s e s' he => (h s e s' he).elim

theorem ReadOnly.bind (hx : ReadOnly x) (hf : ∀ a, ReadOnly (f a)) : ReadOnly (x >>= f) := by
  intro s b s' h
  obtain ⟨a, t, ha, hb⟩ := run_bind_ok.mp h
  rw [hf a t b s' hb, hx s a t ha]

theorem Atomic.bind (hx : Atomic x) (hr : ReadOnly x) (hf : ∀ a, Atomic (f a)) :
    Atomic (x >>= f) := by
  intro s e s' h
  rcases run_bind_error.mp h with he | ⟨a, t, ha, he⟩
  · exact hx s e s' he
  · rw [hf a t e s' he, hr s a t ha]

/-- After the last point where something is raised, anything may be written. -/
theorem Atomic.bind_total (hx : Atomic x) (hf : ∀ a, Total (f a)) : Atomic (x >>= f) := by
  intro s e s' h
  rcases run_bind_error.mp h with he | ⟨a, t, -, he⟩
  · exact hx s e s' he
  · exact (hf a t e s' he).elim

theorem Total.bind (hx : Total x) (hf : ∀ a, Total (f a)) : Total (x >>= f) := by
  intro s e s' h
  rcases run_bind_error.mp h with he | ⟨a, t, -, he⟩
  · exact hx s e s' he
  · exact hf a t e s' he

theorem readOnly_pure : ReadOnly (pure a : EStateM ε σ α) := by
  rintro s _ s' ⟨⟩
  rfl

theorem readOnly_get : ReadOnly (get : EStateM ε σ σ) := by
  rintro s _ s' ⟨⟩
  rfl

theorem readOnly_throw {e : ε} : ReadOnly (throw e : EStateM ε σ α) := by
  intro s a s' h
  cases h

theorem atomic_throw {e : ε} : Atomic (throw e : EStateM ε σ α) := by
  rintro s _ s' ⟨⟩
  rfl

theorem total_pure : Total (pure a : EStateM ε σ α) := by
  intro s e s' h
  cases h

theorem total_get : Total (get : EStateM ε σ σ) := by
  intro s e s' h
  cases h

theorem total_set : Total (set s : EStateM ε σ PUnit) := by
  intro t e s' h
  cases h

theorem total_modify {g : σ → σ} : Total (modify g : EStateM ε σ PUnit) := by
  intro s e s' h
  cases h

end Rules
section Raises
variable {P : ε → Prop}

/-- Whatever the program raises has the property. -/
def Raises (P : ε → Prop) (x : EStateM ε σ α) : Prop := ∀ s e s', x s = .error e s' → P e

theorem Raises.bind (hx : Raises P x) (hf : ∀ a, Raises P (f a)) : Raises P (x >>= f) := by
  intro s e s' h
  rcases run_bind_error.mp h with he | ⟨a, t, -, he⟩
  · exact hx s e s' he
  · exact hf a t e s' he

theorem Total.raises (h : Total x) : Raises P x := fun s e s' he => (h s e s' he).elim

theorem raises_throw {e : ε} (h : P e) : Raises P (throw e : EStateM ε σ α) := by
  rintro s _ s' ⟨⟩
  exact h

end Raises
end RiscForge.Lib
