import Mathlib.Order.Basic
import Mathlib.Tactic.Ring

/-! Counted runs of a step relation: invariants, total-correctness triples and simulations. -/
namespace RiscForge.Lib

variable {σ τ : Type}

/-- `n` steps lead from the one state to the other. -/
inductive Steps (R : σ → σ → Prop) : ℕ → σ → σ → Prop
  | refl (s : σ) : Steps R 0 s s
  | head {n : ℕ} {s t u : σ} (h : R s t) (ht : Steps R n t u) : Steps R (n + 1) s u

section Steps
variable {R : σ → σ → Prop} {P : σ → Prop} {m n : ℕ} {s t u : σ}

theorem Steps.one (h : R s t) : Steps R 1 s t := .head h (.refl t)

theorem Steps.count (h : Steps R m s t) (hn : m = n) : Steps R n s t := hn ▸ h

theorem Steps.cast (h : Steps R n s t) (ht : t = u) : Steps R n s u := ht ▸ h

theorem Steps.trans (h : Steps R m s t) (h' : Steps R n t u) : Steps R (m + n) s u := by
  induction h with
  | refl => rwa [Nat.zero_add]
  | head hd _ ih =>
    rw [Nat.succ_add_eq_add_succ]
    exact .head hd (ih h')

theorem Steps.split (h : Steps R (m + n) s u) : ∃ t, Steps R m s t ∧ Steps R n t u := by
  induction m generalizing s with
  | zero => exact ⟨s, .refl s, by rwa [Nat.zero_add] at h⟩
  | succ m ih =>
    rw [Nat.succ_add] at h
    cases h with
    | head hd ht =>
      obtain ⟨t, h₁, h₂⟩ := ih ht
      exact ⟨t, .head hd h₁, h₂⟩

theorem Steps.mono {S : σ → σ → Prop} (hS : ∀ s t, R s t → S s t) (h : Steps R n s t) :
    Steps S n s t := by
  induction h with
  | refl => exact .refl _
  | head hd _ ih => exact .head (hS _ _ hd) ih

/-- A deterministic run that gets stuck gets stuck in one state only. -/
theorem Steps.stuck_unique (hR : ∀ s t u, R s t → R s u → t = u) (h : Steps R m s t)
    (ht : ∀ v, ¬ R t v) (h' : Steps R n s u) (hu : ∀ v, ¬ R u v) : m = n ∧ t = u := by
  induction h generalizing n with
  | refl s =>
    cases h' with
    | refl => exact ⟨rfl, rfl⟩
    | head hd' => exact (ht _ hd').elim
  | head hd _ ih =>
    cases h' with
    | refl => exact (hu _ hd).elim
    | head hd' ht' =>
      obtain rfl := hR _ _ _ hd hd'
      obtain ⟨rfl, rfl⟩ := ih ht ht'
      exact ⟨rfl, rfl⟩

end Steps

section Triples
variable {R : σ → σ → Prop} {P P' Q Q' : σ → Prop} {m n c : ℕ}

/-- From every state with `P`, at most `n` steps lead to a state with `Q`. -/
def Leads (R : σ → σ → Prop) (n : ℕ) (P Q : σ → Prop) : Prop :=
  ∀ s, P s → ∃ k ≤ n, ∃ t, Steps R k s t ∧ Q t

theorem Leads.of_steps (h : ∀ s, P s → ∃ t, Steps R n s t ∧ Q t) : Leads R n P Q := by
  intro s hs
  obtain ⟨t, ht, hq⟩ := h s hs
  exact ⟨n, le_rfl, t, ht, hq⟩

/-- The rule of a loop: each round takes at most `c` steps, and either ends the loop or goes on
with a smaller variant. -/
theorem Leads.loop {I : ℕ → σ → Prop}
    (h : ∀ k, Leads R c (I k) fun t => Q t ∨ ∃ j < k, I j t) (k : ℕ) :
    Leads R ((k + 1) * c) (I k) Q := by
  induction k using Nat.strong_induction_on with
  | _ k ih =>
    intro s hs
    obtain ⟨m, hm, t, ht, hq | ⟨j, hj, hi⟩⟩ := h k s hs
    · refine ⟨m, hm.trans ?_, t, ht, hq⟩
      exact Nat.le_mul_of_pos_left c (Nat.succ_pos k)
    · obtain ⟨l, hl, u, hu, hq⟩ := ih j hj t hi
      refine ⟨m + l, ?_, u, ht.trans hu, hq⟩
      calc m + l ≤ c + (j + 1) * c := Nat.add_le_add hm hl
        _ = (j + 2) * c := by ring
        _ ≤ (k + 1) * c := Nat.mul_le_mul_right c (by omega)

end Triples

section Simulation
variable {R : σ → σ → Prop} {S : τ → τ → Prop} {rel : σ → τ → Prop} {P Q : σ → Prop} {c n : ℕ}
  {s t : σ} {a : τ}

/-- Each step of `R` is one to `c` steps of `S` between related states. -/
def Simulates (R : σ → σ → Prop) (S : τ → τ → Prop) (rel : σ → τ → Prop) (c : ℕ) : Prop :=
  ∀ s t a, R s t → rel s a → ∃ n b, 0 < n ∧ n ≤ c ∧ Steps S n a b ∧ rel t b

theorem Simulates.steps (h : Simulates R S rel c) (hs : Steps R n s t) (hr : rel s a) :
    ∃ m b, n ≤ m ∧ m ≤ c * n ∧ Steps S m a b ∧ rel t b := by
  induction hs generalizing a with
  | refl => exact ⟨0, a, le_rfl, Nat.zero_le _, .refl a, hr⟩
  | @head n s t u hd _ ih =>
    obtain ⟨k, b, h0, hk, hb, hrb⟩ := h _ _ _ hd hr
    obtain ⟨m, d, hm, hm', hd, hrd⟩ := ih hrb
    refine ⟨k + m, d, by omega, ?_, hb.trans hd, hrd⟩
    calc k + m ≤ c + c * n := Nat.add_le_add hk hm'
      _ = c * (n + 1) := by ring

/-- Step for step. -/
theorem Simulates.exact (h : Simulates R S rel 1) (hs : Steps R n s t) (hr : rel s a) :
    ∃ b, Steps S n a b ∧ rel t b := by
  obtain ⟨m, b, hm, hm', hb, hrb⟩ := h.steps hs hr
  obtain rfl : m = n := by omega
  exact ⟨b, hb, hrb⟩

end Simulation
end RiscForge.Lib
