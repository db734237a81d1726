import Mathlib.Data.List.Infix
import Mathlib.Data.Nat.Find

/-! Runs of a deterministic machine, the events they report, and in-order lagging machines. -/
namespace RiscForge.Lib

variable {σ τ ε : Type}

/-- The state after `n` steps. -/
def run (step : σ → σ) (s : σ) : ℕ → σ
  | 0 => s
  | n + 1 => step (run step s n)

/-- The events reported by the first `n` steps, oldest first. -/
def trace (step : σ → σ) (out : σ → List ε) (s : σ) : ℕ → List ε
  | 0 => []
  | n + 1 => trace step out s n ++ out (run step s n)

/-- `P` holds at step `n` for the first time. -/
def FirstAt (step : σ → σ) (P : σ → Prop) (s : σ) (n : ℕ) : Prop :=
  P (run step s n) ∧ ∀ m < n, ¬ P (run step s m)

section Run
variable {step : σ → σ} {out : σ → List ε} {s : σ} {P : σ → Prop} {m n : ℕ}

@[simp] theorem run_zero : run step s 0 = s := rfl

@[simp] theorem run_succ (n : ℕ) : run step s (n + 1) = step (run step s n) := rfl

theorem run_add (m n : ℕ) : run step s (m + n) = run step (run step s m) n := by
  induction n with
  | zero => rfl
  | succ n ih => exact congrArg step ih

/-- Induction over a run: a property kept by every step is kept by the run. -/
theorem run_invariant (h : ∀ s, P s → P (step s)) (hs : P s) : ∀ n, P (run step s n) := by
  intro n
  induction n with
  | zero => exact hs
  | succ n ih => exact h _ ih

theorem run_fixed (h : step s = s) : ∀ n, run step s n = s := by
  intro n
  induction n with
  | zero => rfl
  | succ n ih => rw [run_succ, ih, h]

theorem trace_mono (hmn : m ≤ n) : trace step out s m <+: trace step out s n := by
  induction n, hmn using Nat.le_induction with
  | base => exact List.prefix_refl _
  | succ n _ ih => exact ih.trans (List.prefix_append _ _)

theorem trace_add (m n : ℕ) :
    trace step out s (m + n) = trace step out s m ++ trace step out (run step s m) n := by
  induction n with
  | zero => simp [trace]
  | succ n ih =>
    rw [← Nat.add_assoc]
    simp only [trace, ih, run_add, List.append_assoc]

theorem trace_silent (h : ∀ k, m ≤ k → k < n → out (run step s k) = []) (hmn : m ≤ n) :
    trace step out s n = trace step out s m := by
  induction n, hmn using Nat.le_induction with
  | base => rfl
  | succ n hmn ih =>
    have ihn := ih (fun k hk hkn => h k hk (Nat.lt_succ_of_lt hkn))
    simp [trace, ihn, h n hmn (Nat.lt_succ_self n)]

theorem FirstAt.unique (hm : FirstAt step P s m) (hn : FirstAt step P s n) : m = n := by
  rcases lt_trichotomy m n with h | h | h
  · exact (hn.2 m h hm.1).elim
  · exact h
  · exact (hm.2 n h hn.1).elim

theorem exists_firstAt (h : P (run step s n)) : ∃ k, k ≤ n ∧ FirstAt step P s k := by
  classical
  have hex : ∃ k, P (run step s k) := ⟨n, h⟩
  exact ⟨Nat.find hex, Nat.find_min' hex h, Nat.find_spec hex, fun m hm => Nat.find_min hex hm⟩

end Run

section Lag
variable {cstep : σ → σ} {astep : τ → τ} {cout : σ → List ε} {aout : τ → List ε} {c : σ} {a : τ}

/-- A machine that at step `n` reports the abstract events of steps `f n` to `f (n + 1)` has,
after `n` steps, reported the abstract events of the first `f n`: nothing is lost, repeated or
out of order. -/
theorem trace_eq_of_lag {f : ℕ → ℕ} {n : ℕ} (h0 : f 0 = 0)
    (h : ∀ k < n, ∃ d, f (k + 1) = f k + d ∧
      cout (run cstep c k) = trace astep aout (run astep a (f k)) d) :
    trace cstep cout c n = trace astep aout a (f n) := by
  induction n with
  | zero => rw [h0]; rfl
  | succ n ih =>
    obtain ⟨d, hd, ho⟩ := h n (Nat.lt_succ_self n)
    rw [trace, ih (fun k hk => h k (Nat.lt_succ_of_lt hk)), ho, hd, trace_add]

end Lag
end RiscForge.Lib
