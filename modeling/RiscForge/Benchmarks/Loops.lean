import RiscForge.Benchmarks.Mul
import Mathlib.Data.Nat.Factorial.Basic
import Mathlib.Data.Nat.Fib.Basic

/-! The loops of the benchmarks `gcd`, `fib` and `factorial`, from any state they are entered in. -/
namespace RiscForge.Benchmarks

open Lib Rtl Isa Assembler

/-- The lines of `gcd` from `gloop` on, at `a`. -/
structure HasGcd (P : Program) (a : Word) : Prop where
  beq : Has P a (.one (.branch .beq 10#5 11#5 (a + 24#32).toNat))
  blt : Has P (a + 4#32) (.one (.branch .blt 10#5 11#5 (a + 16#32).toNat))
  subL : Has P (a + 8#32) (.one (.op .sub 10#5 10#5 11#5))
  jL : Has P (a + 12#32) (.one (.j a.toNat))
  subR : Has P (a + 16#32) (.one (.op .sub 11#5 11#5 10#5))
  jR : Has P (a + 20#32) (.one (.j a.toNat))
  done : (a + 24#32).toNat % 4 = 0

section Gcd
variable {P : Program} {a : Word} {c : Cpu}

/-- In round `k`: `a0` and `a1` are positive, add up to `k`, and have the divisor `g`. -/
structure GcdAt (a : Word) (c₀ : Cpu) (g k : ℕ) (c : Cpu) : Prop where
  pc : c.pc = a
  left : 0 < (c.x 10#5).toNat ∧ (c.x 10#5).toNat < 2 ^ 31
  right : 0 < (c.x 11#5).toNat ∧ (c.x 11#5).toNat < 2 ^ 31
  gcd : Nat.gcd (c.x 10#5).toNat (c.x 11#5).toNat = g
  sum : (c.x 10#5).toNat + (c.x 11#5).toNat = k
  keeps : Keeps [10#5, 11#5] c₀ c

/-- The divisor is in both registers. -/
structure GcdDone (a : Word) (c₀ : Cpu) (g : ℕ) (c : Cpu) : Prop where
  pc : c.pc = a + 24#32
  left : (c.x 10#5).toNat = g
  right : (c.x 11#5).toNat = g
  keeps : Keeps [10#5, 11#5] c₀ c

theorem toInt_of_small {v : Word} (h : v.toNat < 2 ^ 31) : v.toInt = v.toNat :=
  BitVec.toInt_eq_toNat_of_lt (by omega)

theorem toNat_sub_of_le {u v : Word} (h : u.toNat ≤ v.toNat) :
    (v - u).toNat = v.toNat - u.toNat := BitVec.toNat_sub_of_le (by rwa [BitVec.le_def])

/-- The larger one is replaced by the difference. -/
theorem gcd_round (h : HasGcd P a) (c₀ : Cpu) (g k : ℕ) :
    Leads P.Step 4 (GcdAt a c₀ g k) fun d => GcdDone a c₀ g d ∨ ∃ j < k, GcdAt a c₀ g j d := by
  rintro c ⟨hpc, ⟨hl, hl'⟩, ⟨hr, hr'⟩, hg, hk, hm, hx⟩
  have s₁ := step_branch h.beq hpc h.done
  by_cases he : c.x 10#5 = c.x 11#5
  · have hb : branchCond (c.x 10#5) (c.x 11#5) .beq = true := by simp [branchCond, he]
    rw [hb, if_pos rfl] at s₁
    rw [he, Nat.gcd_self] at hg
    exact ⟨1, by omega, _, .one s₁, .inl ⟨rfl, by rw [goto_x, he, hg], hg, hm, hx⟩⟩
  · have hb : branchCond (c.x 10#5) (c.x 11#5) .beq = false := by simp [branchCond, he]
    rw [hb, if_neg Bool.false_ne_true] at s₁
    have hne : (c.x 10#5).toNat ≠ (c.x 11#5).toNat := fun hn => he (BitVec.eq_of_toNat_eq hn)
    have s₂ := step_branch h.blt (c := goto c (a + 4#32)) rfl (has_aligned h.subR)
    have hc : branchCond (c.x 10#5) (c.x 11#5) .blt =
        decide ((c.x 10#5).toNat < (c.x 11#5).toNat) := by
      simp [branchCond, toInt_of_small hl', toInt_of_small hr']
    rw [goto_x, hc] at s₂
    by_cases hlt : (c.x 10#5).toNat < (c.x 11#5).toNat
    · rw [if_pos (by simpa using hlt)] at s₂
      have hv := toNat_sub_of_le hlt.le
      refine ⟨4, le_rfl, _, .head s₁ (.head s₂ (.head (step_op h.subR rfl)
        (.one (step_j h.jR (BitVec.add_assoc ..) (has_aligned h.beq))))), .inr ?_⟩
      refine ⟨k - (c.x 10#5).toNat, by omega, rfl, ?_, ?_, ?_, ?_, hm, ?_⟩
      · simpa using And.intro hl hl'
      · simp [Op.eval, hv]
        omega
      · simp [Op.eval, hv, hlt.le, hg]
      · simp [Op.eval, hv]
        omega
      · intro r hr
        rw [← hx r hr]
        simp only [List.mem_cons, not_or] at hr
        simp [hr.2.1]
    · rw [if_neg (by simpa using hlt)] at s₂
      have hle : (c.x 11#5).toNat ≤ (c.x 10#5).toNat := by omega
      have hv := toNat_sub_of_le hle
      refine ⟨4, le_rfl, _, .head s₁ (.head s₂ (.head (step_op h.subL (BitVec.add_assoc ..))
        (.one (step_j h.jL ?_ (has_aligned h.beq))))), .inr ?_⟩
      · rw [put_pc, goto_pc, BitVec.add_assoc, BitVec.add_assoc]
        rfl
      refine ⟨k - (c.x 11#5).toNat, by omega, rfl, ?_, ?_, ?_, ?_, hm, ?_⟩
      · simp [Op.eval, hv]
        omega
      · simpa using And.intro hr hr'
      · simp [Op.eval, hv, hle, hg]
      · simp [Op.eval, hv]
        omega
      · intro r hr
        rw [← hx r hr]
        simp only [List.mem_cons, not_or] at hr
        simp [hr.1]

/-- From `gloop`, with positive numbers in `a0` and `a1`, both get to hold the greatest common
divisor. -/
theorem gcd_loop (h : HasGcd P a) (hc : c.pc = a) (h0 : 0 < (c.x 10#5).toInt)
    (h1 : 0 < (c.x 11#5).toInt) :
    ∃ n ≤ ((c.x 10#5).toNat + (c.x 11#5).toNat + 1) * 4, ∃ d, Steps P.Step n c d ∧
      GcdDone a c (Nat.gcd (c.x 10#5).toNat (c.x 11#5).toNat) d := by
  have hs : ∀ v : Word, 0 < v.toInt → 0 < v.toNat ∧ v.toNat < 2 ^ 31 := by
    intro v hv
    rw [BitVec.toInt_eq_toNat_cond] at hv
    have := v.isLt
    split at hv <;> omega
  exact Leads.loop (gcd_round h c _) _ c ⟨hc, hs _ h0, hs _ h1, rfl, rfl, rfl, fun _ _ => rfl⟩

end Gcd
/-- The lines of `fib` from `loop` on, at `a`. -/
structure HasFib (P : Program) (a : Word) : Prop where
  beq : Has P a (.one (.branch .beq 13#5 12#5 (a + 24#32).toNat))
  add : Has P (a + 4#32) (.one (.op .add 14#5 10#5 11#5))
  mvL : Has P (a + 8#32) (.one (.mv 10#5 11#5))
  mvR : Has P (a + 12#32) (.one (.mv 11#5 14#5))
  addi : Has P (a + 16#32) (.one (.opImm .add 13#5 13#5 1))
  j : Has P (a + 20#32) (.one (.j a.toNat))
  done : (a + 24#32).toNat % 4 = 0

section Fib
variable {P : Program} {a : Word} {c : Cpu} {k i : ℕ}

/-- `a0` and `a1` hold the Fibonacci numbers `i` and `i + 1`, up to the word size. -/
structure FibAt (c : Cpu) (i : ℕ) : Prop where
  left : c.x 10#5 = .ofNat 32 (Nat.fib i)
  right : c.x 11#5 = .ofNat 32 (Nat.fib (i + 1))

theorem fib_round (h : HasFib P a) (hc : c.pc = a) (hne : c.x 13#5 ≠ c.x 12#5) (hi : FibAt c i) :
    ∃ d, Steps P.Step 6 c d ∧ d.pc = a ∧ FibAt d (i + 1) ∧ d.x 13#5 = c.x 13#5 + 1#32 ∧
      Keeps [10#5, 11#5, 13#5, 14#5] c d := by
  have hb : branchCond (c.x 13#5) (c.x 12#5) .beq = false := by simp [branchCond, hne]
  have s₁ := step_branch h.beq hc h.done
  rw [hb, if_neg Bool.false_ne_true] at s₁
  refine ⟨_, .head s₁ (.head (step_op h.add rfl) (.head (step_mv h.mvL ?_) (.head (step_mv h.mvR ?_)
    (.head (step_opImm h.addi ?_) (.one (step_j h.j ?_ (has_aligned h.beq))))))), rfl, ⟨?_, ?_⟩, ?_,
    rfl, ?_⟩
  · simp [BitVec.add_assoc]
  · simp [BitVec.add_assoc]
  · simp [BitVec.add_assoc]
  · simp [BitVec.add_assoc]
  · simp [hi.right]
  · simp [Op.eval, hi.left, hi.right, Nat.fib_add_two, BitVec.ofNat_add]
  · simp [Op.eval]
  · intro r hr
    simp only [List.mem_cons, List.not_mem_nil, or_false, not_or] at hr
    simp [hr]

/-- From `loop`, `a3` counts up to `a2`, and the Fibonacci numbers go on as far. -/
theorem fib_loop (h : HasFib P a) (hc : c.pc = a) (hk : (c.x 12#5 - c.x 13#5).toNat = k)
    (hi : FibAt c i) : ∃ d, Steps P.Step (6 * k + 1) c d ∧ d.pc = a + 24#32 ∧ FibAt d (i + k) ∧
      d.x 13#5 = c.x 12#5 ∧ Keeps [10#5, 11#5, 13#5, 14#5] c d := by
  induction k generalizing c i with
  | zero =>
    have he : c.x 13#5 = c.x 12#5 := by
      have h0 : c.x 12#5 - c.x 13#5 = 0#32 := BitVec.eq_of_toNat_eq hk
      exact (sub_eq_zero.mp h0).symm
    have hb : branchCond (c.x 13#5) (c.x 12#5) .beq = true := by simp [branchCond, he]
    have s := step_branch h.beq hc h.done
    rw [hb, if_pos rfl] at s
    exact ⟨_, .one s, rfl, ⟨hi.left, hi.right⟩, he, rfl, fun _ _ => rfl⟩
  | succ k ih =>
    have hne : c.x 13#5 ≠ c.x 12#5 := by
      intro he
      rw [he, BitVec.sub_self] at hk
      cases hk
    obtain ⟨d, hs, hd, hfib, h13, hkeep⟩ := fib_round h hc hne hi
    have h12 : d.x 12#5 = c.x 12#5 := hkeep.regs _ (by decide)
    have hk' : (d.x 12#5 - d.x 13#5).toNat = k := by
      have hd : c.x 12#5 - (c.x 13#5 + 1#32) = c.x 12#5 - c.x 13#5 - 1#32 := sub_add_eq_sub_sub ..
      rw [h12, h13, hd, toNat_sub_of_le (by rw [hk]; exact Nat.succ_pos k), hk]
      rfl
    obtain ⟨e, hs', he, hfib', h13', hkeep'⟩ := ih hd hk' hfib
    refine ⟨e, ?_, he, ?_, h13'.trans h12, hkeep.trans hkeep'⟩
    · rw [show 6 * (k + 1) + 1 = 6 + (6 * k + 1) by ring]
      exact hs.trans hs'
    · rwa [show i + (k + 1) = i + 1 + k by ring]

end Fib
/-- The lines of `factorial` from `floop` on at `a`, and `mul` at `b`. -/
structure HasFactorial (P : Program) (a b : Word) : Prop where
  beq : Has P a (.one (.branch .beq 8#5 0#5 (a + 32#32).toNat))
  mvL : Has P (a + 4#32) (.one (.mv 10#5 9#5))
  mvR : Has P (a + 8#32) (.one (.mv 11#5 8#5))
  call : Has P (a + 12#32) (.call b.toNat)
  result : Has P (a + 20#32) (.one (.mv 9#5 12#5))
  addi : Has P (a + 24#32) (.one (.opImm .add 8#5 8#5 (-1)))
  j : Has P (a + 28#32) (.one (.j a.toNat))
  done : (a + 32#32).toNat % 4 = 0
  mul : HasMul P b

section Factorial
variable {P : Program} {a b : Word} {c : Cpu} {k : ℕ}

theorem factorial_round (h : HasFactorial P a b) (hc : c.pc = a) (hne : c.x 8#5 ≠ 0#32) :
    ∃ d, Steps P.Step (4 * (c.x 8#5).toNat + 10) c d ∧ d.pc = a ∧ d.x 8#5 = c.x 8#5 - 1#32 ∧
      d.x 9#5 = c.x 9#5 * c.x 8#5 ∧ Keeps [1#5, 8#5, 9#5, 10#5, 11#5, 12#5] c d := by
  have hb : branchCond (c.x 8#5) (c.x 0#5) .beq = false := by simp [branchCond, c.zero, hne]
  have s₁ := step_branch h.beq hc h.done
  rw [hb, if_neg Bool.false_ne_true] at s₁
  have s₂ := step_mv h.mvL (c := goto c (a + 4#32)) rfl
  have s₃ := step_mv h.mvR (c := put (goto c (a + 4#32)) 10#5 (c.x 9#5) 4#32)
    (by simp [BitVec.add_assoc])
  obtain ⟨d, hs, hd, h12, hk⟩ := call_mul h.mul h.call
    (c := put (put (goto c (a + 4#32)) 10#5 (c.x 9#5) 4#32) 11#5 (c.x 8#5) 4#32)
    (by simp [BitVec.add_assoc])
    (by rw [BitVec.add_assoc]; exact has_aligned h.result)
  have h8 : d.x 8#5 = c.x 8#5 := by
    rw [hk.regs _ (by decide)]
    simp
  have h11 : (put (put (goto c (a + 4#32)) 10#5 (c.x 9#5) 4#32) 11#5 (c.x 8#5) 4#32).x 11#5 =
      c.x 8#5 := by simp
  rw [h11] at hs
  refine ⟨_, (((Steps.head s₁ (.head s₂ (.one s₃))).trans hs).trans (.head (step_mv h.result ?_)
    (.head (step_opImm h.addi ?_) (.one (step_j h.j ?_ (has_aligned h.beq)))))).count (by ring),
    rfl, ?_, ?_, ?_, ?_⟩
  · simp [hd, BitVec.add_assoc]
  · simp [hd, BitVec.add_assoc]
  · simp [hd, BitVec.add_assoc]
  · simp [Op.eval, h8, add_neg_one]
  · simp [h12]
  · exact hk.mem
  · intro r hr
    have hk' := hk.regs r
    simp only [List.mem_cons, List.not_mem_nil, or_false, not_or] at hr hk'
    simp [hr, hk' ⟨hr.1, hr.2.2.2.2.1, hr.2.2.2.2.2⟩]

/-- From `floop`, `s1` is multiplied by the factorial of `s0`. -/
theorem factorial_loop (h : HasFactorial P a b) (hc : c.pc = a) (hk : (c.x 8#5).toNat = k) :
    ∃ d, Steps P.Step (2 * k ^ 2 + 12 * k + 1) c d ∧ d.pc = a + 32#32 ∧
      d.x 9#5 = c.x 9#5 * .ofNat 32 k.factorial ∧
      Keeps [1#5, 8#5, 9#5, 10#5, 11#5, 12#5] c d := by
  induction k generalizing c with
  | zero =>
    have h0 : c.x 8#5 = 0#32 := BitVec.eq_of_toNat_eq hk
    have hb : branchCond (c.x 8#5) (c.x 0#5) .beq = true := by simp [branchCond, c.zero, h0]
    have s := step_branch h.beq hc h.done
    rw [hb, if_pos rfl] at s
    exact ⟨_, .one s, rfl, by simp, rfl, fun _ _ => rfl⟩
  | succ k ih =>
    have hne : c.x 8#5 ≠ 0#32 := by
      intro h0
      rw [h0] at hk
      cases hk
    obtain ⟨d, hs, hd, h8, h9, hkeep⟩ := factorial_round h hc hne
    have hk' : (d.x 8#5).toNat = k := by
      rw [h8, toNat_sub_of_le (by rw [hk]; exact Nat.succ_pos k), hk]
      rfl
    obtain ⟨e, hs', he, h9', hkeep'⟩ := ih hd hk'
    rw [hk] at hs
    refine ⟨e, (hs.trans hs').count (by ring), he, ?_, hkeep.trans hkeep'⟩
    have hv : c.x 8#5 = .ofNat 32 (k + 1) := by rw [← hk, BitVec.ofNat_toNat, BitVec.setWidth_eq]
    rw [h9', h9, hv, Nat.factorial_succ, BitVec.ofNat_mul, mul_assoc]

end Factorial
end RiscForge.Benchmarks
