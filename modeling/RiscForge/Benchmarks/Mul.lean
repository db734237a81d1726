import RiscForge.Benchmarks.Rules
import Mathlib.Data.BitVec
import Mathlib.Tactic.Ring

/-! The multiplication by repeated addition that the benchmarks share. -/
namespace RiscForge.Benchmarks

open Lib Rtl Isa Assembler

/-- The lines of `mul` are in the program, from `a` on. -/
structure HasMul (P : Program) (a : Word) : Prop where
  li : Has P a (.li 12#5 0)
  beq : Has P (a + 8#32) (.one (.branch .beq 11#5 0#5 (a + 24#32).toNat))
  add : Has P (a + 12#32) (.one (.op .add 12#5 12#5 10#5))
  addi : Has P (a + 16#32) (.one (.opImm .add 11#5 11#5 (-1)))
  j : Has P (a + 20#32) (.one (.j (a + 8#32).toNat))
  ret : Has P (a + 24#32) (.one .ret)

section Mul
variable {P : Program} {a : Word} {c : Cpu} {k : ℕ}

/-- One round: `a0` is added to `a2`, and `a1` counted down. -/
def round (a : Word) (c : Cpu) : Cpu :=
  goto (put (put c 12#5 (c.x 12#5 + c.x 10#5) 0#32) 11#5 (c.x 11#5 - 1#32) 0#32) (a + 8#32)

theorem mul_round (h : HasMul P a) (hc : c.pc = a + 8#32) (h1 : c.x 11#5 ≠ 0#32) :
    Steps P.Step 4 c (round a c) := by
  have hb : branchCond (c.x 11#5) (c.x 0#5) .beq = false := by simp [branchCond, c.zero, h1]
  have s₁ := step_branch h.beq hc (has_aligned h.ret)
  rw [hb, if_neg Bool.false_ne_true, BitVec.add_assoc] at s₁
  have hpc : a + (8#32 + 4#32) + 4#32 + 4#32 = a + 20#32 := by
    rw [BitVec.add_assoc, BitVec.add_assoc]
    rfl
  refine (Steps.head s₁ (.head (step_op h.add rfl) (.head (step_opImm h.addi ?_)
    (.one (step_j h.j hpc (has_aligned h.beq)))))).cast (Cpu.ext' rfl ?_ rfl)
  · exact BitVec.add_assoc ..
  simp [round, Op.eval, add_neg_one]

/-- The loop adds `a0` as often as `a1` says. -/
theorem mul_loop (h : HasMul P a) (hc : c.pc = a + 8#32) (hk : (c.x 11#5).toNat = k) :
    Steps P.Step (4 * k + 1) c
      (goto (put (put c 12#5 (c.x 12#5 + c.x 10#5 * c.x 11#5) 0#32) 11#5 0#32 0#32)
        (a + 24#32)) := by
  induction k generalizing c with
  | zero =>
    have h0 : c.x 11#5 = 0#32 := BitVec.eq_of_toNat_eq hk
    have hb : branchCond (c.x 11#5) (c.x 0#5) .beq = true := by simp [branchCond, c.zero, h0]
    have s := step_branch h.beq hc (has_aligned h.ret)
    rw [hb, if_pos rfl] at s
    refine (Steps.one s).cast (Cpu.ext' rfl ?_ rfl)
    calc c.x = setReg (setReg c.x 12#5 (c.x 12#5)) 11#5 (c.x 11#5) := by
          rw [setReg_get, setReg_get]
      _ = setReg (setReg c.x 12#5 (c.x 12#5 + c.x 10#5 * c.x 11#5)) 11#5 0#32 := by
          rw [h0, BitVec.mul_zero, BitVec.add_zero]
  | succ k ih =>
    have h1 : c.x 11#5 ≠ 0#32 := by
      intro h0
      rw [h0] at hk
      cases hk
    have hx : (round a c).x 11#5 = c.x 11#5 - 1#32 := by simp [round]
    have hr : ((round a c).x 11#5).toNat = k := by
      rw [hx, BitVec.toNat_sub_of_le (by rw [BitVec.le_def, hk]; exact Nat.succ_pos k), hk]
      rfl
    have hs := (mul_round h hc h1).trans (ih (c := round a c) rfl hr)
    rw [show 4 + (4 * k + 1) = 4 * (k + 1) + 1 by omega] at hs
    refine hs.cast (Cpu.ext' rfl ?_ rfl)
    have hv : c.x 12#5 + c.x 10#5 + c.x 10#5 * (c.x 11#5 - 1#32) =
        c.x 12#5 + c.x 10#5 * c.x 11#5 := by
      change _ + _ + _ * (_ - 1) = _
      ring
    have h12 : (round a c).x 12#5 = c.x 12#5 + c.x 10#5 := by simp [round]
    have h10 : (round a c).x 10#5 = c.x 10#5 := by simp [round]
    simp only [goto_x, put_x]
    rw [h12, h10, hx, hv]
    simp only [round, goto_x, put_x]
    rw [setReg_comm (r := 12#5) (by decide), setReg_setReg, setReg_setReg]

/-- `mul` returns with the product of `a0` and `a1` in `a2` and 0 in `a1`, whatever the values. -/
theorem mul_returns (h : HasMul P a) (hc : c.pc = a) (hra : (c.x 1#5).toNat % 4 = 0) :
    Steps P.Step (4 * (c.x 11#5).toNat + 3) c
      (goto (put (put c 12#5 (c.x 10#5 * c.x 11#5) 0#32) 11#5 0#32 0#32) (c.x 1#5)) := by
  have s₁ := step_li h.li hc
  have s₂ : Steps P.Step (4 * (c.x 11#5).toNat + 1) (put c 12#5 0#32 8#32)
      (goto (put (put (put c 12#5 0#32 8#32) 12#5 (c.x 10#5 * c.x 11#5) 0#32) 11#5 0#32 0#32)
        (a + 24#32)) := by
    simpa using mul_loop h (c := put c 12#5 0#32 8#32) (by rw [put_pc, hc]) rfl
  have s₃ := step_ret h.ret (c := goto (put (put (put c 12#5 0#32 8#32) 12#5
    (c.x 10#5 * c.x 11#5) 0#32) 11#5 0#32 0#32) (a + 24#32)) rfl (by simpa using hra)
  have hs := (Steps.head s₁ s₂).trans (.one s₃)
  refine hs.cast (Cpu.ext' (by simp) ?_ rfl)
  simp only [goto_x, put_x]
  rw [setReg_setReg]

/-- A call of `mul` leaves the product in `a2`. -/
theorem call_mul {q : Word} (h : HasMul P a) (hq : Has P q (.call a.toNat)) (hc : c.pc = q)
    (h4 : (q + 8#32).toNat % 4 = 0) : ∃ d, Steps P.Step (4 * (c.x 11#5).toNat + 4) c d ∧
      d.pc = q + 8#32 ∧ d.x 12#5 = c.x 10#5 * c.x 11#5 ∧ Keeps [1#5, 11#5, 12#5] c d := by
  have hx : ∀ r, r ≠ 1#5 → (goto (put c 1#5 (q + 8#32) 8#32) a).x r = c.x r := by
    intro r hr
    simp [hr]
  have h1 : (goto (put c 1#5 (q + 8#32) 8#32) a).x 1#5 = q + 8#32 := by simp
  have hs := Steps.head (step_call hq hc (has_aligned h.li)) (mul_returns h rfl (by rw [h1, h4]))
  rw [hx 10#5 (by decide), hx 11#5 (by decide), h1] at hs
  refine ⟨_, hs, rfl, by simp, rfl, ?_⟩
  intro r hr
  simp only [List.mem_cons, List.not_mem_nil, or_false, not_or] at hr
  simp [hr]

end Mul
end RiscForge.Benchmarks
