import Mathlib.Data.BitVec

/-! Sign and zero extension written as concatenation. -/
namespace RiscForge.Lib

/-- Copies of the sign bit in front of a vector sign-extend it. -/
theorem replicate_append {m k : ℕ} (s : BitVec 1) (b : BitVec m) (hs : s.getLsbD 0 = b.msb) :
    s.replicate k ++ b = b.signExtend (1 * k + m) := by
  apply BitVec.eq_of_getLsbD_eq
  intro i hi
  rw [BitVec.getLsbD_append, BitVec.getLsbD_signExtend, BitVec.getLsbD_replicate, Nat.mod_one, hs,
    decide_eq_true hi]
  by_cases hm : i < m
  · simp [hm]
  · simp [hm, show i - m < k by omega]

theorem msb_append_of_pos {n m : ℕ} (x : BitVec (n + 1)) (y : BitVec m) :
    (x ++ y).msb = x.msb := by
  rw [BitVec.msb_append, if_neg (by simp)]

theorem zero_append {k m : ℕ} (b : BitVec m) : 0#k ++ b = b.setWidth (k + m) := by
  apply BitVec.eq_of_getLsbD_eq
  intro i hi
  rw [BitVec.getLsbD_append, BitVec.getLsbD_setWidth, decide_eq_true hi, Bool.true_and]
  by_cases hm : i < m
  · simp [hm]
  · simp [hm, BitVec.getLsbD_of_ge b i (Nat.le_of_not_lt hm)]

end RiscForge.Lib
