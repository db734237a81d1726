import RiscForge.Benchmarks.Arrays
import RiscForge.Benchmarks.Mul
import Mathlib.Algebra.BigOperators.Group.Finset.Basic
import Mathlib.Algebra.BigOperators.Fin

/-! The loops of the benchmark `matvec`, over a square matrix of any size. -/
namespace RiscForge.Benchmarks

open Lib Rtl Isa Assembler

/-- The lines of `matvec` from `irow` on at `a`, the vector at `v`, and `mul` at `b`. -/
structure HasMatvec (P : Program) (a v b : Word) : Prop where
  beq : Has P a (.one (.branch .beq 19#5 20#5 (a + 84#32).toNat))
  la : Has P (a + 4#32) (.la 9#5 v.toNat)
  liSum : Has P (a + 12#32) (.li 21#5 0)
  liCol : Has P (a + 20#32) (.li 22#5 0)
  icol : Has P (a + 28#32) (.one (.branch .beq 22#5 20#5 (a + 68#32).toNat))
  lwL : Has P (a + 32#32) (.one (.load .lw 10#5 0 8#5))
  lwR : Has P (a + 36#32) (.one (.load .lw 11#5 0 9#5))
  call : Has P (a + 40#32) (.call b.toNat)
  add : Has P (a + 48#32) (.one (.op .add 21#5 21#5 12#5))
  nextL : Has P (a + 52#32) (.one (.opImm .add 8#5 8#5 4))
  nextR : Has P (a + 56#32) (.one (.opImm .add 9#5 9#5 4))
  nextCol : Has P (a + 60#32) (.one (.opImm .add 22#5 22#5 1))
  jCol : Has P (a + 64#32) (.one (.j (a + 28#32).toNat))
  sw : Has P (a + 68#32) (.one (.store .sw 21#5 0 18#5))
  nextRes : Has P (a + 72#32) (.one (.opImm .add 18#5 18#5 4))
  nextRow : Has P (a + 76#32) (.one (.opImm .add 19#5 19#5 1))
  jRow : Has P (a + 80#32) (.one (.j a.toNat))
  done : (a + 84#32).toNat % 4 = 0
  mul : HasMul P b

section Columns
variable {P : Program} {a v b p q : Word} {c : Cpu} {i j k l n r : ℕ}

/-- One product is added. -/
theorem column_round (h : HasMatvec P a v b) (hp : Cells P p l) (hq : Cells P q n)
    (hc : c.pc = a + 28#32) (hne : c.x 22#5 ≠ c.x 20#5) (h8 : c.x 8#5 = slot p i) (hi : i < l)
    (h9 : c.x 9#5 = slot q j) (hj : j < n) :
    ∃ d, Steps P.Step (4 * (element c.mem q j).toNat + 12) c d ∧ d.pc = a + 28#32 ∧
      d.x 8#5 = slot p (i + 1) ∧ d.x 9#5 = slot q (j + 1) ∧ d.x 22#5 = c.x 22#5 + 1#32 ∧
      d.x 21#5 = c.x 21#5 + element c.mem p i * element c.mem q j ∧
      Keeps [1#5, 8#5, 9#5, 10#5, 11#5, 12#5, 21#5, 22#5] c d := by
  have hb : branchCond (c.x 22#5) (c.x 20#5) .beq = false := by simp [branchCond, hne]
  have s₁ := step_branch h.icol hc (has_aligned h.sw)
  rw [hb, if_neg Bool.false_ne_true, BitVec.add_assoc] at s₁
  have s₂ := step_lw h.lwL (c := goto c (a + 32#32)) rfl (by simp [h8]) (hp.data i hi).aligned
    (hp.data i hi).inside
  have s₃ := step_lw h.lwR (c := put (goto c (a + 32#32)) 10#5 (element c.mem p i) 4#32)
    (by simp [BitVec.add_assoc]) (by simp [h9]) (hq.data j hj).aligned (hq.data j hj).inside
  obtain ⟨d, hd, hpc, h12, hk⟩ := call_mul h.mul h.call (c := put (put (goto c (a + 32#32)) 10#5
    (element c.mem p i) 4#32) 11#5 (element c.mem q j) 4#32) (by simp [BitVec.add_assoc])
    (by rw [BitVec.add_assoc]; exact has_aligned h.add)
  have hx : ∀ r ∉ [1#5, 10#5, 11#5, 12#5], d.x r = c.x r := by
    intro r hr
    simp only [List.mem_cons, List.not_mem_nil, or_false, not_or] at hr
    rw [hk.regs r (by simp [hr])]
    simp [hr]
  rw [put_x, setReg_self (by decide)] at hd
  refine ⟨_, ((Steps.head s₁ (.head s₂ (.one s₃))).trans (hd.trans (.head (step_op h.add ?_)
    (.head (step_opImm h.nextL ?_) (.head (step_opImm h.nextR ?_) (.head (step_opImm h.nextCol ?_)
    (.one (step_j h.jCol ?_ (has_aligned h.icol))))))))).count (by ring), rfl, ?_, ?_, ?_, ?_, ?_⟩
  · simp [hpc, BitVec.add_assoc]
  · simp [hpc, BitVec.add_assoc]
  · simp [hpc, BitVec.add_assoc]
  · simp [hpc, BitVec.add_assoc]
  · simp [hpc, BitVec.add_assoc]
  · simp [Op.eval, hx 8#5 (by decide), h8, slot_succ]
  · simp [Op.eval, hx 9#5 (by decide), h9, slot_succ]
  · simp [Op.eval, hx 22#5 (by decide)]
  · simp [Op.eval, hx 21#5 (by decide), h12]
  · refine ⟨hk.mem, fun r hr => ?_⟩
    simp only [List.mem_cons, List.not_mem_nil, or_false, not_or] at hr
    simp [hr, hx r (by simp [hr])]

/-- The products of a row are added up. -/
theorem column_loop (h : HasMatvec P a v b) (hp : Cells P p l) (hq : Cells P q n)
    (hc : c.pc = a + 28#32) (hr : (c.x 20#5 - c.x 22#5).toNat = r) (h8 : c.x 8#5 = slot p i)
    (hi : i + r ≤ l) (h9 : c.x 9#5 = slot q j) (hj : j + r ≤ n) :
    ∃ d, Steps P.Step (4 * ∑ t ∈ Finset.range r, (element c.mem q (j + t)).toNat + 12 * r + 1) c d ∧
      d.pc = a + 68#32 ∧ d.x 8#5 = slot p (i + r) ∧
      d.x 21#5 = c.x 21#5 +
        ∑ t ∈ Finset.range r, element c.mem p (i + t) * element c.mem q (j + t) ∧
      Keeps [1#5, 8#5, 9#5, 10#5, 11#5, 12#5, 21#5, 22#5] c d := by
  induction r generalizing c i j with
  | zero =>
    have he : c.x 22#5 = c.x 20#5 := (sub_eq_zero.mp (BitVec.eq_of_toNat_eq hr)).symm
    have hb : branchCond (c.x 22#5) (c.x 20#5) .beq = true := by simp [branchCond, he]
    have s := step_branch h.icol hc (has_aligned h.sw)
    rw [hb, if_pos rfl] at s
    exact ⟨_, .one s, rfl, h8, by simp, rfl, fun _ _ => rfl⟩
  | succ r ih =>
    have hne : c.x 22#5 ≠ c.x 20#5 := by
      intro he
      rw [he, BitVec.sub_self] at hr
      cases hr
    obtain ⟨d, hd, hpc, h8', h9', h22, h21, hk⟩ :=
      column_round h hp hq hc hne h8 (by omega) h9 (by omega)
    have hr' : (d.x 20#5 - d.x 22#5).toNat = r := by
      have hv : c.x 20#5 - (c.x 22#5 + 1#32) = c.x 20#5 - c.x 22#5 - 1#32 := sub_add_eq_sub_sub ..
      rw [hk.regs _ (by decide), h22, hv,
        BitVec.toNat_sub_of_le (by rw [BitVec.le_def, hr]; exact Nat.succ_pos r), hr]
      rfl
    obtain ⟨e, he, hpc', h8'', h21', hk'⟩ := ih hpc hr' h8' (by omega) h9' (by omega)
    have hcol : ∀ t, i + 1 + t = i + (t + 1) ∧ j + 1 + t = j + (t + 1) := fun t => by omega
    rw [hk.mem] at he h21'
    simp only [hcol] at he h21'
    refine ⟨e, (hd.trans he).count ?_, hpc', ?_, ?_, hk.trans hk'⟩
    · rw [Finset.sum_range_succ' _ r, Nat.add_zero j]
      omega
    · rw [h8'']
      congr 1
      omega
    · rw [h21', h21, Finset.sum_range_succ' _ r, Nat.add_zero, Nat.add_zero, add_assoc,
        add_comm (element c.mem p i * _)]

end Columns

section Rows
variable {P : Program} {a v b p q : Word} {c c₀ d : Cpu} {i k n : ℕ}

/-- The product of a row of the matrix at `p` and the vector at `v`. -/
def rowProduct (m : Word → BitVec 8) (p v : Word) (n i : ℕ) : Word :=
  ∑ j ∈ Finset.range n, element m p (n * i + j) * element m v j

/-- The lines a row takes. -/
def rowLines (m : Word → BitVec 8) (v : Word) (n : ℕ) : ℕ :=
  4 * ∑ j ∈ Finset.range n, (element m v j).toNat + 12 * n + 9

theorem rowLines_const {m : Word → BitVec 8} {w : Word} (h : ∀ j < n, element m v j = w) :
    rowLines m v n = 4 * (n * w.toNat) + 12 * n + 9 := by
  have hw : ∀ j ∈ Finset.range n, (element m v j).toNat = w.toNat := fun j hj => by
    rw [h j (Finset.mem_range.mp hj)]
  rw [rowLines, Finset.sum_congr rfl hw, Finset.sum_const, Finset.card_range, smul_eq_mul]

/-- After `i` rows, with the results at `q`. -/
structure RowAt (p v q : Word) (n : ℕ) (c₀ : Cpu) (i : ℕ) (c : Cpu) : Prop where
  matrix : c.x 8#5 = slot p (n * i)
  result : c.x 18#5 = slot q i
  row : c.x 19#5 = .ofNat 32 i
  size : (c.x 20#5).toNat = n
  rows : ∀ k < i, element c.mem q k = rowProduct c₀.mem p v n k
  outside : Outside q n c₀.mem c.mem
  regs : ∀ r ∉ [1#5, 8#5, 9#5, 10#5, 11#5, 12#5, 18#5, 19#5, 21#5, 22#5], c.x r = c₀.x r

/-- The matrix, the vector and the results. -/
structure Operands (P : Program) (p v q : Word) (n : ℕ) : Prop where
  matrix : Cells P p (n * n)
  vector : Cells P v n
  result : Cells P q n
  matrixApart : Apart p (n * n) q n
  vectorApart : Apart v n q n

/-- The sum of a row is begun, at the first column. -/
theorem row_start (h : HasMatvec P a v b) (hc : c.pc = a) (hne : c.x 19#5 ≠ c.x 20#5) :
    ∃ d, Steps P.Step 4 c d ∧ d.pc = a + 28#32 ∧ d.x 9#5 = v ∧ d.x 21#5 = 0#32 ∧
      d.x 22#5 = 0#32 ∧ Keeps [9#5, 21#5, 22#5] c d := by
  have hb : branchCond (c.x 19#5) (c.x 20#5) .beq = false := by simp [branchCond, hne]
  have s₁ := step_branch h.beq hc h.done
  rw [hb, if_neg Bool.false_ne_true] at s₁
  have s₂ := step_la h.la (c := goto c (a + 4#32)) rfl
  rw [ofInt_toNat] at s₂
  refine ⟨_, .head s₁ (.head s₂ (.head (step_li h.liSum ?_) (.one (step_li h.liCol ?_)))), ?_, ?_,
    ?_, ?_, rfl, ?_⟩
  · simp [BitVec.add_assoc]
  · simp [BitVec.add_assoc]
  · simp [BitVec.add_assoc]
  · simp
  · simp
  · simp
  · intro r hr
    simp only [List.mem_cons, List.not_mem_nil, or_false, not_or] at hr
    simp [hr]

/-- The sum is stored, and the next row prepared. -/
theorem row_end (h : HasMatvec P a v b) (hc : c.pc = a + 68#32) (h18 : c.x 18#5 = slot q i)
    (hd : Data P (slot q i)) :
    ∃ d, Steps P.Step 4 c d ∧ d.pc = a ∧ d.mem = storeAt c.mem (slot q i) 4 (c.x 21#5) ∧
      d.x 18#5 = slot q (i + 1) ∧ d.x 19#5 = c.x 19#5 + 1#32 ∧
      ∀ r ∉ [18#5, 19#5], d.x r = c.x r := by
  have s₁ := step_sw h.sw hc (a := slot q i) (by simp [h18]) hd
  refine ⟨_, .head s₁ (.head (step_opImm h.nextRes ?_) (.head (step_opImm h.nextRow ?_)
    (.one (step_j h.jRow ?_ (has_aligned h.beq))))), rfl, rfl, ?_, ?_, ?_⟩
  · simp [hc, BitVec.add_assoc]
  · simp [hc, BitVec.add_assoc]
  · simp [hc, BitVec.add_assoc]
  · simp [Op.eval, h18, slot_succ]
  · simp [Op.eval]
  · intro r hr
    simp only [List.mem_cons, List.not_mem_nil, or_false, not_or] at hr
    simp [hr]

theorem row_round (h : HasMatvec P a v b) (ho : Operands P p v q n) (hs : RowAt p v q n c₀ i c)
    (hc : c.pc = a) (hi : i < n) :
    ∃ d, Steps P.Step (rowLines c₀.mem v n) c d ∧ d.pc = a ∧ RowAt p v q n c₀ (i + 1) d := by
  have hrow : n * i + n ≤ n * n := by
    rw [← Nat.mul_succ]
    exact Nat.mul_le_mul_left n hi
  have hlt := (c.x 20#5).isLt
  have hne : c.x 19#5 ≠ c.x 20#5 := by
    intro he
    have hn := congrArg BitVec.toNat he
    rw [hs.row, hs.size, BitVec.toNat_ofNat] at hn
    have := hs.size
    omega
  -- the operands are what they were when the loop began
  have hp : ∀ j < n, element c.mem p (n * i + j) = element c₀.mem p (n * i + j) := fun j hj =>
    element_of_outside ho.matrix ho.matrixApart hs.outside (by omega)
  have hv : ∀ j < n, element c.mem v j = element c₀.mem v j := fun j hj =>
    element_of_outside ho.vector ho.vectorApart hs.outside hj
  obtain ⟨d, hd, hpc, h9, h21, h22, hk⟩ := row_start h hc hne
  obtain ⟨e, he, hpc', h8', h21', hk'⟩ := column_loop h (r := n) (i := n * i) (j := 0) ho.matrix
    ho.vector hpc (by simp [hk.regs 20#5, h22, hs.size]) (by simp [hk.regs 8#5, hs.matrix]) hrow
    (by simp [h9, slot]) (by omega)
  simp only [Nat.zero_add, h21, hk.mem] at he h21'
  have hx : ∀ r ∉ [1#5, 8#5, 9#5, 10#5, 11#5, 12#5, 21#5, 22#5], e.x r = c.x r := by
    intro r hr
    rw [hk'.regs r hr]
    simp only [List.mem_cons, List.not_mem_nil, or_false, not_or] at hr
    exact hk.regs r (by simp [hr])
  have hmem : e.mem = c.mem := hk'.mem.trans hk.mem
  have hsum : e.x 21#5 = rowProduct c₀.mem p v n i := by
    refine (h21'.trans (BitVec.zero_add _)).trans (Finset.sum_congr rfl fun j hj => ?_)
    rw [hp j (Finset.mem_range.mp hj), hv j (Finset.mem_range.mp hj)]
  have h18 : e.x 18#5 = slot q i := (hx _ (by decide)).trans hs.result
  obtain ⟨f, hf, hpc'', hmem', h18', h19', hx'⟩ := row_end h hpc' h18 (ho.result.data i hi)
  rw [hmem, hsum] at hmem'
  refine ⟨f, (hd.trans (he.trans hf)).count ?_, hpc'', ?_, h18', ?_, ?_, ?_, ?_, ?_⟩
  · rw [Finset.sum_congr rfl fun j hj => by rw [hv j (Finset.mem_range.mp hj)], rowLines]
    omega
  · rw [hx' 8#5 (by decide), h8', Nat.mul_succ]
  · rw [h19', hx 19#5 (by decide), hs.row, BitVec.ofNat_add]
  · rw [hx' 20#5 (by decide), hx 20#5 (by decide), hs.size]
  · intro k hk
    rw [hmem', element_storeAt ho.result hi (by omega)]
    split
    case isTrue he => rw [he]
    case isFalse he => exact hs.rows k (by omega)
  · rw [hmem']
    exact hs.outside.trans (outside_storeAt ho.result hi)
  · intro r hr
    have hd := hs.regs r hr
    simp only [List.mem_cons, List.not_mem_nil, or_false, not_or] at hr
    rw [hx' r (by simp [hr]), hx r (by simp [hr]), hd]

/-- From `irow`, each result becomes the product of its row and the vector. -/
theorem matvec_loop (h : HasMatvec P a v b) (ho : Operands P (c.x 8#5) v (c.x 18#5) n)
    (hc : c.pc = a) (h19 : c.x 19#5 = 0#32) (h20 : (c.x 20#5).toNat = n) :
    ∃ d, Steps P.Step (n * rowLines c.mem v n + 1) c d ∧ d.pc = a + 84#32 ∧
      (∀ i < n, element d.mem (c.x 18#5) i = rowProduct c.mem (c.x 8#5) v n i) ∧
      Outside (c.x 18#5) n c.mem d.mem ∧
      ∀ r ∉ [1#5, 8#5, 9#5, 10#5, 11#5, 12#5, 18#5, 19#5, 21#5, 22#5], d.x r = c.x r := by
  have hrun : ∀ i ≤ n, ∃ d, Steps P.Step (i * rowLines c.mem v n) c d ∧ d.pc = a ∧
      RowAt (c.x 8#5) v (c.x 18#5) n c i d := by
    intro i hi
    induction i with
    | zero =>
      exact ⟨c, .count (.refl c) (Nat.zero_mul _).symm, hc, by simp [slot], by simp [slot], h19,
        h20, fun _ hk => absurd hk (Nat.not_lt_zero _), fun _ _ => rfl, fun _ _ => rfl⟩
    | succ i ih =>
      obtain ⟨d, hd, hpc, hs⟩ := ih (by omega)
      obtain ⟨e, he, hpc', hs'⟩ := row_round h ho hs hpc hi
      exact ⟨e, (hd.trans he).count (Nat.succ_mul ..).symm, hpc', hs'⟩
  obtain ⟨d, hd, hpc, hs⟩ := hrun n le_rfl
  have he : d.x 19#5 = d.x 20#5 := by
    rw [hs.row, ← hs.size, BitVec.ofNat_toNat, BitVec.setWidth_eq]
  have hb : branchCond (d.x 19#5) (d.x 20#5) .beq = true := by simp [branchCond, he]
  have s := step_branch h.beq hpc h.done
  rw [hb, if_pos rfl] at s
  exact ⟨_, hd.trans (.one s), rfl, hs.rows, hs.outside, hs.regs⟩

end Rows
end RiscForge.Benchmarks
