import RiscForge.Benchmarks.Arrays
import RiscForge.Lib.Bubble
import Mathlib.Tactic.Ring

/-! The passes of the benchmark `sort`, over an array of any length. -/
namespace RiscForge.Benchmarks

open Lib Rtl Isa Assembler

/-- The lines of `sort` from `outer` on, at `a`. -/
structure HasSort (P : Program) (a : Word) : Prop where
  beq : Has P a (.one (.branch .beq 18#5 0#5 (a + 68#32).toNat))
  li : Has P (a + 4#32) (.li 19#5 0)
  mv : Has P (a + 12#32) (.one (.mv 20#5 18#5))
  inner : Has P (a + 16#32) (.one (.branch .beq 20#5 0#5 (a + 60#32).toNat))
  slli : Has P (a + 20#32) (.one (.opImm .sll 21#5 19#5 2))
  add : Has P (a + 24#32) (.one (.op .add 22#5 8#5 21#5))
  lwL : Has P (a + 28#32) (.one (.load .lw 23#5 0 22#5))
  lwR : Has P (a + 32#32) (.one (.load .lw 24#5 4 22#5))
  bge : Has P (a + 36#32) (.one (.branch .bge 24#5 23#5 (a + 48#32).toNat))
  swL : Has P (a + 40#32) (.one (.store .sw 24#5 0 22#5))
  swR : Has P (a + 44#32) (.one (.store .sw 23#5 4 22#5))
  up : Has P (a + 48#32) (.one (.opImm .add 19#5 19#5 1))
  down : Has P (a + 52#32) (.one (.opImm .add 20#5 20#5 (-1)))
  jInner : Has P (a + 56#32) (.one (.j (a + 16#32).toNat))
  next : Has P (a + 60#32) (.one (.opImm .add 18#5 18#5 (-1)))
  jOuter : Has P (a + 64#32) (.one (.j a.toNat))
  done : (a + 68#32).toNat % 4 = 0

section Rounds
variable {P : Program} {a b : Word} {c c₀ d : Cpu} {n k : ℕ} {F : ℕ → Word}

/-- What the passes may write to: these registers, and the elements, which are `F` so far. -/
structure SortAt (b : Word) (n : ℕ) (c₀ : Cpu) (F : ℕ → Word) (c : Cpu) : Prop where
  base : c.x 8#5 = b
  elements : ∀ i < n, element c.mem b i = F i
  regs : ∀ r ∉ [18#5, 19#5, 20#5, 21#5, 22#5, 23#5, 24#5], c.x r = c₀.x r
  outside : Outside b n c₀.mem c.mem

theorem SortAt.keeps {rs : List (BitVec 5)} (h : SortAt b n c₀ F c) (hk : Keeps rs c d)
    (hs : rs ⊆ [18#5, 19#5, 20#5, 21#5, 22#5, 23#5, 24#5]) : SortAt b n c₀ F d where
  base := (hk.regs 8#5 fun hm => absurd (hs hm) (by decide)).trans h.base
  elements i hi := by rw [hk.mem, h.elements i hi]
  regs r hr := (hk.regs r fun hm => hr (hs hm)).trans (h.regs r hr)
  outside := hk.mem ▸ h.outside

/-- The two elements are loaded and compared. -/
theorem compare_round (h : HasSort P a) (hcells : Cells P b n) (hs : SortAt b n c₀ F c)
    (hc : c.pc = a + 16#32) (h0 : c.x 20#5 ≠ 0#32) (hk : c.x 19#5 = .ofNat 32 k) (hn : k + 1 < n) :
    ∃ d, Steps P.Step 6 c d ∧
      d.pc = (if (F (k + 1)).toInt < (F k).toInt then a + 40#32 else a + 48#32) ∧
      d.x 22#5 = slot b k ∧ d.x 23#5 = F k ∧ d.x 24#5 = F (k + 1) ∧
      Keeps [21#5, 22#5, 23#5, 24#5] c d := by
  have hb : branchCond (c.x 20#5) (c.x 0#5) .beq = false := by simp [branchCond, c.zero, h0]
  have hat : ∀ i < n, (slot b i).toNat % 4 = 0 ∧ (slot b i).toNat + 4 ≤ P.hi :=
    fun i hi => ⟨(hcells.data i hi).aligned, (hcells.data i hi).inside⟩
  have hshift : Op.eval (c.x 19#5) (.ofInt 32 2) .sll = .ofNat 32 (4 * k) := by
    rw [hk]
    apply BitVec.eq_of_toNat_eq
    simp [Op.eval, Nat.shiftLeft_eq]
    omega
  have s₁ := step_branch h.inner hc (has_aligned h.next)
  rw [hb, if_neg Bool.false_ne_true, BitVec.add_assoc] at s₁
  have s₂ := step_opImm h.slli (c := goto c (a + 20#32)) rfl
  rw [goto_x, hshift] at s₂
  have s₃ := step_op h.add (c := put (goto c (a + 20#32)) 21#5 (.ofNat 32 (4 * k)) 4#32)
    (by simp [BitVec.add_assoc])
  have hsum : Op.eval ((put (goto c (a + 20#32)) 21#5 (.ofNat 32 (4 * k)) 4#32).x 8#5)
      ((put (goto c (a + 20#32)) 21#5 (.ofNat 32 (4 * k)) 4#32).x 21#5) .add = slot b k := by
    simp [Op.eval, slot, hs.base]
  rw [hsum] at s₃
  have s₄ := step_lw h.lwL (c := put (put (goto c (a + 20#32)) 21#5 (.ofNat 32 (4 * k)) 4#32)
    22#5 (slot b k) 4#32) (by simp [BitVec.add_assoc]) (by simp) (hat k (by omega)).1
    (hat k (by omega)).2
  have s₅ := step_lw h.lwR (c := put (put (put (goto c (a + 20#32)) 21#5 (.ofNat 32 (4 * k)) 4#32)
    22#5 (slot b k) 4#32) 23#5 (F k) 4#32) (by simp [BitVec.add_assoc])
    (by simp [slot_succ]) (hat (k + 1) hn).1 (hat (k + 1) hn).2
  have hL : loadValue c.mem (slot b k) .lw = F k := hs.elements k (by omega)
  have hR : loadValue c.mem (slot b (k + 1)) .lw = F (k + 1) := hs.elements (k + 1) hn
  simp only [put_mem, goto_mem, hL] at s₄
  simp only [put_mem, goto_mem, hR] at s₅
  have s₆ := step_branch h.bge (c := put (put (put (put (goto c (a + 20#32)) 21#5
    (.ofNat 32 (4 * k)) 4#32) 22#5 (slot b k) 4#32) 23#5 (F k) 4#32) 24#5 (F (k + 1)) 4#32)
    (by simp [BitVec.add_assoc]) (has_aligned h.up)
  refine ⟨_, .head s₁ (.head s₂ (.head s₃ (.head s₄ (.head s₅ (.one s₆))))), ?_, by simp, by simp,
    by simp, rfl, ?_⟩
  · simp only [goto_pc, BitVec.add_assoc]
    by_cases hlt : (F (k + 1)).toInt < (F k).toInt
    · simp [branchCond, hlt, not_le.mpr hlt]
    · simp [branchCond, hlt, not_lt.mp hlt]
  · intro r hr
    simp only [List.mem_cons, List.not_mem_nil, or_false, not_or] at hr
    simp [hr]

/-- The two elements are stored in each other's place. -/
theorem swap_round (h : HasSort P a) (hcells : Cells P b n) (hs : SortAt b n c₀ F c)
    (hc : c.pc = a + 40#32) (h22 : c.x 22#5 = slot b k) (h23 : c.x 23#5 = F k)
    (h24 : c.x 24#5 = F (k + 1)) (hn : k + 1 < n) :
    ∃ d, Steps P.Step 2 c d ∧ d.pc = a + 48#32 ∧ d.x = c.x ∧
      SortAt b n c₀ (F ∘ Equiv.swap k (k + 1)) d := by
  have s₁ := step_sw h.swL hc (a := slot b k) (by simp [h22]) (hcells.data k (by omega))
  have s₂ := step_sw h.swR (c := poke c (c.x 24#5) (slot b k)) (a := slot b (k + 1))
    (by simp [hc, BitVec.add_assoc]) (by simp [h22, slot_succ]) (hcells.data (k + 1) hn)
  refine ⟨_, .head s₁ (.one s₂), ?_, rfl, hs.base, ?_, hs.regs, ?_⟩
  · simp [hc, BitVec.add_assoc]
  · intro i hi
    rw [poke_mem, element_storeAt hcells hn hi, poke_mem, element_storeAt hcells (by omega) hi,
      Function.comp_apply, Equiv.swap_apply_def, poke_x, h23, h24]
    split_ifs with h₁ h₂ h₂
    · omega
    · rfl
    · rfl
    · exact hs.elements i hi
  · exact (hs.outside.trans (outside_storeAt hcells (by omega))).trans (outside_storeAt hcells hn)

/-- The next round is prepared. -/
theorem next_round (h : HasSort P a) (hc : c.pc = a + 48#32) :
    ∃ d, Steps P.Step 3 c d ∧ d.pc = a + 16#32 ∧ d.x 19#5 = c.x 19#5 + 1#32 ∧
      d.x 20#5 = c.x 20#5 - 1#32 ∧ Keeps [19#5, 20#5] c d := by
  have s₁ := step_opImm h.up hc
  refine ⟨_, .head s₁ (.head (step_opImm h.down ?_) (.one (step_j h.jInner ?_
    (has_aligned h.inner)))), rfl, ?_, ?_, rfl, ?_⟩
  · simp [hc, BitVec.add_assoc]
  · simp [hc, BitVec.add_assoc]
  · simp [Op.eval]
  · simp [Op.eval, add_neg_one]
  · intro r hr
    simp only [List.mem_cons, List.not_mem_nil, or_false, not_or] at hr
    simp [hr]

/-- One round of the inner loop. -/
theorem inner_round (h : HasSort P a) (hcells : Cells P b n) (hs : SortAt b n c₀ F c)
    (hc : c.pc = a + 16#32) (h0 : c.x 20#5 ≠ 0#32) (hk : c.x 19#5 = .ofNat 32 k) (hn : k + 1 < n) :
    ∃ m ≤ 11, ∃ d, Steps P.Step m c d ∧ d.pc = a + 16#32 ∧
      d.x 19#5 = .ofNat 32 (k + 1) ∧ d.x 20#5 = c.x 20#5 - 1#32 ∧ d.x 18#5 = c.x 18#5 ∧
      SortAt b n c₀ (exchange BitVec.toInt F k) d := by
  obtain ⟨d, hd, hpc, h22, h23, h24, hkeep⟩ := compare_round h hcells hs hc h0 hk hn
  have hsd := hs.keeps hkeep (by decide)
  by_cases hlt : (F (k + 1)).toInt < (F k).toInt
  · rw [if_pos hlt] at hpc
    obtain ⟨e, he, hpc', hx, hse⟩ := swap_round h hcells hsd hpc h22 h23 h24 hn
    obtain ⟨f, hf, hpc'', h19, h20, hkeep'⟩ := next_round h hpc'
    refine ⟨11, le_rfl, f, (hd.trans he).trans hf, hpc'', ?_, ?_, ?_, ?_⟩
    · rw [h19, hx, hkeep.regs _ (by decide), hk, BitVec.ofNat_add]
    · rw [h20, hx, hkeep.regs _ (by decide)]
    · rw [hkeep'.regs _ (by decide), hx, hkeep.regs _ (by decide)]
    · rw [exchange, if_pos hlt]
      exact hse.keeps hkeep' (by decide)
  · rw [if_neg hlt] at hpc
    obtain ⟨f, hf, hpc'', h19, h20, hkeep'⟩ := next_round h hpc
    refine ⟨9, by omega, f, hd.trans hf, hpc'', ?_, ?_, ?_, ?_⟩
    · rw [h19, hkeep.regs _ (by decide), hk, BitVec.ofNat_add]
    · rw [h20, hkeep.regs _ (by decide)]
    · rw [hkeep'.regs _ (by decide), hkeep.regs _ (by decide)]
    · rw [exchange, if_neg hlt]
      exact hsd.keeps hkeep' (by decide)

/-- The inner loop goes on with a pass. -/
theorem inner_loop {j : ℕ} (h : HasSort P a) (hcells : Cells P b n)
    (hs : SortAt b n c₀ (pass BitVec.toInt F k) c) (hc : c.pc = a + 16#32)
    (hj : (c.x 20#5).toNat = j) (hk : c.x 19#5 = .ofNat 32 k) (hn : k + j < n) :
    ∃ m ≤ 11 * j + 1, ∃ d, Steps P.Step m c d ∧ d.pc = a + 60#32 ∧ d.x 18#5 = c.x 18#5 ∧
      SortAt b n c₀ (pass BitVec.toInt F (k + j)) d := by
  induction j generalizing c k with
  | zero =>
    have h0 : c.x 20#5 = 0#32 := BitVec.eq_of_toNat_eq hj
    have hb : branchCond (c.x 20#5) (c.x 0#5) .beq = true := by simp [branchCond, c.zero, h0]
    have s := step_branch h.inner hc (has_aligned h.next)
    rw [hb, if_pos rfl] at s
    exact ⟨1, le_rfl, _, .one s, rfl, rfl, hs.base, hs.elements, hs.regs, hs.outside⟩
  | succ j ih =>
    have h0 : c.x 20#5 ≠ 0#32 := by
      intro h0
      rw [h0] at hj
      cases hj
    obtain ⟨m, hm, d, hd, hpc, h19, h20, h18, hsd⟩ := inner_round h hcells hs hc h0 hk (by omega)
    have hj' : (d.x 20#5).toNat = j := by
      rw [h20, BitVec.toNat_sub_of_le (by rw [BitVec.le_def, hj]; exact Nat.succ_pos j), hj]
      rfl
    obtain ⟨m', hm', e, he, hpc', h18', hse⟩ := ih (k := k + 1) hsd hpc hj' h19 (by omega)
    refine ⟨m + m', by omega, e, hd.trans he, hpc', h18'.trans h18, ?_⟩
    rwa [show k + (j + 1) = k + 1 + j by ring]

/-- A pass is begun, with as many rounds as its number says. -/
theorem outer_start (h : HasSort P a) (hc : c.pc = a) (h0 : c.x 18#5 ≠ 0#32) :
    ∃ d, Steps P.Step 3 c d ∧ d.pc = a + 16#32 ∧ d.x 19#5 = 0#32 ∧ d.x 20#5 = c.x 18#5 ∧
      Keeps [19#5, 20#5] c d := by
  have hb : branchCond (c.x 18#5) (c.x 0#5) .beq = false := by simp [branchCond, c.zero, h0]
  have s₁ := step_branch h.beq hc h.done
  rw [hb, if_neg Bool.false_ne_true] at s₁
  refine ⟨_, .head s₁ (.head (step_li h.li rfl) (.one (step_mv h.mv ?_))), ?_, ?_, ?_, rfl, ?_⟩
  · simp [BitVec.add_assoc]
  · simp [BitVec.add_assoc]
  · simp
  · simp
  · intro r hr
    simp only [List.mem_cons, List.not_mem_nil, or_false, not_or] at hr
    simp [hr]

/-- The next pass is prepared. -/
theorem outer_end (h : HasSort P a) (hc : c.pc = a + 60#32) :
    ∃ d, Steps P.Step 2 c d ∧ d.pc = a ∧ d.x 18#5 = c.x 18#5 - 1#32 ∧ Keeps [18#5] c d := by
  refine ⟨_, .head (step_opImm h.next hc) (.one (step_j h.jOuter ?_ (has_aligned h.beq))), rfl, ?_,
    rfl, ?_⟩
  · simp [hc, BitVec.add_assoc]
  · simp [Op.eval, add_neg_one]
  · intro r hr
    simp only [List.mem_cons, List.not_mem_nil, or_false] at hr
    simp [hr]

/-- The outer loop does all the passes. -/
theorem outer_loop (h : HasSort P a) (hcells : Cells P b n) (hs : SortAt b n c₀ F c)
    (hc : c.pc = a) (hk : (c.x 18#5).toNat = k) (hn : k < n) :
    ∃ m ≤ 6 * (k * (k + 2)) + 1, ∃ d, Steps P.Step m c d ∧ d.pc = a + 68#32 ∧
      SortAt b n c₀ (bubble BitVec.toInt F k) d := by
  induction k generalizing c F with
  | zero =>
    have h0 : c.x 18#5 = 0#32 := BitVec.eq_of_toNat_eq hk
    have hb : branchCond (c.x 18#5) (c.x 0#5) .beq = true := by simp [branchCond, c.zero, h0]
    have s := step_branch h.beq hc h.done
    rw [hb, if_pos rfl] at s
    exact ⟨1, by omega, _, .one s, rfl, hs.base, hs.elements, hs.regs, hs.outside⟩
  | succ k ih =>
    have h0 : c.x 18#5 ≠ 0#32 := by
      intro h0
      rw [h0] at hk
      cases hk
    obtain ⟨d, hd, hpc, h19, h20, hkeep⟩ := outer_start h hc h0
    obtain ⟨m, hm, e, he, hpc', h18, hse⟩ := inner_loop (k := 0) (j := k + 1) h hcells
      (hs.keeps hkeep (by decide)) hpc (by rw [h20, hk]) h19 (by omega)
    rw [Nat.zero_add] at hse
    obtain ⟨f, hf, hpc'', h18', hkeep'⟩ := outer_end h hpc'
    have hk' : (f.x 18#5).toNat = k := by
      rw [h18', h18, hkeep.regs _ (by decide),
        BitVec.toNat_sub_of_le (by rw [BitVec.le_def, hk]; exact Nat.succ_pos k), hk]
      rfl
    obtain ⟨m', hm', g, hg, hpc₃, hsg⟩ :=
      ih (hse.keeps hkeep' (by decide)) hpc'' hk' (by omega)
    refine ⟨3 + (m + (2 + m')), ?_, g, hd.trans (he.trans (hf.trans hg)), hpc₃, hsg⟩
    calc 3 + (m + (2 + m')) ≤ 3 + (11 * (k + 1) + 1 + (2 + (6 * (k * (k + 2)) + 1))) := by omega
      _ ≤ 6 * ((k + 1) * (k + 1 + 2)) + 1 := by ring_nf; omega

/-- From `outer`, with the array's last index in `s2`, the array gets sorted in place. -/
theorem sort_loop (h : HasSort P a) (hcells : Cells P (c.x 8#5) n) (hc : c.pc = a)
    (hk : (c.x 18#5).toNat + 1 = n) :
    ∃ m ≤ 6 * (n * n), ∃ d, Steps P.Step m c d ∧ d.pc = a + 68#32 ∧
      (elements d.mem (c.x 8#5) n).Perm (elements c.mem (c.x 8#5) n) ∧
      (elements d.mem (c.x 8#5) n).Pairwise (fun u v => u.toInt ≤ v.toInt) ∧
      (∀ r ∉ [18#5, 19#5, 20#5, 21#5, 22#5, 23#5, 24#5], d.x r = c.x r) ∧
      Outside (c.x 8#5) n c.mem d.mem := by
  have hs : SortAt (c.x 8#5) n c (element c.mem (c.x 8#5)) c :=
    ⟨rfl, fun _ _ => rfl, fun _ _ => rfl, fun _ _ => rfl⟩
  obtain ⟨m, hm, d, hd, hpc, hsd⟩ := outer_loop h hcells hs hc rfl (by omega)
  generalize (c.x 18#5).toNat = k at hk hm hsd
  subst hk
  have he : elements d.mem (c.x 8#5) (k + 1) = (List.range (k + 1)).map
      (bubble BitVec.toInt (element c.mem (c.x 8#5)) k) :=
    List.map_congr_left fun i hi => hsd.elements i (List.mem_range.mp hi)
  refine ⟨m, hm.trans (by ring_nf; omega), d, hd, hpc, ?_, ?_, hsd.regs, hsd.outside⟩
  · rw [he]
    exact bubble_perm (Nat.lt_succ_self _)
  · rw [he, List.pairwise_map]
    exact List.pairwise_lt_range.imp_of_mem fun hi hj hlt =>
      bubble_sorted le_rfl hlt.le (List.mem_range.mp hj)

end Rounds
end RiscForge.Benchmarks
