import RiscForge.Benchmarks.Matvec
import RiscForge.System.Assembled

/-! Assembled texts and the statements in them, and the run of `matvec`. -/
namespace RiscForge.Benchmarks

open Lib Rtl Isa Assembler RiscForge.System

section Texts

/-- The words of an accepted text. -/
def wordsOf (src : String) : List ℤ :=
  match assemble .plain src 0 none with
  | .ok words => words
  | .error _ => []

/-- The text is accepted, its instructions end at `code`, the statements are at these addresses,
and these words follow. -/
def shows (src : String) (code : ℕ) (listing : List (ℤ × Statement)) (data : List Word) : Bool :=
  match assemble .plain src 0 none with
  | .ok words => decide (words.length ≤ 4096 ∧
      (benchProgram .plain src).listing = listing ∧
      (∀ ln ∈ (benchProgram .plain src).lines, ln.isInstruction = true → ln.pc + ln.size ≤ code) ∧
      (words.drop (code / 4)).map (BitVec.ofInt 32) = data)
  | .error _ => false

structure Shown (src : String) (code : ℕ) (listing : List (ℤ × Statement)) (data : List Word) :
    Prop where
  assembled : assemble .plain src 0 none = .ok (wordsOf src)
  short : (wordsOf src).length ≤ 4096
  list : (benchProgram .plain src).listing = listing
  bound : ∀ ln ∈ (benchProgram .plain src).lines, ln.isInstruction = true → ln.pc + ln.size ≤ code
  data : ((wordsOf src).drop (code / 4)).map (BitVec.ofInt 32) = data

variable {src : String} {code n hi tohost : ℕ} {listing : List (ℤ × Statement)} {data : List Word}

theorem shown_of_shows (h : shows src code listing data = true) : Shown src code listing data := by
  unfold shows at h
  split at h
  case h_1 words ha =>
    obtain ⟨hs, hl, hc, hd⟩ := of_decide_eq_true h
    have hw : wordsOf src = words := by rw [wordsOf, ha]
    exact ⟨by rw [ha, hw], by rwa [hw], hl, hc, by rwa [hw]⟩
  case h_2 => cases h

namespace Shown
variable (h : Shown src code listing data)
include h

theorem fits (hc : code ≤ 4096) : Fits (benchProgram .plain src) (wordsOf src) where
  data := h.short
  code ln hl hln := (h.bound ln hl hln).trans (by exact_mod_cast hc)

theorem has {q : Word} {stmt : Statement} (hq : ((q.toNat : ℤ), stmt) ∈ listing)
    (h4 : q.toNat % 4 = 0) : Has (.of .plain src hi tohost) q stmt := by
  rw [← h.list] at hq
  exact at_of_listing hq h4

/-- The words behind the instructions are data. -/
theorem cells {t : Word} (h4 : t.toNat % 4 = 0) (hc : code ≤ t.toNat)
    (hn : t.toNat + 4 * n ≤ hi) (ht : hi ≤ tohost) (hlt : hi < 2 ^ 32) :
    Cells (.of .plain src hi tohost) t n where
  fits := by omega
  data i hlt' := by
    have ht : (slot t i).toNat = t.toNat + 4 * i := by
      rw [slot, BitVec.toNat_add, BitVec.toNat_ofNat]
      omega
    refine ⟨by omega, ?_, ?_, fun ln hl hln => .inr ?_⟩
    · change (slot t i).toNat + 4 ≤ hi
      omega
    · change (slot t i).toNat ≠ tohost
      omega
    · exact (h.bound ln hl hln).trans (by exact_mod_cast (by omega : code ≤ (slot t i).toNat))

theorem word (i : ℕ) {k : ℕ} (hk : k = code / 4 + i) :
    wordAt (wordsOf src) k = data.getD i 0#32 := by
  rw [hk, ← h.data, wordAt, List.getD_eq_getElem?_getD, List.getD_eq_getElem?_getD,
    List.getElem?_map, List.getElem?_drop]
  cases (wordsOf src)[code / 4 + i]? with
  | none => rfl
  | some w => rfl

theorem length : (wordsOf src).length - code / 4 = data.length := by
  rw [← h.data, List.length_map, List.length_drop]

end Shown
end Texts

section Matvec
variable {words : List ℤ} {n hi tohost : ℕ} {P : Program} {c : Cpu}

theorem ends_ecall {q : Word} (h : Has P q .ecall) (hc : c.pc = q) : P.Ends c .ecall := by
  obtain ⟨ln, h⟩ := h
  subst hc
  exact .ecall h

theorem toNat_ofNat_of_lt (h : n < 2 ^ 32) : (BitVec.ofNat 32 n).toNat = n :=
  (BitVec.toNat_ofNat ..).trans (Nat.mod_eq_of_lt h)

theorem element_imageCpu {t : Word} {i : ℕ} (h : Cells P t n) (hi : i < n) :
    element (imageCpu words).mem t i = wordAt words (t.toNat / 4 + i) := by
  have h4 := (h.data i hi).aligned
  have ht := h.toNat_slot hi
  refine loadValue_bytes fun j hj => ?_
  change leByte (wordAt words ((slot t i + BitVec.ofNat 32 j).toNat / 4)).toNat
    ((slot t i + BitVec.ofNat 32 j).toNat % 4) = _
  rw [toNat_add_of_aligned (.inr (.inr rfl)) h4 hj]
  congr 3 <;> omega

/-- `_MUL`. -/
def MUL : String := "
mul:
    li   a2, 0
mul_loop:
    beq  a1, x0, mul_done
    add  a2, a2, a0
    addi a1, a1, -1
    j    mul_loop
mul_done:
    ret
"

def MATVEC : String := "
    la   s0, mat
    la   s2, res
    li   s3, 0
    li   s4, 3
irow:
    beq  s3, s4, mvdone
    la   s1, vec
    li   s5, 0
    li   s6, 0
icol:
    beq  s6, s4, storerow
    lw   a0, 0(s0)
    lw   a1, 0(s1)
    call mul
    add  s5, s5, a2
    addi s0, s0, 4
    addi s1, s1, 4
    addi s6, s6, 1
    j    icol
storerow:
    sw   s5, 0(s2)
    addi s2, s2, 4
    addi s3, s3, 1
    j    irow
mvdone:
    la   s2, res
    lw   a0, 0(s2)
    lw   a1, 4(s2)
    lw   a3, 8(s2)
    ecall
" ++ MUL ++ "
.data
mat:
.word 1, 2, 3, 4, 5, 6, 7, 8, 9
vec:
.word 1, 1, 1
res:
.word 0, 0, 0
"

/-- `matvec` of the `n` by `n` matrix at `p` and the vector at `v`, with the result at `q`. -/
structure MatvecProgram (P : Program) (p v q : Word) (n : ℕ) : Prop where
  matrix : Has P 0#32 (.la 8#5 p.toNat)
  result : Has P 8#32 (.la 18#5 q.toNat)
  row : Has P 16#32 (.li 19#5 0)
  size : Has P 24#32 (.li 20#5 n)
  loop : HasMatvec P 32#32 v 140#32
  result' : Has P 116#32 (.la 18#5 q.toNat)
  lwX : Has P 124#32 (.one (.load .lw 10#5 0 18#5))
  lwY : Has P 128#32 (.one (.load .lw 11#5 4 18#5))
  lwZ : Has P 132#32 (.one (.load .lw 13#5 8 18#5))
  ecall : Has P 136#32 .ecall
  operands : Operands P p v q n

/-- `matvec` ends with the first three elements of the product in `a0`, `a1` and `a3`. -/
theorem matvec_run (words : List ℤ) {p v q : Word} (h : MatvecProgram P p v q n) (h3 : 3 ≤ n)
    (hn : n < 2 ^ 32) :
    ∃ c, Steps P.Step (n * rowLines (imageCpu words).mem v n + 9) (imageCpu words) c ∧
      P.Ends c .ecall ∧ c.x 10#5 = rowProduct (imageCpu words).mem p v n 0 ∧
      c.x 11#5 = rowProduct (imageCpu words).mem p v n 1 ∧
      c.x 13#5 = rowProduct (imageCpu words).mem p v n 2 := by
  have hc : ∃ c, Steps P.Step 4 (imageCpu words) c ∧ c.pc = 32#32 ∧
      c.x 8#5 = p ∧ c.x 18#5 = q ∧ c.x 19#5 = 0#32 ∧ c.x 20#5 = .ofNat 32 n ∧
      c.mem = (imageCpu words).mem := by
    refine ⟨_, .head (step_la h.matrix rfl) (.head (step_la h.result rfl) (.head (step_li h.row
      rfl) (.one (step_li h.size rfl)))), rfl, ?_, ?_, ?_, ?_, rfl⟩
    · simp [-BitVec.ofInt_natCast, ofInt_toNat]
    · simp [-BitVec.ofInt_natCast, ofInt_toNat]
    · simp
    · simp
  obtain ⟨c, hs, hpc, h8, h18, h19, h20, hm⟩ := hc
  obtain ⟨d, hd, hpc', hrows, -, -⟩ := matvec_loop (n := n) h.loop (h8 ▸ h18 ▸ h.operands) hpc h19
    (by rw [h20, toNat_ofNat_of_lt hn])
  rw [h8, h18, hm] at hrows
  rw [hm] at hd
  have hat : ∀ i < n, (slot q i).toNat % 4 = 0 ∧ (slot q i).toNat + 4 ≤ P.hi :=
    fun i hi => ⟨(h.operands.result.data i hi).aligned, (h.operands.result.data i hi).inside⟩
  have he : ∃ e, Steps P.Step 4 d e ∧ e.pc = 136#32 ∧
      e.x 10#5 = element d.mem q 0 ∧ e.x 11#5 = element d.mem q 1 ∧
      e.x 13#5 = element d.mem q 2 := by
    have s₁ := step_la h.result' hpc'
    rw [ofInt_toNat] at s₁
    have s₂ := step_lw h.lwX (c := put d 18#5 q 8#32) (a := slot q 0) (by rw [put_pc, hpc']; rfl)
      (by simp [slot]) (hat 0 (by omega)).1 (hat 0 (by omega)).2
    have s₃ := step_lw h.lwY (c := put (put d 18#5 q 8#32) 10#5 (element d.mem q 0) 4#32)
      (a := slot q 1) (by rw [put_pc, put_pc, hpc']; rfl) (by simp [slot]) (hat 1 (by omega)).1
      (hat 1 (by omega)).2
    have s₄ := step_lw h.lwZ (c := put (put (put d 18#5 q 8#32) 10#5 (element d.mem q 0) 4#32) 11#5
      (element d.mem q 1) 4#32) (a := slot q 2) (by rw [put_pc, put_pc, put_pc, hpc']; rfl)
      (by simp [slot]) (hat 2 (by omega)).1 (hat 2 (by omega)).2
    refine ⟨_, .head s₁ (.head s₂ (.head s₃ (.one s₄))), ?_, ?_, ?_, ?_⟩
    · rw [put_pc, put_pc, put_pc, put_pc, hpc']
      rfl
    · simp
    · simp
    · simp [element]
  obtain ⟨e, he, hpc'', h10, h11, h13⟩ := he
  exact ⟨e, (hs.trans (hd.trans he)).count (by omega), ends_ecall h.ecall hpc'',
    h10.trans (hrows 0 (by omega)), h11.trans (hrows 1 (by omega)), h13.trans (hrows 2 (by omega))⟩

set_option maxRecDepth 8000 in
theorem shown_MATVEC : Shown MATVEC 168
    [(0, .la 8 168), (8, .la 18 216), (16, .li 19 0), (24, .li 20 3),
      (32, .one (.branch .beq 19 20 116)), (36, .la 9 204), (44, .li 21 0), (52, .li 22 0),
      (60, .one (.branch .beq 22 20 100)), (64, .one (.load .lw 10 0 8)),
      (68, .one (.load .lw 11 0 9)), (72, .call 140), (80, .one (.op .add 21 21 12)),
      (84, .one (.opImm .add 8 8 4)), (88, .one (.opImm .add 9 9 4)),
      (92, .one (.opImm .add 22 22 1)), (96, .one (.j 60)), (100, .one (.store .sw 21 0 18)),
      (104, .one (.opImm .add 18 18 4)), (108, .one (.opImm .add 19 19 1)), (112, .one (.j 32)),
      (116, .la 18 216), (124, .one (.load .lw 10 0 18)), (128, .one (.load .lw 11 4 18)),
      (132, .one (.load .lw 13 8 18)), (136, .ecall), (140, .li 12 0),
      (148, .one (.branch .beq 11 0 164)), (152, .one (.op .add 12 12 10)),
      (156, .one (.opImm .add 11 11 (-1))), (160, .one (.j 148)), (164, .one .ret)]
    [1, 2, 3, 4, 5, 6, 7, 8, 9, 1, 1, 1, 0, 0, 0] := by
  apply shown_of_shows
  have h : MATVEC = String.ofList _ ++ String.ofList _ ++ String.ofList _ := rfl
  rw [shows, benchProgram, Program.of, assemble, laidOut, layOut, tokenize, splitlines, h,
    ← String.ofList_append, ← String.ofList_append,
    String.toList_ofList]
  decide +kernel

theorem hasMatvec_MATVEC : HasMatvec (.of .plain MATVEC hi tohost) 32#32 204#32 140#32 := by
  have hs := shown_MATVEC
  have hmul : HasMul (.of .plain MATVEC hi tohost) 140#32 := by
    constructor <;> exact hs.has (by decide) rfl
  constructor <;> first | exact hs.has (by decide) rfl | rfl | exact hmul

theorem matvecProgram_MATVEC (hi tohost : ℕ) (h : 228 ≤ hi) (ht : hi ≤ tohost) (hlt : hi < 2 ^ 32) :
    MatvecProgram (.of .plain MATVEC hi tohost) 168#32 204#32 216#32 3 := by
  have hs := shown_MATVEC
  have ho : Operands (.of .plain MATVEC hi tohost) 168#32 204#32 216#32 3 := {
    matrix := hs.cells rfl (by decide) (le_trans (by decide) h) ht hlt
    vector := hs.cells rfl (by decide) (le_trans (by decide) h) ht hlt
    result := hs.cells rfl (by decide) h ht hlt
    matrixApart := .inl (by decide)
    vectorApart := .inl (by decide) }
  constructor <;> first | exact hs.has (by decide) rfl | exact hasMatvec_MATVEC | exact ho

theorem matrix_MATVEC {i : ℕ} (hi : i < 9) :
    element (imageCpu (wordsOf MATVEC)).mem 168#32 i = .ofNat 32 (i + 1) := by
  have ho := (matvecProgram_MATVEC 228 228 le_rfl le_rfl (by decide)).operands
  refine ((element_imageCpu ho.matrix hi).trans (shown_MATVEC.word i rfl)).trans ?_
  decide +revert

theorem vector_MATVEC {j : ℕ} (hj : j < 3) :
    element (imageCpu (wordsOf MATVEC)).mem 204#32 j = 1#32 := by
  have ho := (matvecProgram_MATVEC 228 228 le_rfl le_rfl (by decide)).operands
  have hk : (204#32).toNat / 4 + j = 168 / 4 + (9 + j) := by
    rw [← Nat.add_assoc]
    rfl
  refine ((element_imageCpu ho.vector hj).trans (shown_MATVEC.word (9 + j) hk)).trans ?_
  decide +revert

theorem rowProduct_MATVEC {i : ℕ} (hi : i < 3) :
    rowProduct (imageCpu (wordsOf MATVEC)).mem 168#32 204#32 3 i = .ofNat 32 (9 * i + 6) := by
  simp only [rowProduct, Finset.sum_range_succ, Finset.sum_range_zero]
  rw [matrix_MATVEC (by omega), matrix_MATVEC (by omega), matrix_MATVEC (by omega),
    vector_MATVEC (by decide), vector_MATVEC (by decide), vector_MATVEC (by decide), zero_add]
  have hone : ∀ w : Word, w * 1#32 = w := BitVec.mul_one
  rw [hone, hone, hone, ← BitVec.ofNat_add, ← BitVec.ofNat_add]
  congr 1
  omega

theorem rowLines_MATVEC : rowLines (imageCpu (wordsOf MATVEC)).mem 204#32 3 = 57 := by
  rw [rowLines_const fun j hj => vector_MATVEC hj]
  rfl

/-- The run of `matvec`, with any data memory that holds its text. -/
theorem run_MATVEC (hi tohost : ℕ) (h : 228 ≤ hi) (ht : hi ≤ tohost) (hlt : hi < 2 ^ 32) :
    ∃ c, Steps (Program.of .plain MATVEC hi tohost).Step 180 (imageCpu (wordsOf MATVEC)) c ∧
      (Program.of .plain MATVEC hi tohost).Ends c .ecall ∧
      c.x 10#5 = 6#32 ∧ c.x 11#5 = 15#32 ∧ c.x 13#5 = 24#32 := by
  obtain ⟨c, hc, he, h10, h11, h13⟩ :=
    matvec_run (wordsOf MATVEC) (matvecProgram_MATVEC hi tohost h ht hlt) le_rfl (by decide)
  rw [rowLines_MATVEC] at hc
  rw [rowProduct_MATVEC (by decide)] at h10 h11 h13
  exact ⟨c, hc, he, h10, h11, h13⟩

theorem length_MATVEC : (wordsOf MATVEC).length = 57 := by
  have h := shown_MATVEC.length
  simp only [List.length_cons, List.length_nil] at h
  omega

theorem fits_MATVEC : Fits (benchProgram .plain MATVEC) (wordsOf MATVEC) :=
  shown_MATVEC.fits (by decide)

end Matvec
end RiscForge.Benchmarks
