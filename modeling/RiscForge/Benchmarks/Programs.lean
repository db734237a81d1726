import RiscForge.Benchmarks.Loops
import RiscForge.Benchmarks.Sort
import RiscForge.System.Harness

/-! The benchmark programs as wholes: on any operands they pass the measurement. -/
namespace RiscForge.Benchmarks

open Lib Rtl Isa Assembler RiscForge.System

section Runs
variable {py : Python} {src : String} {words : List ℤ} {a b k n : ℕ} {P : Program} {c : Cpu}

def FIB : String := "
    li   a0, 0
    li   a1, 1
    li   a2, 20
    li   a3, 0
loop:
    beq  a3, a2, done
    add  a4, a0, a1
    mv   a0, a1
    mv   a1, a4
    addi a3, a3, 1
    j    loop
done:
    ecall
"

/-- `fib`, up to the number `k`. -/
structure FibProgram (P : Program) (k : ℕ) : Prop where
  left : Has P 0#32 (.li 10#5 0)
  right : Has P 8#32 (.li 11#5 1)
  limit : Has P 16#32 (.li 12#5 k)
  counter : Has P 24#32 (.li 13#5 0)
  loop : HasFib P 32#32
  ecall : Has P 56#32 .ecall

/-- `fib` leaves the Fibonacci number `k` in `a0`, up to the word size. -/
theorem fib_measures (ha : assemble py src 0 none = .ok words)
    (hf : Fits (benchProgram py src) words) (h : FibProgram (benchProgram py src) k)
    (hk : k ≤ 8000) : Measures py src [(10, (Nat.fib k % 2 ^ 32 : ℕ))] := by
  have hc : ∃ c, Steps (benchProgram py src).Step 4 (imageCpu words) c ∧ c.pc = 32#32 ∧
      FibAt c 0 ∧ c.x 12#5 = .ofNat 32 k ∧ c.x 13#5 = 0#32 :=
    ⟨_, .head (step_li h.left rfl) (.head (step_li h.right rfl) (.head (step_li h.limit rfl)
      (.one (step_li h.counter rfl)))), rfl, ⟨by simp, by simp⟩, by simp, by simp⟩
  obtain ⟨c, hs, hpc, hfib, h12, h13⟩ := hc
  obtain ⟨d, hd, hpc', hfib', -, -⟩ := fib_loop (k := k) h.loop hpc
    (by rw [h12, h13, BitVec.sub_zero, toNat_ofNat_of_lt (by omega)]) hfib
  refine measures ha hf (hs.trans hd) (ends_ecall h.ecall hpc') ?_ (by omega)
  intro rv hrv
  rw [List.mem_singleton] at hrv
  subst hrv
  have hx := hfib'.left
  rw [Nat.zero_add] at hx
  exact congrArg Nat.cast ((congrArg BitVec.toNat hx).trans (BitVec.toNat_ofNat ..))

set_option maxRecDepth 8000 in
theorem shown_FIB : Shown FIB 60
    [(0, .li 10 0), (8, .li 11 1), (16, .li 12 20), (24, .li 13 0),
      (32, .one (.branch .beq 13 12 56)), (36, .one (.op .add 14 10 11)), (40, .one (.mv 10 11)),
      (44, .one (.mv 11 14)), (48, .one (.opImm .add 13 13 1)), (52, .one (.j 32)),
      (56, .ecall)] [] := by
  apply shown_of_shows
  have h : FIB = String.ofList _ := rfl
  rw [shows, benchProgram, Program.of, assemble, laidOut, layOut, tokenize, splitlines, h,
    String.toList_ofList]
  decide +kernel

theorem fib_measures_FIB : Measures .plain FIB [(10, 6765)] := by
  have hs := shown_FIB
  have hloop : HasFib (benchProgram .plain FIB) 32#32 := by
    constructor <;> first | exact hs.has (by decide) rfl | rfl
  have hp : FibProgram (benchProgram .plain FIB) 20 := by
    constructor <;> first | exact hs.has (by decide) rfl | exact hloop
  have hm := fib_measures hs.assembled (hs.fits (by decide)) hp (by decide)
  rwa [show ((Nat.fib 20 % 2 ^ 32 : ℕ) : ℤ) = 6765 by decide +kernel] at hm

def GCD : String := "
    li   a0, 1071
    li   a1, 462
gloop:
    beq  a0, a1, gdone
    blt  a0, a1, aless
    sub  a0, a0, a1
    j    gloop
aless:
    sub  a1, a1, a0
    j    gloop
gdone:
    ecall
"

/-- `gcd` of `a` and `b`. -/
structure GcdProgram (P : Program) (a b : ℕ) : Prop where
  left : Has P 0#32 (.li 10#5 a)
  right : Has P 8#32 (.li 11#5 b)
  loop : HasGcd P 16#32
  ecall : Has P 40#32 .ecall

/-- `gcd` leaves the greatest common divisor in `a0`. -/
theorem gcd_measures (ha : assemble py src 0 none = .ok words)
    (hf : Fits (benchProgram py src) words) (h : GcdProgram (benchProgram py src) a b)
    (h0 : 0 < a) (h1 : 0 < b) (hn : a + b ≤ 12000) :
    Measures py src [(10, (Nat.gcd a b : ℕ))] := by
  have hc : ∃ c, Steps (benchProgram py src).Step 2 (imageCpu words) c ∧ c.pc = 16#32 ∧
      c.x 10#5 = .ofNat 32 a ∧ c.x 11#5 = .ofNat 32 b :=
    ⟨_, .head (step_li h.left rfl) (.one (step_li h.right rfl)), rfl, by simp, by simp⟩
  obtain ⟨c, hs, hpc, hL, hR⟩ := hc
  have hv : ∀ k ≤ 12000, (BitVec.ofNat 32 k).toNat = k ∧ (BitVec.ofNat 32 k).toInt = k := by
    intro k hk
    have ht : (BitVec.ofNat 32 k).toNat = k := toNat_ofNat_of_lt (by omega)
    exact ⟨ht, by rw [toInt_of_small (by omega), ht]⟩
  obtain ⟨m, hm, d, hd, hdone⟩ := gcd_loop h.loop hpc
    (by rw [hL, (hv a (by omega)).2]; omega) (by rw [hR, (hv b (by omega)).2]; omega)
  rw [hL, hR, (hv a (by omega)).1, (hv b (by omega)).1] at hm hdone
  refine measures ha hf (hs.trans hd) (ends_ecall h.ecall hdone.pc) ?_ (by omega)
  intro rv hrv
  rw [List.mem_singleton] at hrv
  subst hrv
  exact congrArg Nat.cast hdone.left

set_option maxRecDepth 8000 in
theorem shown_GCD : Shown GCD 44
    [(0, .li 10 1071), (8, .li 11 462), (16, .one (.branch .beq 10 11 40)),
      (20, .one (.branch .blt 10 11 32)), (24, .one (.op .sub 10 10 11)), (28, .one (.j 16)),
      (32, .one (.op .sub 11 11 10)), (36, .one (.j 16)), (40, .ecall)] [] := by
  apply shown_of_shows
  have h : GCD = String.ofList _ := rfl
  rw [shows, benchProgram, Program.of, assemble, laidOut, layOut, tokenize, splitlines, h,
    String.toList_ofList]
  decide +kernel

theorem gcd_measures_GCD : Measures .plain GCD [(10, 21)] := by
  have hs := shown_GCD
  have hloop : HasGcd (benchProgram .plain GCD) 16#32 := by
    constructor <;> first | exact hs.has (by decide) rfl | rfl
  have hp : GcdProgram (benchProgram .plain GCD) 1071 462 := by
    constructor <;> first | exact hs.has (by decide) rfl | exact hloop
  have hm := gcd_measures hs.assembled (hs.fits (by decide)) hp (by decide) (by decide) (by decide)
  rwa [show ((Nat.gcd 1071 462 : ℕ) : ℤ) = 21 by decide +kernel] at hm

def FACTORIAL : String := "
    li   s0, 8
    li   s1, 1
floop:
    beq  s0, x0, fdone
    mv   a0, s1
    mv   a1, s0
    call mul
    mv   s1, a2
    addi s0, s0, -1
    j    floop
fdone:
    mv   a0, s1
    ecall
" ++ MUL

/-- `factorial` of `k`. -/
structure FactorialProgram (P : Program) (k : ℕ) : Prop where
  count : Has P 0#32 (.li 8#5 k)
  one : Has P 8#32 (.li 9#5 1)
  loop : HasFactorial P 16#32 56#32
  mv : Has P 48#32 (.one (.mv 10#5 9#5))
  ecall : Has P 52#32 .ecall

/-- `factorial` leaves the factorial of `k` in `a0`, up to the word size. -/
theorem factorial_measures (ha : assemble py src 0 none = .ok words)
    (hf : Fits (benchProgram py src) words) (h : FactorialProgram (benchProgram py src) k)
    (hk : k ≤ 150) : Measures py src [(10, (k.factorial % 2 ^ 32 : ℕ))] := by
  have hc : ∃ c, Steps (benchProgram py src).Step 2 (imageCpu words) c ∧ c.pc = 16#32 ∧
      c.x 8#5 = .ofNat 32 k ∧ c.x 9#5 = 1#32 :=
    ⟨_, .head (step_li h.count rfl) (.one (step_li h.one rfl)), rfl, by simp, by simp⟩
  obtain ⟨c, hs, hpc, h8, h9⟩ := hc
  obtain ⟨d, hd, hpc', h9', -⟩ := factorial_loop (k := k) h.loop hpc
    (by rw [h8, toNat_ofNat_of_lt (by omega)])
  have hq : 2 * k ^ 2 ≤ 300 * k := by
    rw [pow_two, ← mul_assoc]
    exact Nat.mul_le_mul_right k (by omega)
  refine measures ha hf (hs.trans (hd.trans (.one (step_mv h.mv hpc'))))
    (ends_ecall h.ecall (by rw [put_pc, hpc']; rfl)) ?_ (by omega)
  intro rv hrv
  rw [List.mem_singleton] at hrv
  subst hrv
  simp [h9', h9]

set_option maxRecDepth 8000 in
theorem shown_FACTORIAL : Shown FACTORIAL 84
    [(0, .li 8 8), (8, .li 9 1), (16, .one (.branch .beq 8 0 48)), (20, .one (.mv 10 9)),
      (24, .one (.mv 11 8)), (28, .call 56), (36, .one (.mv 9 12)),
      (40, .one (.opImm .add 8 8 (-1))), (44, .one (.j 16)), (48, .one (.mv 10 9)), (52, .ecall),
      (56, .li 12 0), (64, .one (.branch .beq 11 0 80)), (68, .one (.op .add 12 12 10)),
      (72, .one (.opImm .add 11 11 (-1))), (76, .one (.j 64)), (80, .one .ret)] [] := by
  apply shown_of_shows
  have h : FACTORIAL = String.ofList _ ++ String.ofList _ := rfl
  rw [shows, benchProgram, Program.of, assemble, laidOut, layOut, tokenize, splitlines, h,
    ← String.ofList_append, String.toList_ofList]
  decide +kernel

theorem factorial_measures_FACTORIAL : Measures .plain FACTORIAL [(10, 40320)] := by
  have hs := shown_FACTORIAL
  have hmul : HasMul (benchProgram .plain FACTORIAL) 56#32 := by
    constructor <;> exact hs.has (by decide) rfl
  have hloop : HasFactorial (benchProgram .plain FACTORIAL) 16#32 56#32 := by
    constructor <;> first | exact hs.has (by decide) rfl | rfl | exact hmul
  have hp : FactorialProgram (benchProgram .plain FACTORIAL) 8 := by
    constructor <;> first | exact hs.has (by decide) rfl | exact hloop
  have hm := factorial_measures hs.assembled (hs.fits (by decide)) hp (by decide)
  rwa [show ((Nat.factorial 8 % 2 ^ 32 : ℕ) : ℤ) = 40320 by decide +kernel] at hm

def SORT : String := "
    la   s0, arr
    li   s1, 8
    addi s2, s1, -1
outer:
    beq  s2, x0, sorted
    li   s3, 0
    mv   s4, s2
inner:
    beq  s4, x0, next_pass
    slli s5, s3, 2
    add  s6, s0, s5
    lw   s7, 0(s6)
    lw   s8, 4(s6)
    bge  s8, s7, no_swap
    sw   s8, 0(s6)
    sw   s7, 4(s6)
no_swap:
    addi s3, s3, 1
    addi s4, s4, -1
    j    inner
next_pass:
    addi s2, s2, -1
    j    outer
sorted:
    la   s0, arr
    lw   a0, 0(s0)
    lw   a1, 28(s0)
    ecall
.data
arr:
.word 5, 2, 8, 1, 9, 3, 7, 4
"

/-- `sort` of the `n` words at `t`. -/
structure SortProgram (P : Program) (t : Word) (n : ℕ) : Prop where
  la : Has P 0#32 (.la 8#5 t.toNat)
  length : Has P 8#32 (.li 9#5 n)
  last : Has P 16#32 (.one (.opImm .add 18#5 9#5 (-1)))
  loop : HasSort P 20#32
  la' : Has P 88#32 (.la 8#5 t.toNat)
  lwFirst : Has P 96#32 (.one (.load .lw 10#5 0 8#5))
  lwLast : Has P 100#32 (.one (.load .lw 11#5 (4 * (n - 1 : ℕ)) 8#5))
  ecall : Has P 104#32 .ecall
  array : Cells P t n

/-- A sorted arrangement starts with the least element and ends with the greatest. -/
theorem ends_of_sorted {m m' : Word → BitVec 8} {t lo top : Word}
    (hp : (elements m' t n).Perm (elements m t n))
    (hs : (elements m' t n).Pairwise fun u v => u.toInt ≤ v.toInt)
    (hlo : lo ∈ elements m t n) (hle : ∀ w ∈ elements m t n, lo.toInt ≤ w.toInt)
    (htop : top ∈ elements m t n) (hge : ∀ w ∈ elements m t n, w.toInt ≤ top.toInt) :
    element m' t 0 = lo ∧ element m' t (n - 1) = top := by
  have hmem : ∀ i < n, element m' t i ∈ elements m t n := fun i hi =>
    hp.subset (List.mem_map_of_mem (List.mem_range.mpr hi))
  have hsorted : ∀ i j, i ≤ j → j < n → (element m' t i).toInt ≤ (element m' t j).toInt := by
    intro i j hij hj
    obtain rfl | hlt := hij.eq_or_lt
    · exact le_rfl
    · have hget := List.pairwise_iff_getElem.mp hs i j (by simp [elements]; omega)
        (by simpa [elements] using hj) hlt
      simpa [elements] using hget
  obtain ⟨i, hi, rfl⟩ := List.mem_map.mp (hp.symm.subset hlo)
  obtain ⟨j, hj, rfl⟩ := List.mem_map.mp (hp.symm.subset htop)
  rw [List.mem_range] at hi hj
  exact ⟨BitVec.eq_of_toInt_eq (le_antisymm (hsorted 0 i (Nat.zero_le i) hi) (hle _ (hmem 0
    (by omega)))), BitVec.eq_of_toInt_eq (le_antisymm (hge _ (hmem (n - 1) (by omega)))
    (hsorted j (n - 1) (by omega) (by omega)))⟩

/-- `sort` leaves the least and the greatest word in `a0` and `a1`. -/
theorem sort_measures {t lo top : Word} (ha : assemble py src 0 none = .ok words)
    (hf : Fits (benchProgram py src) words) (h : SortProgram (benchProgram py src) t n)
    (h0 : 0 < n) (hn : n ≤ 90) (hlo : lo ∈ elements (imageCpu words).mem t n)
    (hle : ∀ w ∈ elements (imageCpu words).mem t n, lo.toInt ≤ w.toInt)
    (htop : top ∈ elements (imageCpu words).mem t n)
    (hge : ∀ w ∈ elements (imageCpu words).mem t n, w.toInt ≤ top.toInt) :
    Measures py src [(10, lo.toNat), (11, top.toNat)] := by
  have hc : ∃ c, Steps (benchProgram py src).Step 3 (imageCpu words) c ∧ c.pc = 20#32 ∧
      c.x 8#5 = t ∧ c.x 18#5 = .ofNat 32 n - 1#32 ∧ c.mem = (imageCpu words).mem := by
    refine ⟨_, .head (step_la h.la rfl) (.head (step_li h.length rfl) (.one (step_opImm h.last
      rfl))), rfl, ?_, ?_, rfl⟩
    · simp [-BitVec.ofInt_natCast, ofInt_toNat]
    · simp [Op.eval, add_neg_one]
  obtain ⟨c, hs, hpc, h8, h18, hm⟩ := hc
  have hv : (BitVec.ofNat 32 n).toNat = n := toNat_ofNat_of_lt (by omega)
  have hlast : (c.x 18#5).toNat + 1 = n := by
    rw [h18, toNat_sub_of_le (by rw [hv]; exact h0), hv]
    exact Nat.sub_add_cancel h0
  obtain ⟨m, hm', d, hd, hpc', hperm, hsorted, -, -⟩ := sort_loop h.loop (h8 ▸ h.array) hpc hlast
  rw [h8, hm] at hperm
  rw [h8] at hsorted
  obtain ⟨hfirst, hend⟩ := ends_of_sorted hperm hsorted hlo hle htop hge
  have hat : ∀ i < n, (slot t i).toNat % 4 = 0 ∧ (slot t i).toNat + 4 ≤ (benchProgram py src).hi :=
    fun i hi => ⟨(h.array.data i hi).aligned, (h.array.data i hi).inside⟩
  have he : ∃ e, Steps (benchProgram py src).Step 3 d e ∧ e.pc = 104#32 ∧ e.x 10#5 = lo ∧
      e.x 11#5 = top := by
    have s₁ := step_la h.la' hpc'
    rw [ofInt_toNat] at s₁
    have s₂ := step_lw h.lwFirst (c := put d 8#5 t 8#32) (a := slot t 0) (by rw [put_pc, hpc']; rfl)
      (by simp [slot]) (hat 0 h0).1 (hat 0 h0).2
    have s₃ := step_lw h.lwLast (c := put (put d 8#5 t 8#32) 10#5 (loadValue d.mem (slot t 0) .lw)
      4#32) (a := slot t (n - 1)) (by rw [put_pc, put_pc, hpc']; rfl) (by simp [slot]; rfl)
      (hat (n - 1) (by omega)).1 (hat (n - 1) (by omega)).2
    refine ⟨_, .head s₁ (.head s₂ (.one s₃)), ?_, ?_, ?_⟩
    · rw [put_pc, put_pc, put_pc, hpc']
      rfl
    · simpa [element] using hfirst
    · simpa [element] using hend
  have hq : 6 * (n * n) ≤ 540 * n := by
    rw [← mul_assoc]
    exact Nat.mul_le_mul_right n (by omega)
  obtain ⟨e, he, hpc'', h10, h11⟩ := he
  refine measures ha hf (hs.trans (hd.trans he)) (ends_ecall h.ecall hpc'') ?_ (by omega)
  intro rv hrv
  rw [List.mem_cons, List.mem_singleton] at hrv
  rcases hrv with rfl | rfl
  · exact congrArg (fun w : Word => (w.toNat : ℤ)) h10
  · exact congrArg (fun w : Word => (w.toNat : ℤ)) h11

set_option maxRecDepth 8000 in
theorem shown_SORT : Shown SORT 108
    [(0, .la 8 108), (8, .li 9 8), (16, .one (.opImm .add 18 9 (-1))),
      (20, .one (.branch .beq 18 0 88)), (24, .li 19 0), (32, .one (.mv 20 18)),
      (36, .one (.branch .beq 20 0 80)), (40, .one (.opImm .sll 21 19 2)),
      (44, .one (.op .add 22 8 21)), (48, .one (.load .lw 23 0 22)), (52, .one (.load .lw 24 4 22)),
      (56, .one (.branch .bge 24 23 68)), (60, .one (.store .sw 24 0 22)),
      (64, .one (.store .sw 23 4 22)), (68, .one (.opImm .add 19 19 1)),
      (72, .one (.opImm .add 20 20 (-1))), (76, .one (.j 36)), (80, .one (.opImm .add 18 18 (-1))),
      (84, .one (.j 20)), (88, .la 8 108), (96, .one (.load .lw 10 0 8)),
      (100, .one (.load .lw 11 28 8)), (104, .ecall)] [5, 2, 8, 1, 9, 3, 7, 4] := by
  apply shown_of_shows
  have h : SORT = String.ofList _ := rfl
  rw [shows, benchProgram, Program.of, assemble, laidOut, layOut, tokenize, splitlines, h,
    String.toList_ofList]
  decide +kernel

theorem sort_measures_SORT : Measures .plain SORT [(10, 1), (11, 9)] := by
  have hs := shown_SORT
  have hloop : HasSort (benchProgram .plain SORT) 20#32 := by
    constructor <;> first | exact hs.has (by decide) rfl | rfl
  have hp : SortProgram (benchProgram .plain SORT) 108#32 8 := by
    constructor <;> first | exact hs.has (by decide) rfl | exact hloop |
      exact hs.cells rfl (by decide) (by decide) (by decide) (by decide)
  have hm : elements (imageCpu (wordsOf SORT)).mem 108#32 8 = [5#32, 2#32, 8#32, 1#32, 9#32, 3#32,
      7#32, 4#32] := by
    have hw : ∀ i ∈ List.range 8, element (imageCpu (wordsOf SORT)).mem 108#32 i = _ := fun i hi =>
      (element_imageCpu hp.array (List.mem_range.mp hi)).trans (hs.word i rfl)
    exact (List.map_congr_left hw).trans (by decide)
  have hall := sort_measures hs.assembled (hs.fits (by decide)) hp (by decide) (by decide)
    (show 1#32 ∈ elements (imageCpu (wordsOf SORT)).mem 108#32 8 by rw [hm]; simp)
    (by rw [hm]; simp)
    (show 9#32 ∈ elements (imageCpu (wordsOf SORT)).mem 108#32 8 by rw [hm]; simp)
    (by rw [hm]; simp)
  exact hall

/-- `matvec` leaves the first three elements of the product in `a0`, `a1` and `a3`. -/
theorem matvec_measures {p v q : Word} (ha : assemble py src 0 none = .ok words)
    (hf : Fits (benchProgram py src) words) (h : MatvecProgram (benchProgram py src) p v q n)
    (h3 : 3 ≤ n) (hn : n * rowLines (imageCpu words).mem v n ≤ 49000) :
    Measures py src [(10, (rowProduct (imageCpu words).mem p v n 0).toNat),
      (11, (rowProduct (imageCpu words).mem p v n 1).toNat),
      (13, (rowProduct (imageCpu words).mem p v n 2).toNat)] := by
  have hle : n ≤ 49000 := by
    refine le_trans ?_ hn
    exact Nat.le_mul_of_pos_right n (by rw [rowLines]; omega)
  obtain ⟨c, hs, he, h10, h11, h13⟩ := matvec_run words h h3 (by omega)
  refine measures ha hf hs he ?_ (by omega)
  intro rv hrv
  simp only [List.mem_cons, List.not_mem_nil, or_false] at hrv
  rcases hrv with rfl | rfl | rfl
  · exact congrArg (fun w : Word => (w.toNat : ℤ)) h10
  · exact congrArg (fun w : Word => (w.toNat : ℤ)) h11
  · exact congrArg (fun w : Word => (w.toNat : ℤ)) h13

theorem matvec_measures_MATVEC :
    Measures .plain MATVEC [(10, 6), (11, 15), (13, 24)] := by
  have hlines : 3 * rowLines (imageCpu (wordsOf MATVEC)).mem 204#32 3 ≤ 49000 := by
    rw [rowLines_MATVEC]
    decide
  have hm := matvec_measures shown_MATVEC.assembled fits_MATVEC
    (matvecProgram_MATVEC _ _ (by decide) (by decide) (by decide)) le_rfl hlines
  rw [rowProduct_MATVEC (by decide), rowProduct_MATVEC (by decide),
    rowProduct_MATVEC (by decide)] at hm
  exact hm

end Runs
end RiscForge.Benchmarks
