import RiscForge.Assembler.Encode
import RiscForge.Refmodel.Bits

/-! The words the field packers build, and the fields and immediates they decode to. -/
namespace RiscForge.Assembler

open Lib Rtl

section Masks
variable (x : ℤ)

/-- A shifted and masked field of an integer is one of any of its bit vectors. -/
theorem shr_and_mask {k n m : ℕ} (h : k + n ≤ m) :
    x >>> k &&& ((2 ^ n - 1 : ℕ) : ℤ) = (((BitVec.ofInt m x).extractLsb' k n).toNat : ℤ) := by
  have hb : BitVec.ofInt n (x >>> k) = (BitVec.ofInt m x).extractLsb' k n := by
    apply BitVec.eq_of_getLsbD_eq
    intro i hi
    rw [getLsbD_ofInt, BitVec.getLsbD_extractLsb', getLsbD_ofInt]
    have ht : (x >>> k).testBit i = x.testBit (k + i) := by
      cases x with
      | ofNat a =>
        change (a >>> k).testBit i = a.testBit (k + i)
        rw [Nat.testBit_shiftRight]
      | negSucc a =>
        change (!(a >>> k).testBit i) = !a.testBit (k + i)
        rw [Nat.testBit_shiftRight]
    rw [ht]
    simp [hi, show k + i < m by omega]
  rw [and_mask, hb]

theorem and_mask_low {n m : ℕ} (h : n ≤ m) :
    x &&& ((2 ^ n - 1 : ℕ) : ℤ) = (((BitVec.ofInt m x).extractLsb' 0 n).toNat : ℤ) := by
  rw [← shr_and_mask x (k := 0) (by omega), Int.shiftRight_zero]

theorem and_mask5 : x &&& 0x1F = ((BitVec.ofInt 5 x).toNat : ℤ) := and_mask x (w := 5)
theorem and_mask3 : x &&& 0x7 = ((BitVec.ofInt 3 x).toNat : ℤ) := and_mask x (w := 3)
theorem and_mask7 : x &&& 0x7F = ((BitVec.ofInt 7 x).toNat : ℤ) := and_mask x (w := 7)

end Masks

section Words

/-- The fields of an R-type word; the other formats divide it elsewhere. -/
def rWord (f7 : BitVec 7) (rs2 rs1 : BitVec 5) (f3 : BitVec 3) (rd : BitVec 5)
    (opc : BitVec 7) : Word := f7 ++ (rs2 ++ (rs1 ++ (f3 ++ (rd ++ opc))))

variable (f7 : BitVec 7) (rs2 rs1 : BitVec 5) (f3 : BitVec 3) (rd : BitVec 5) (opc : BitVec 7)

theorem opcode_rWord : (rWord f7 rs2 rs1 f3 rd opc).extractLsb' 0 7 = opc := by
  rw [rWord, BitVec.extractLsb'_append_eq_of_add_le (by decide),
    BitVec.extractLsb'_append_eq_of_add_le (by decide),
    BitVec.extractLsb'_append_eq_of_add_le (by decide),
    BitVec.extractLsb'_append_eq_of_add_le (by decide), BitVec.extractLsb'_append_eq_right]

theorem rdIdx_rWord : rdIdx (rWord f7 rs2 rs1 f3 rd opc) = rd := by
  rw [rWord, rdIdx, BitVec.extractLsb'_append_eq_of_add_le (by decide),
    BitVec.extractLsb'_append_eq_of_add_le (by decide),
    BitVec.extractLsb'_append_eq_of_add_le (by decide),
    BitVec.extractLsb'_append_eq_of_add_le (by decide), BitVec.extractLsb'_append_eq_left]

theorem funct3_rWord : funct3 (rWord f7 rs2 rs1 f3 rd opc) = f3 := by
  rw [rWord, funct3, BitVec.extractLsb'_append_eq_of_add_le (by decide),
    BitVec.extractLsb'_append_eq_of_add_le (by decide),
    BitVec.extractLsb'_append_eq_of_add_le (by decide)]
  exact BitVec.extractLsb'_append_eq_left

theorem rs1Idx_rWord : rs1Idx (rWord f7 rs2 rs1 f3 rd opc) = rs1 := by
  rw [rWord, rs1Idx, BitVec.extractLsb'_append_eq_of_add_le (by decide),
    BitVec.extractLsb'_append_eq_of_add_le (by decide)]
  exact BitVec.extractLsb'_append_eq_left

theorem rs2Idx_rWord : rs2Idx (rWord f7 rs2 rs1 f3 rd opc) = rs2 := by
  rw [rWord, rs2Idx, BitVec.extractLsb'_append_eq_of_add_le (by decide)]
  exact BitVec.extractLsb'_append_eq_left

theorem funct7_rWord : funct7 (rWord f7 rs2 rs1 f3 rd opc) = f7 :=
  BitVec.extractLsb'_append_eq_left

theorem rWord_fields (w : Word) :
    rWord (funct7 w) (rs2Idx w) (rs1Idx w) (funct3 w) (rdIdx w) (w.extractLsb' 0 7) = w := by
  have h1 : rdIdx w ++ w.extractLsb' 0 7 = w.extractLsb' 0 12 :=
    BitVec.extractLsb'_append_extractLsb'_eq_extractLsb' rfl
  have h2 : funct3 w ++ w.extractLsb' 0 12 = w.extractLsb' 0 15 :=
    BitVec.extractLsb'_append_extractLsb'_eq_extractLsb' rfl
  have h3 : rs1Idx w ++ w.extractLsb' 0 15 = w.extractLsb' 0 20 :=
    BitVec.extractLsb'_append_extractLsb'_eq_extractLsb' rfl
  have h4 : rs2Idx w ++ w.extractLsb' 0 20 = w.extractLsb' 0 25 :=
    BitVec.extractLsb'_append_extractLsb'_eq_extractLsb' rfl
  rw [rWord, h1, h2, h3, h4]
  exact BitVec.extractLsb'_append_extractLsb'

theorem toNat_rWord : (rWord f7 rs2 rs1 f3 rd opc).toNat =
    f7.toNat <<< 25 ||| rs2.toNat <<< 20 ||| rs1.toNat <<< 15 ||| f3.toNat <<< 12 |||
      rd.toNat <<< 7 ||| opc.toNat := by
  rw [rWord, BitVec.toNat_append, BitVec.toNat_append, BitVec.toNat_append, BitVec.toNat_append,
    BitVec.toNat_append]
  simp only [Nat.or_assoc]

/-- The fields of a U- or J-type word. -/
def uWord (top : BitVec 20) (rd : BitVec 5) (opc : BitVec 7) : Word := top ++ (rd ++ opc)

variable (top : BitVec 20)

theorem opcode_uWord : (uWord top rd opc).extractLsb' 0 7 = opc := by
  rw [uWord, BitVec.extractLsb'_append_eq_of_add_le (by decide)]
  exact BitVec.extractLsb'_append_eq_right

theorem rdIdx_uWord : rdIdx (uWord top rd opc) = rd := by
  rw [uWord, rdIdx, BitVec.extractLsb'_append_eq_of_add_le (by decide)]
  exact BitVec.extractLsb'_append_eq_left

theorem extract_uWord (k n : ℕ) :
    (uWord top rd opc).extractLsb' (12 + k) n = top.extractLsb' k n := by
  rw [uWord, BitVec.extractLsb'_append_eq_of_le (by omega), Nat.add_sub_cancel_left]

theorem uWord_fields (w : Word) :
    uWord (w.extractLsb' 12 20) (rdIdx w) (w.extractLsb' 0 7) = w := by
  have h1 : rdIdx w ++ w.extractLsb' 0 7 = w.extractLsb' 0 12 :=
    BitVec.extractLsb'_append_extractLsb'_eq_extractLsb' rfl
  rw [uWord, h1]
  exact BitVec.extractLsb'_append_extractLsb'

theorem toNat_uWord :
    (uWord top rd opc).toNat = top.toNat <<< 12 ||| rd.toNat <<< 7 ||| opc.toNat := by
  rw [uWord, BitVec.toNat_append, BitVec.toNat_append, Nat.or_assoc]

variable (i12 : BitVec 12) (i13 : BitVec 13) (i21 : BitVec 21)

/-- The words of the formats with an immediate, which the upper fields share out. -/
def iWord : Word := rWord (i12.extractLsb' 5 7) (i12.extractLsb' 0 5) rs1 f3 rd opc

def sWord : Word := rWord (i12.extractLsb' 5 7) rs2 rs1 f3 (i12.extractLsb' 0 5) opc

def bWord : Word :=
  rWord (i13.extractLsb' 12 1 ++ i13.extractLsb' 5 6) rs2 rs1 f3
    (i13.extractLsb' 1 4 ++ i13.extractLsb' 11 1) opc

def jWord : Word :=
  uWord (i21.extractLsb' 20 1 ++ (i21.extractLsb' 1 10 ++
    (i21.extractLsb' 11 1 ++ i21.extractLsb' 12 8))) rd opc

end Words

section Immediates

/-- A part of a part of a word. -/
theorem extract_extract {m a n k l : ℕ} (w : BitVec m) (h : k + l ≤ n) :
    (w.extractLsb' a n).extractLsb' k l = w.extractLsb' (a + k) l := by
  apply BitVec.eq_of_getLsbD_eq
  intro i hi
  rw [BitVec.getLsbD_extractLsb', BitVec.getLsbD_extractLsb', BitVec.getLsbD_extractLsb']
  simp [hi, show k + i < n by omega, Nat.add_assoc]

theorem append_assoc5 {k l m n p : ℕ} (a : BitVec k) (b : BitVec l) (c : BitVec m) (d : BitVec n)
    (e : BitVec p) :
    (a ++ (b ++ (c ++ d)) ++ e) = (a ++ (b ++ (c ++ (d ++ e)))).cast (by omega) := by
  apply BitVec.eq_of_toNat_eq
  simp only [BitVec.toNat_cast, BitVec.toNat_append, Nat.shiftLeft_or_distrib,
    ← Nat.shiftLeft_add, Nat.or_assoc, Nat.add_assoc]

variable (rs2 rs1 : BitVec 5) (f3 : BitVec 3) (rd : BitVec 5) (opc : BitVec 7)
  (i12 : BitVec 12) (i13 : BitVec 13) (i21 : BitVec 21)

theorem rdIdx_iWord : rdIdx (iWord rs1 f3 rd opc i12) = rd := rdIdx_rWord ..
theorem rs1Idx_iWord : rs1Idx (iWord rs1 f3 rd opc i12) = rs1 := rs1Idx_rWord ..
theorem funct3_iWord : funct3 (iWord rs1 f3 rd opc i12) = f3 := funct3_rWord ..

theorem immI_iWord : immI (iWord rs1 f3 rd opc i12) = i12.signExtend 32 := by
  have h : ∀ w : Word, funct7 w ++ rs2Idx w = w.extractLsb' 20 12 := fun w =>
    BitVec.extractLsb'_append_extractLsb'_eq_extractLsb' rfl
  rw [Refmodel.immI_signExtend, ← h, iWord, funct7_rWord, rs2Idx_rWord]
  exact congrArg _ BitVec.extractLsb'_append_extractLsb'

theorem immS_sWord : immS (sWord rs2 rs1 f3 opc i12) = i12.signExtend 32 := by
  have h : ∀ w : Word, w.extractLsb' 25 7 ++ w.extractLsb' 7 5 = funct7 w ++ rdIdx w := fun _ => rfl
  rw [Refmodel.immS_signExtend, h, sWord, funct7_rWord, rdIdx_rWord]
  exact congrArg _ BitVec.extractLsb'_append_extractLsb'

/-- The B-type word keeps all of its immediate but bit 0. -/
theorem immB_bWord : immB (bWord rs2 rs1 f3 opc i13) =
    (i13.extractLsb' 1 12 ++ 0#1).signExtend 32 := by
  have h7 : ∀ w : Word, ∀ k l, k + l ≤ 7 → w.extractLsb' (25 + k) l = (funct7 w).extractLsb' k l :=
    fun w k l h => (extract_extract w h).symm
  have h5 : ∀ w : Word, ∀ k l, k + l ≤ 5 → w.extractLsb' (7 + k) l = (rdIdx w).extractLsb' k l :=
    fun w k l h => (extract_extract w h).symm
  have e31 := h7 (bWord rs2 rs1 f3 opc i13) 6 1 (by omega)
  have e25 := h7 (bWord rs2 rs1 f3 opc i13) 0 6 (by omega)
  have e8 := h5 (bWord rs2 rs1 f3 opc i13) 1 4 (by omega)
  have e7 := h5 (bWord rs2 rs1 f3 opc i13) 0 1 (by omega)
  rw [bWord, funct7_rWord, ← bWord] at e31 e25
  rw [bWord, rdIdx_rWord, ← bWord] at e8 e7
  rw [BitVec.extractLsb'_append_eq_left] at e31 e8
  rw [BitVec.extractLsb'_append_eq_right] at e25 e7
  have j1 : i13.extractLsb' 5 6 ++ i13.extractLsb' 1 4 = i13.extractLsb' 1 10 :=
    BitVec.extractLsb'_append_extractLsb'_eq_extractLsb' rfl
  have j2 : i13.extractLsb' 11 1 ++ i13.extractLsb' 1 10 = i13.extractLsb' 1 11 :=
    BitVec.extractLsb'_append_extractLsb'_eq_extractLsb' rfl
  have j3 : i13.extractLsb' 12 1 ++ i13.extractLsb' 1 11 = i13.extractLsb' 1 12 :=
    BitVec.extractLsb'_append_extractLsb'_eq_extractLsb' rfl
  rw [Refmodel.immB_signExtend, e31, e25, e8, e7, ← j3, ← j2, ← j1]
  exact congrArg (BitVec.signExtend 32) (append_assoc5 _ _ _ _ _).symm

/-- The J-type word keeps all of its immediate but bit 0. -/
theorem immJ_jWord : immJ (jWord rd opc i21) = (i21.extractLsb' 1 20 ++ 0#1).signExtend 32 := by
  have e31 := extract_uWord rd opc (i21.extractLsb' 20 1 ++ (i21.extractLsb' 1 10 ++
    (i21.extractLsb' 11 1 ++ i21.extractLsb' 12 8))) 19 1
  have e21 := extract_uWord rd opc (i21.extractLsb' 20 1 ++ (i21.extractLsb' 1 10 ++
    (i21.extractLsb' 11 1 ++ i21.extractLsb' 12 8))) 9 10
  have e20 := extract_uWord rd opc (i21.extractLsb' 20 1 ++ (i21.extractLsb' 1 10 ++
    (i21.extractLsb' 11 1 ++ i21.extractLsb' 12 8))) 8 1
  have e12 := extract_uWord rd opc (i21.extractLsb' 20 1 ++ (i21.extractLsb' 1 10 ++
    (i21.extractLsb' 11 1 ++ i21.extractLsb' 12 8))) 0 8
  rw [← jWord] at e31 e21 e20 e12
  rw [BitVec.extractLsb'_append_eq_left] at e31
  rw [BitVec.extractLsb'_append_eq_of_add_le (by decide), BitVec.extractLsb'_append_eq_left] at e21
  rw [BitVec.extractLsb'_append_eq_of_add_le (by decide),
    BitVec.extractLsb'_append_eq_of_add_le (by decide), BitVec.extractLsb'_append_eq_left] at e20
  rw [BitVec.extractLsb'_append_eq_of_add_le (by decide),
    BitVec.extractLsb'_append_eq_of_add_le (by decide), BitVec.extractLsb'_append_eq_right] at e12
  have j1 : i21.extractLsb' 11 1 ++ i21.extractLsb' 1 10 = i21.extractLsb' 1 11 :=
    BitVec.extractLsb'_append_extractLsb'_eq_extractLsb' rfl
  have j2 : i21.extractLsb' 12 8 ++ i21.extractLsb' 1 11 = i21.extractLsb' 1 19 :=
    BitVec.extractLsb'_append_extractLsb'_eq_extractLsb' rfl
  have j3 : i21.extractLsb' 20 1 ++ i21.extractLsb' 1 19 = i21.extractLsb' 1 20 :=
    BitVec.extractLsb'_append_extractLsb'_eq_extractLsb' rfl
  rw [Refmodel.immJ_signExtend, e31, e21, e20, e12, ← j3, ← j2, ← j1]
  exact congrArg (BitVec.signExtend 32) (append_assoc5 _ _ _ _ _).symm

theorem immU_uWord (top : BitVec 20) : immU (uWord top rd opc) = top ++ 0#12 := by
  have h := extract_uWord rd opc top 0 20
  rw [immU, h, BitVec.extractLsb'_eq_self]

end Immediates

section Packers
variable (opcode rd f3 rs1 rs2 f7 imm : ℤ)

theorem rType_eq : rType opcode rd f3 rs1 rs2 f7 =
    ((rWord (.ofInt 7 f7) (.ofInt 5 rs2) (.ofInt 5 rs1) (.ofInt 3 f3) (.ofInt 5 rd)
      (.ofInt 7 opcode)).toNat : ℤ) := by
  rw [toNat_rWord, rType, and_mask7, and_mask7, and_mask5, and_mask5, and_mask5, and_mask3,
    shl_ofNat, shl_ofNat, shl_ofNat, shl_ofNat, shl_ofNat]
  rfl

theorem iType_eq : iType opcode rd f3 rs1 imm =
    ((iWord (.ofInt 5 rs1) (.ofInt 3 f3) (.ofInt 5 rd) (.ofInt 7 opcode) (.ofInt 12 imm)).toNat :
      ℤ) := by
  have hm : imm &&& 0xFFF = ((BitVec.ofInt 12 imm).toNat : ℤ) := and_mask imm (w := 12)
  rw [iWord, toNat_rWord, iType, hm, and_mask7, and_mask5, and_mask5, and_mask3,
    shl_ofNat, shl_ofNat, shl_ofNat, shl_ofNat]
  generalize BitVec.ofInt 12 imm = b
  have hb : b.toNat <<< 20 =
      (b.extractLsb' 5 7).toNat <<< 25 ||| (b.extractLsb' 0 5).toNat <<< 20 := by
    have hs : b.extractLsb' 5 7 ++ b.extractLsb' 0 5 = b := BitVec.extractLsb'_append_extractLsb'
    conv_lhs => rw [← hs, BitVec.toNat_append, Nat.shiftLeft_or_distrib, ← Nat.shiftLeft_add]
  rw [← hb]
  rfl

theorem sType_eq : sType opcode f3 rs1 rs2 imm =
    ((sWord (.ofInt 5 rs2) (.ofInt 5 rs1) (.ofInt 3 f3) (.ofInt 7 opcode)
      (.ofInt 12 imm)).toNat : ℤ) := by
  have hhi : imm >>> 5 &&& 0x7F = (((BitVec.ofInt 12 imm).extractLsb' 5 7).toNat : ℤ) := by
    rw [shr_ofNat]
    exact shr_and_mask imm (k := 5) (n := 7) (by omega)
  have hlo : imm &&& 0x1F = (((BitVec.ofInt 12 imm).extractLsb' 0 5).toNat : ℤ) :=
    and_mask_low imm (n := 5) (by omega)
  simp only [sType, sWord, toNat_rWord]
  rw [hhi, hlo, and_mask7, and_mask5, and_mask5, and_mask3, shl_ofNat, shl_ofNat, shl_ofNat,
    shl_ofNat, shl_ofNat]
  rfl

theorem bType_eq : bType opcode f3 rs1 rs2 imm =
    ((bWord (.ofInt 5 rs2) (.ofInt 5 rs1) (.ofInt 3 f3) (.ofInt 7 opcode)
      (.ofInt 13 imm)).toNat : ℤ) := by
  have hf : ∀ k n : ℕ, k + n ≤ 13 → imm >>> k &&& ((2 ^ n - 1 : ℕ) : ℤ) =
      (((BitVec.ofInt 13 imm).extractLsb' k n).toNat : ℤ) := fun k n h => shr_and_mask imm h
  have h12 : imm >>> 12 &&& 1 = (((BitVec.ofInt 13 imm).extractLsb' 12 1).toNat : ℤ) := by
    rw [shr_ofNat]
    exact hf 12 1 (by omega)
  have h11 : imm >>> 11 &&& 1 = (((BitVec.ofInt 13 imm).extractLsb' 11 1).toNat : ℤ) := by
    rw [shr_ofNat]
    exact hf 11 1 (by omega)
  have h5 : imm >>> 5 &&& 0x3F = (((BitVec.ofInt 13 imm).extractLsb' 5 6).toNat : ℤ) := by
    rw [shr_ofNat]
    exact hf 5 6 (by omega)
  have h1 : imm >>> 1 &&& 0xF = (((BitVec.ofInt 13 imm).extractLsb' 1 4).toNat : ℤ) := by
    rw [shr_ofNat]
    exact hf 1 4 (by omega)
  simp only [bType, bWord, toNat_rWord]
  rw [h12, h11, h5, h1, and_mask7, and_mask5, and_mask5, and_mask3, shl_ofNat, shl_ofNat,
    shl_ofNat, shl_ofNat, shl_ofNat, shl_ofNat, shl_ofNat, BitVec.toNat_append,
    BitVec.toNat_append, Nat.shiftLeft_or_distrib, Nat.shiftLeft_or_distrib,
    ← Nat.shiftLeft_add, ← Nat.shiftLeft_add]
  repeat rw [natCast_shiftLeft]
  repeat rw [natCast_or]
  simp only [Nat.or_assoc]

theorem uType_eq : uType opcode rd imm =
    ((uWord (.ofInt 20 imm) (.ofInt 5 rd) (.ofInt 7 opcode)).toNat : ℤ) := by
  have hm : imm &&& 0xFFFFF = ((BitVec.ofInt 20 imm).toNat : ℤ) := and_mask imm (w := 20)
  rw [toNat_uWord, uType, hm, and_mask7, and_mask5, shl_ofNat, shl_ofNat]
  rfl

theorem jType_eq : jType opcode rd imm =
    ((jWord (.ofInt 5 rd) (.ofInt 7 opcode) (.ofInt 21 imm)).toNat : ℤ) := by
  have hf : ∀ k n : ℕ, k + n ≤ 21 → imm >>> k &&& ((2 ^ n - 1 : ℕ) : ℤ) =
      (((BitVec.ofInt 21 imm).extractLsb' k n).toNat : ℤ) := fun k n h => shr_and_mask imm h
  have h20 : imm >>> 20 &&& 1 = (((BitVec.ofInt 21 imm).extractLsb' 20 1).toNat : ℤ) := by
    rw [shr_ofNat]
    exact hf 20 1 (by omega)
  have h12 : imm >>> 12 &&& 0xFF = (((BitVec.ofInt 21 imm).extractLsb' 12 8).toNat : ℤ) := by
    rw [shr_ofNat]
    exact hf 12 8 (by omega)
  have h11 : imm >>> 11 &&& 1 = (((BitVec.ofInt 21 imm).extractLsb' 11 1).toNat : ℤ) := by
    rw [shr_ofNat]
    exact hf 11 1 (by omega)
  have h1 : imm >>> 1 &&& 0x3FF = (((BitVec.ofInt 21 imm).extractLsb' 1 10).toNat : ℤ) := by
    rw [shr_ofNat]
    exact hf 1 10 (by omega)
  simp only [jType, jWord, toNat_uWord]
  rw [h20, h12, h11, h1, and_mask7, and_mask5, shl_ofNat, shl_ofNat, shl_ofNat, shl_ofNat,
    shl_ofNat, BitVec.toNat_append, BitVec.toNat_append, BitVec.toNat_append,
    Nat.shiftLeft_or_distrib, Nat.shiftLeft_or_distrib, Nat.shiftLeft_or_distrib,
    ← Nat.shiftLeft_add, ← Nat.shiftLeft_add, ← Nat.shiftLeft_add]
  repeat rw [natCast_shiftLeft]
  repeat rw [natCast_or]
  simp only [Nat.or_assoc]

end Packers
end RiscForge.Assembler
