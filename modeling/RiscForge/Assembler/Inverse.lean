import RiscForge.Assembler.Accepted
import RiscForge.Assembler.Fields
import RiscForge.Lib.Align

/-! The field packers and the two decoders are inverse to one another. -/
namespace RiscForge.Assembler

open Lib Rtl Refmodel

section Fields

/-- A number of `n` bits. -/
def Field (n : ℕ) (x : ℤ) : Prop := 0 ≤ x ∧ x < 2 ^ n

theorem Field.toNat {n : ℕ} {x : ℤ} (h : Field n x) : ((BitVec.ofInt n x).toNat : ℤ) = x := by
  rw [BitVec.toNat_ofInt, Int.toNat_of_nonneg (Int.emod_nonneg _ (by positivity))]
  exact_mod_cast Int.emod_eq_of_lt h.1 h.2

/-- The value of a signed field. -/
theorem toInt_ofInt_of_range {n : ℕ} {v : ℤ} (h : -2 ^ n ≤ v ∧ v < 2 ^ n) :
    (BitVec.ofInt (n + 1) v).toInt = v := by
  rw [BitVec.toInt_ofInt]
  apply Int.bmod_eq_of_le_mul_two
  · push_cast
    rw [pow_succ]
    omega
  · push_cast
    rw [pow_succ]
    omega

/-- Dropping bit 0 of a signed field. -/
theorem drop_bit (n : ℕ) (v : ℤ) :
    (BitVec.ofInt (n + 1) v).extractLsb' 1 n ++ 0#1 = BitVec.ofInt (n + 1) (v - v % 2) := by
  have hv : v - v % 2 = v &&& ~~~1 := (and_not_mask v 1).symm
  apply BitVec.eq_of_getLsbD_eq
  intro i hi
  rw [hv, getLsbD_ofInt, testBit_and, BitVec.getLsbD_append]
  cases i with
  | zero =>
    have h0 : Int.testBit (~~~1) 0 = false := rfl
    rw [h0, Bool.and_false, Bool.and_false, if_pos (by omega)]
    rfl
  | succ i =>
    have h1 : Int.testBit (~~~1) (i + 1) = true := by
      change (!(1 : ℕ).testBit (i + 1)) = true
      rw [Nat.testBit_succ]
      simp
    rw [h1, if_neg (by omega), BitVec.getLsbD_extractLsb', getLsbD_ofInt]
    simp [show i < n by omega, Nat.add_comm 1 i]

end Fields

/-- `fit_signed` takes `v` as a signed field of `n` bits, and `P` holds of the field. -/
def Fits (n : ℕ) (v : ℤ) (P : ℤ → Prop) : Prop :=
  ∀ lineno src what, ∃ r, fitSigned v lineno src what n = .ok r ∧ P r

theorem Fits.of_range {n : ℕ} {v : ℤ} {P : ℤ → Prop} (h : -2 ^ n ≤ v ∧ v < 2 ^ n)
    (hp : P ((BitVec.ofInt (n + 1) v).toNat : ℤ)) : Fits (n + 1) v P :=
  fun _ _ _ => ⟨_, fitSigned_eq_ok.mpr ⟨h, rfl⟩, hp⟩

section Read
variable {opcode rd f3 rs1 rs2 f7 v : ℤ}

/-- The fields that `step` takes from the word a packer builds, and its immediate. -/
theorem rType_fields (ho : Field 7 opcode) (hrd : Field 5 rd) (hf : Field 3 f3)
    (h1 : Field 5 rs1) (h2 : Field 5 rs2) (h7 : Field 7 f7) :
    let w := rType opcode rd f3 rs1 rs2 f7
    opcodeField w = opcode ∧ rdField w = rd ∧ funct3Field w = f3 ∧ rs1Field w = rs1 ∧
      rs2Field w = rs2 ∧ funct7Field w = f7 := by
  intro w
  simp only [w, rType_eq, opcodeField_eq, rdField_eq, funct3Field_eq, rs1Field_eq, rs2Field_eq,
    funct7Field_eq, opcode_rWord, rdIdx_rWord, funct3_rWord, rs1Idx_rWord, rs2Idx_rWord,
    funct7_rWord]
  exact ⟨ho.toNat, hrd.toNat, hf.toNat, h1.toNat, h2.toNat, h7.toNat⟩

theorem toInt_signExtend {n : ℕ} (hn : n + 1 ≤ 32) (h : -2 ^ n ≤ v ∧ v < 2 ^ n) :
    ((BitVec.ofInt (n + 1) v).signExtend 32).toInt = v := by
  rw [BitVec.toInt_signExtend_of_le hn, toInt_ofInt_of_range h]

theorem iType_fields (ho : Field 7 opcode) (hrd : Field 5 rd) (hf : Field 3 f3)
    (h1 : Field 5 rs1) (hv : -2 ^ 11 ≤ v ∧ v < 2 ^ 11) :
    Fits 12 v fun imm12 =>
      let w := iType opcode rd f3 rs1 imm12
      opcodeField w = opcode ∧ rdField w = rd ∧ funct3Field w = f3 ∧ rs1Field w = rs1 ∧
        Refmodel.immI w = v := by
  apply Fits.of_range hv
  intro w
  simp only [w, iType_eq, ofInt_toNat, Refmodel.immI_eq, immI_iWord]
  simp only [iWord, opcodeField_eq, rdField_eq, funct3Field_eq, rs1Field_eq, opcode_rWord,
    rdIdx_rWord, funct3_rWord, rs1Idx_rWord]
  exact ⟨ho.toNat, hrd.toNat, hf.toNat, h1.toNat, toInt_signExtend (by omega) hv⟩

theorem sType_fields (ho : Field 7 opcode) (hf : Field 3 f3) (h1 : Field 5 rs1)
    (h2 : Field 5 rs2) (hv : -2 ^ 11 ≤ v ∧ v < 2 ^ 11) :
    Fits 12 v fun imm12 =>
      let w := sType opcode f3 rs1 rs2 imm12
      opcodeField w = opcode ∧ funct3Field w = f3 ∧ rs1Field w = rs1 ∧ rs2Field w = rs2 ∧
        Refmodel.immS w = v := by
  apply Fits.of_range hv
  intro w
  simp only [w, sType_eq, ofInt_toNat, Refmodel.immS_eq, immS_sWord]
  simp only [sWord, opcodeField_eq, funct3Field_eq, rs1Field_eq, rs2Field_eq, opcode_rWord,
    funct3_rWord, rs1Idx_rWord, rs2Idx_rWord]
  exact ⟨ho.toNat, hf.toNat, h1.toNat, h2.toNat, toInt_signExtend (by omega) hv⟩

theorem bType_fields (ho : Field 7 opcode) (hf : Field 3 f3) (h1 : Field 5 rs1)
    (h2 : Field 5 rs2) (hv : -2 ^ 12 ≤ v ∧ v < 2 ^ 12) (he : v % 2 = 0) :
    Fits 13 v fun imm13 =>
      let w := bType opcode f3 rs1 rs2 imm13
      opcodeField w = opcode ∧ funct3Field w = f3 ∧ rs1Field w = rs1 ∧ rs2Field w = rs2 ∧
        Refmodel.immB w = v := by
  apply Fits.of_range hv
  intro w
  simp only [w, bType_eq, ofInt_toNat, Refmodel.immB_eq, immB_bWord, drop_bit, he, sub_zero]
  simp only [bWord, opcodeField_eq, funct3Field_eq, rs1Field_eq, rs2Field_eq, opcode_rWord,
    funct3_rWord, rs1Idx_rWord, rs2Idx_rWord]
  exact ⟨ho.toNat, hf.toNat, h1.toNat, h2.toNat, toInt_signExtend (by omega) hv⟩

theorem jType_fields (ho : Field 7 opcode) (hrd : Field 5 rd)
    (hv : -2 ^ 20 ≤ v ∧ v < 2 ^ 20) (he : v % 2 = 0) :
    Fits 21 v fun imm21 =>
      let w := jType opcode rd imm21
      opcodeField w = opcode ∧ rdField w = rd ∧ Refmodel.immJ w = v := by
  apply Fits.of_range hv
  intro w
  simp only [w, jType_eq, ofInt_toNat, Refmodel.immJ_eq, immJ_jWord, drop_bit, he, sub_zero]
  simp only [jWord, opcodeField_eq, rdField_eq, opcode_uWord, rdIdx_uWord]
  exact ⟨ho.toNat, hrd.toNat, toInt_signExtend (by omega) hv⟩

/-- The upper immediate stands 12 bits up. -/
theorem ofInt_append_zeros (v : ℤ) :
    BitVec.ofInt 20 v ++ 0#12 = BitVec.ofInt 32 (v * 2 ^ 12) := by
  apply BitVec.eq_of_toNat_eq
  rw [BitVec.toNat_append, BitVec.toNat_ofInt, BitVec.toNat_ofInt, BitVec.toNat_ofNat,
    Nat.zero_mod, Nat.or_zero, Nat.shiftLeft_eq]
  push_cast
  omega

theorem immU_uType (v : ℤ) : Refmodel.immU (uType opcode rd v) = u32 (v * 2 ^ 12) := by
  rw [uType_eq, Refmodel.immU_eq, immU_uWord, ofInt_append_zeros, u32_eq]

theorem uType_fields (ho : Field 7 opcode) (hrd : Field 5 rd) :
    opcodeField (uType opcode rd v) = opcode ∧ rdField (uType opcode rd v) = rd := by
  simp only [uType_eq, opcodeField_eq, rdField_eq, opcode_uWord, rdIdx_uWord]
  exact ⟨ho.toNat, hrd.toNat⟩

end Read

section Rebuild
variable (w : Word)

theorem iWord_fields : iWord (rs1Idx w) (funct3 w) (rdIdx w) (w.extractLsb' 0 7)
    (w.extractLsb' 20 12) = w := by
  have h7 : (w.extractLsb' 20 12).extractLsb' 5 7 = funct7 w := extract_extract w (by omega)
  have h5 : (w.extractLsb' 20 12).extractLsb' 0 5 = rs2Idx w := extract_extract w (by omega)
  rw [iWord, h7, h5, rWord_fields]

theorem sWord_fields : sWord (rs2Idx w) (rs1Idx w) (funct3 w) (w.extractLsb' 0 7)
    (w.extractLsb' 25 7 ++ w.extractLsb' 7 5) = w := by
  rw [sWord, BitVec.extractLsb'_append_eq_left, BitVec.extractLsb'_append_eq_right]
  exact rWord_fields w

theorem bWord_fields : bWord (rs2Idx w) (rs1Idx w) (funct3 w) (w.extractLsb' 0 7)
    (w.extractLsb' 31 1 ++ (w.extractLsb' 7 1 ++ (w.extractLsb' 25 6 ++
      (w.extractLsb' 8 4 ++ 0#1)))) = w := by
  have h7 : w.extractLsb' 31 1 ++ w.extractLsb' 25 6 = funct7 w :=
    BitVec.extractLsb'_append_extractLsb'_eq_extractLsb' rfl
  have h5 : w.extractLsb' 8 4 ++ w.extractLsb' 7 1 = rdIdx w :=
    BitVec.extractLsb'_append_extractLsb'_eq_extractLsb' rfl
  generalize hb : w.extractLsb' 31 1 ++ (w.extractLsb' 7 1 ++ (w.extractLsb' 25 6 ++
    (w.extractLsb' 8 4 ++ 0#1))) = b
  have h12 : b.extractLsb' 12 1 = w.extractLsb' 31 1 := by
    rw [← hb]
    exact BitVec.extractLsb'_append_eq_left
  have h11 : b.extractLsb' 11 1 = w.extractLsb' 7 1 := by
    rw [← hb, BitVec.extractLsb'_append_eq_of_add_le (by decide)]
    exact BitVec.extractLsb'_append_eq_left
  have h10 : b.extractLsb' 5 6 = w.extractLsb' 25 6 := by
    rw [← hb, BitVec.extractLsb'_append_eq_of_add_le (by decide),
      BitVec.extractLsb'_append_eq_of_add_le (by decide)]
    exact BitVec.extractLsb'_append_eq_left
  have h4 : b.extractLsb' 1 4 = w.extractLsb' 8 4 := by
    rw [← hb, BitVec.extractLsb'_append_eq_of_add_le (by decide),
      BitVec.extractLsb'_append_eq_of_add_le (by decide),
      BitVec.extractLsb'_append_eq_of_add_le (by decide)]
    exact BitVec.extractLsb'_append_eq_left
  rw [bWord, h12, h11, h10, h4, h7, h5]
  exact rWord_fields w

theorem jWord_fields : jWord (rdIdx w) (w.extractLsb' 0 7)
    (w.extractLsb' 31 1 ++ (w.extractLsb' 12 8 ++ (w.extractLsb' 20 1 ++
      (w.extractLsb' 21 10 ++ 0#1)))) = w := by
  have t1 : w.extractLsb' 20 1 ++ w.extractLsb' 12 8 = w.extractLsb' 12 9 :=
    BitVec.extractLsb'_append_extractLsb'_eq_extractLsb' rfl
  have t2 : w.extractLsb' 21 10 ++ w.extractLsb' 12 9 = w.extractLsb' 12 19 :=
    BitVec.extractLsb'_append_extractLsb'_eq_extractLsb' rfl
  have t3 : w.extractLsb' 31 1 ++ w.extractLsb' 12 19 = w.extractLsb' 12 20 :=
    BitVec.extractLsb'_append_extractLsb'_eq_extractLsb' rfl
  generalize hb : w.extractLsb' 31 1 ++ (w.extractLsb' 12 8 ++ (w.extractLsb' 20 1 ++
    (w.extractLsb' 21 10 ++ 0#1))) = b
  have h20 : b.extractLsb' 20 1 = w.extractLsb' 31 1 := by
    rw [← hb]
    exact BitVec.extractLsb'_append_eq_left
  have h12 : b.extractLsb' 12 8 = w.extractLsb' 12 8 := by
    rw [← hb, BitVec.extractLsb'_append_eq_of_add_le (by decide)]
    exact BitVec.extractLsb'_append_eq_left
  have h11 : b.extractLsb' 11 1 = w.extractLsb' 20 1 := by
    rw [← hb, BitVec.extractLsb'_append_eq_of_add_le (by decide),
      BitVec.extractLsb'_append_eq_of_add_le (by decide)]
    exact BitVec.extractLsb'_append_eq_left
  have h1 : b.extractLsb' 1 10 = w.extractLsb' 21 10 := by
    rw [← hb, BitVec.extractLsb'_append_eq_of_add_le (by decide),
      BitVec.extractLsb'_append_eq_of_add_le (by decide),
      BitVec.extractLsb'_append_eq_of_add_le (by decide)]
    exact BitVec.extractLsb'_append_eq_left
  rw [jWord, h20, h12, h11, h1, t1, t2, t3, uWord_fields]

theorem range_of_signed {n : ℕ} (b : BitVec (n + 1)) : -2 ^ n ≤ b.toInt ∧ b.toInt < 2 ^ n := by
  have hl := BitVec.le_toInt b
  have hu := BitVec.toInt_lt (x := b)
  simpa using And.intro hl hu

/-- The immediate a word sign-extends fits the field it came from. -/
theorem Fits.of_signExtend {n : ℕ} (hn : n + 1 ≤ 32) (b : BitVec (n + 1)) {P : ℤ → Prop}
    (hp : P (b.toNat : ℤ)) : Fits (n + 1) (b.signExtend 32).toInt P := by
  rw [BitVec.toInt_signExtend_of_le hn]
  apply Fits.of_range (range_of_signed b)
  rwa [BitVec.ofInt_toInt]

theorem rType_rebuild : rType (opcodeField w.toNat) (rdField w.toNat) (funct3Field w.toNat)
    (rs1Field w.toNat) (rs2Field w.toNat) (funct7Field w.toNat) = w.toNat := by
  simp only [rType_eq, opcodeField_eq, rdField_eq, funct3Field_eq, rs1Field_eq, rs2Field_eq,
    funct7Field_eq, ofInt_toNat, rWord_fields]

theorem iType_rebuild : Fits 12 (Refmodel.immI w.toNat) fun imm12 =>
    iType (opcodeField w.toNat) (rdField w.toNat) (funct3Field w.toNat) (rs1Field w.toNat) imm12 =
      w.toNat := by
  rw [Refmodel.immI_eq, Refmodel.immI_signExtend]
  apply Fits.of_signExtend (by omega)
  simp only [iType_eq, opcodeField_eq, rdField_eq, funct3Field_eq, rs1Field_eq, ofInt_toNat,
    iWord_fields]

theorem sType_rebuild : Fits 12 (Refmodel.immS w.toNat) fun imm12 =>
    sType (opcodeField w.toNat) (funct3Field w.toNat) (rs1Field w.toNat) (rs2Field w.toNat) imm12 =
      w.toNat := by
  rw [Refmodel.immS_eq, Refmodel.immS_signExtend]
  apply Fits.of_signExtend (by omega)
  simp only [sType_eq, opcodeField_eq, funct3Field_eq, rs1Field_eq, rs2Field_eq, ofInt_toNat,
    sWord_fields]

theorem bType_rebuild : Fits 13 (Refmodel.immB w.toNat) fun imm13 =>
    bType (opcodeField w.toNat) (funct3Field w.toNat) (rs1Field w.toNat) (rs2Field w.toNat) imm13 =
      w.toNat := by
  rw [Refmodel.immB_eq, Refmodel.immB_signExtend]
  apply Fits.of_signExtend (by omega)
  simp only [bType_eq, opcodeField_eq, funct3Field_eq, rs1Field_eq, rs2Field_eq, ofInt_toNat,
    bWord_fields]

theorem jType_rebuild : Fits 21 (Refmodel.immJ w.toNat) fun imm21 =>
    jType (opcodeField w.toNat) (rdField w.toNat) imm21 = w.toNat := by
  rw [Refmodel.immJ_eq, Refmodel.immJ_signExtend]
  apply Fits.of_signExtend (by omega)
  simp only [jType_eq, opcodeField_eq, rdField_eq, ofInt_toNat, jWord_fields]

theorem uType_rebuild : uType (opcodeField w.toNat) (rdField w.toNat)
    (Refmodel.immU w.toNat >>> 12) = w.toNat := by
  have hu : Refmodel.immU w.toNat >>> 12 = ((w.extractLsb' 12 20).toNat : ℤ) := by
    rw [shr_ofNat, Refmodel.immU_eq, natCast_shiftRight, Rtl.immU, BitVec.toNat_append,
      BitVec.toNat_ofNat, Nat.zero_mod, Nat.or_zero, Nat.shiftLeft_shiftRight]
  rw [hu]
  simp only [uType_eq, opcodeField_eq, rdField_eq, ofInt_toNat, uWord_fields]

end Rebuild

section Formats

/-- The immediate that the emulator reads in the format `imm_gen` selects by the opcode. -/
def formatImm (inst : ℤ) : Opcode → Option ℤ
  | .load | .imm | .jalr | .system | .fence => some (Refmodel.immI inst)
  | .store => some (Refmodel.immS inst)
  | .branch => some (Refmodel.immB inst)
  | .lui | .auipc => some (Refmodel.immU inst)
  | .jal => some (Refmodel.immJ inst)
  | .reg => none

/-- The packers and the two decoders agree on all six formats. -/
structure PackersInverse : Prop where
  r : ∀ {opcode rd f3 rs1 rs2 f7}, Field 7 opcode → Field 5 rd → Field 3 f3 → Field 5 rs1 →
    Field 5 rs2 → Field 7 f7 →
    let w := rType opcode rd f3 rs1 rs2 f7
    opcodeField w = opcode ∧ rdField w = rd ∧ funct3Field w = f3 ∧ rs1Field w = rs1 ∧
      rs2Field w = rs2 ∧ funct7Field w = f7
  i : ∀ {opcode rd f3 rs1 v}, Field 7 opcode → Field 5 rd → Field 3 f3 → Field 5 rs1 →
    -2 ^ 11 ≤ v ∧ v < 2 ^ 11 → Fits 12 v fun imm12 =>
      let w := iType opcode rd f3 rs1 imm12
      opcodeField w = opcode ∧ rdField w = rd ∧ funct3Field w = f3 ∧ rs1Field w = rs1 ∧
        Refmodel.immI w = v
  s : ∀ {opcode f3 rs1 rs2 v}, Field 7 opcode → Field 3 f3 → Field 5 rs1 → Field 5 rs2 →
    -2 ^ 11 ≤ v ∧ v < 2 ^ 11 → Fits 12 v fun imm12 =>
      let w := sType opcode f3 rs1 rs2 imm12
      opcodeField w = opcode ∧ funct3Field w = f3 ∧ rs1Field w = rs1 ∧ rs2Field w = rs2 ∧
        Refmodel.immS w = v
  b : ∀ {opcode f3 rs1 rs2 v}, Field 7 opcode → Field 3 f3 → Field 5 rs1 → Field 5 rs2 →
    -2 ^ 12 ≤ v ∧ v < 2 ^ 12 → v % 2 = 0 → Fits 13 v fun imm13 =>
      let w := bType opcode f3 rs1 rs2 imm13
      opcodeField w = opcode ∧ funct3Field w = f3 ∧ rs1Field w = rs1 ∧ rs2Field w = rs2 ∧
        Refmodel.immB w = v
  u : ∀ {opcode rd v}, Field 7 opcode → Field 5 rd → Field 20 v →
    let w := uType opcode rd v
    opcodeField w = opcode ∧ rdField w = rd ∧ Refmodel.immU w = v * 2 ^ 12
  uSigned : ∀ {opcode rd v}, Field 7 opcode → Field 5 rd → -2 ^ 19 ≤ v ∧ v < 2 ^ 19 →
    Fits 20 v fun imm20 =>
      let w := uType opcode rd imm20
      opcodeField w = opcode ∧ rdField w = rd ∧ Refmodel.immU w = u32 (v * 2 ^ 12)
  j : ∀ {opcode rd v}, Field 7 opcode → Field 5 rd → -2 ^ 20 ≤ v ∧ v < 2 ^ 20 → v % 2 = 0 →
    Fits 21 v fun imm21 =>
      let w := jType opcode rd imm21
      opcodeField w = opcode ∧ rdField w = rd ∧ Refmodel.immJ w = v
  rebuildR : ∀ w : Word, rType (opcodeField w.toNat) (rdField w.toNat) (funct3Field w.toNat)
    (rs1Field w.toNat) (rs2Field w.toNat) (funct7Field w.toNat) = w.toNat
  rebuildI : ∀ w : Word, Fits 12 (Refmodel.immI w.toNat) fun imm12 =>
    iType (opcodeField w.toNat) (rdField w.toNat) (funct3Field w.toNat) (rs1Field w.toNat) imm12 =
      w.toNat
  rebuildS : ∀ w : Word, Fits 12 (Refmodel.immS w.toNat) fun imm12 =>
    sType (opcodeField w.toNat) (funct3Field w.toNat) (rs1Field w.toNat) (rs2Field w.toNat) imm12 =
      w.toNat
  rebuildB : ∀ w : Word, Fits 13 (Refmodel.immB w.toNat) fun imm13 =>
    bType (opcodeField w.toNat) (funct3Field w.toNat) (rs1Field w.toNat) (rs2Field w.toNat) imm13 =
      w.toNat
  rebuildU : ∀ w : Word, uType (opcodeField w.toNat) (rdField w.toNat)
    (Refmodel.immU w.toNat >>> 12) = w.toNat
  rebuildJ : ∀ w : Word, Fits 21 (Refmodel.immJ w.toNat) fun imm21 =>
    jType (opcodeField w.toNat) (rdField w.toNat) imm21 = w.toNat
  immGen : ∀ (w : Word) (o : Opcode) (v : ℤ), Rtl.opcode w = some o →
    formatImm w.toNat o = some v → Rtl.immGen w = BitVec.ofInt 32 v

theorem immGen_eq {w : Word} {o : Opcode} {v : ℤ} (ho : Rtl.opcode w = some o)
    (hv : formatImm w.toNat o = some v) : Rtl.immGen w = BitVec.ofInt 32 v := by
  cases o with
  | load | imm | jalr | system | fence =>
    cases hv
    rw [Rtl.immGen, ho, Refmodel.immI_eq, BitVec.ofInt_toInt]
  | store =>
    cases hv
    rw [Rtl.immGen, ho, Refmodel.immS_eq, BitVec.ofInt_toInt]
  | branch =>
    cases hv
    rw [Rtl.immGen, ho, Refmodel.immB_eq, BitVec.ofInt_toInt]
  | lui | auipc =>
    cases hv
    rw [Rtl.immGen, ho, Refmodel.immU_eq, ofInt_toNat]
  | jal =>
    cases hv
    rw [Rtl.immGen, ho, Refmodel.immJ_eq, BitVec.ofInt_toInt]
  | reg => cases hv

theorem packers_inverse : PackersInverse where
  r := rType_fields
  i := iType_fields
  s := sType_fields
  b := bType_fields
  u ho hrd hv := ⟨(uType_fields ho hrd).1, (uType_fields ho hrd).2, by
    rw [immU_uType, u32_eq, ← ofInt_append_zeros, BitVec.toNat_append, BitVec.toNat_ofNat,
      Nat.zero_mod, Nat.or_zero, Nat.shiftLeft_eq, Nat.cast_mul, hv.toNat]
    rfl⟩
  uSigned ho hrd hv := Fits.of_range hv ⟨(uType_fields ho hrd).1, (uType_fields ho hrd).2, by
    rw [uType_eq, ofInt_toNat, ← uType_eq, immU_uType]⟩
  j := jType_fields
  rebuildR := rType_rebuild
  rebuildI := iType_rebuild
  rebuildS := sType_rebuild
  rebuildB := bType_rebuild
  rebuildU := uType_rebuild
  rebuildJ := jType_rebuild
  immGen _ _ _ := immGen_eq

end Formats
end RiscForge.Assembler
