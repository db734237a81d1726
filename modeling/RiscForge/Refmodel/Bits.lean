import RiscForge.Lib.SignExtend
import RiscForge.Refmodel.Rv32i
import RiscForge.Rtl.Units

/-! What the emulator's masks, fields and immediates are as bit vectors. -/
namespace RiscForge.Refmodel

open Lib Rtl

section Masks
variable (x : ℤ)

theorem u32_eq : u32 x = ((BitVec.ofInt 32 x).toNat : ℤ) := by
  rw [← and_mask]
  rfl

theorem u32_emod : u32 x = x % 2 ^ 32 := by
  rw [← and_mask_emod]
  rfl

theorem xor_two_pow {m n : ℕ} (h : m < 2 ^ n) : m ^^^ 2 ^ n = m + 2 ^ n := by
  have hor := Nat.two_pow_add_eq_or_of_lt h 1
  rw [Nat.mul_one] at hor
  rw [Nat.add_comm, hor]
  apply Nat.eq_of_testBit_eq
  intro i
  rw [Nat.testBit_xor, Nat.testBit_or, Nat.testBit_two_pow]
  by_cases hi : n = i
  · subst hi
    simp [Nat.testBit_lt_two_pow h]
  · simp [hi]

theorem two_pow_xor {m n : ℕ} (h : m < 2 ^ n) : (m + 2 ^ n) ^^^ 2 ^ n = m := by
  rw [← xor_two_pow h, Nat.xor_assoc, Nat.xor_self, Nat.xor_zero]

/-- Flipping the sign bit and subtracting it is sign extension. -/
theorem sext_eq (n : ℕ) : sext x (n + 1) = (BitVec.ofInt (n + 1) x).toInt := by
  have hmask : ((1 : ℤ) <<< (n + 1) - 1) = ((2 ^ (n + 1) - 1 : ℕ) : ℤ) := by
    rw [Int.shiftLeft_eq, Nat.cast_sub Nat.one_le_two_pow]
    norm_num
  have hsign : (1 : ℤ) <<< n = ((2 ^ n : ℕ) : ℤ) := by
    rw [Int.shiftLeft_eq]
    norm_num
  change ((x &&& ((1 : ℤ) <<< (n + 1) - 1)) ^^^ (1 : ℤ) <<< n) - (1 : ℤ) <<< n = _
  rw [hmask, hsign, and_mask, natCast_xor]
  generalize BitVec.ofInt (n + 1) x = b
  have hb := b.isLt
  rw [BitVec.toInt_eq_toNat_cond]
  rw [pow_succ] at hb ⊢
  by_cases hlt : b.toNat < 2 ^ n
  · rw [xor_two_pow hlt, if_pos (by omega)]
    push_cast
    ring
  · obtain ⟨r, hr⟩ := Nat.exists_eq_add_of_le' (Nat.le_of_not_lt hlt)
    rw [hr, two_pow_xor (by omega), if_neg (by omega)]
    push_cast
    ring

theorem s32_eq : s32 x = (BitVec.ofInt 32 x).toInt := by
  have hx : x &&& XMASK = ((BitVec.ofInt 32 x).toNat : ℤ) := u32_eq x
  have hs : (1 : ℤ) <<< (XLEN - 1) = ((2 ^ 31 : ℕ) : ℤ) := rfl
  have hw : (1 : ℤ) <<< XLEN = 2 ^ 32 := rfl
  change (if x &&& XMASK &&& (1 : ℤ) <<< (XLEN - 1) ≠ 0 then (x &&& XMASK) - (1 : ℤ) <<< XLEN
    else x &&& XMASK) = _
  rw [hx, hs, hw, natCast_and, Nat.and_two_pow, BitVec.toInt_eq_msb_cond]
  have hmsb : (BitVec.ofInt 32 x).toNat.testBit 31 = (BitVec.ofInt 32 x).msb := rfl
  rw [hmsb]
  cases (BitVec.ofInt 32 x).msb <;> simp

end Masks

section Fields
variable (w : Word)

/-- A shifted and masked field of a word. -/
theorem field_eq (k n : ℕ) :
    (w.toNat : ℤ) >>> k &&& ((2 ^ n - 1 : ℕ) : ℤ) = ((w.extractLsb' k n).toNat : ℤ) := by
  rw [natCast_shiftRight, natCast_and, Nat.and_two_pow_sub_one_eq_mod, BitVec.extractLsb'_toNat]

theorem opcodeField_eq : opcodeField (w.toNat : ℤ) = ((w.extractLsb' 0 7).toNat : ℤ) :=
  field_eq w 0 7

theorem rdField_eq : rdField (w.toNat : ℤ) = ((rdIdx w).toNat : ℤ) := field_eq w 7 5
theorem funct3Field_eq : funct3Field (w.toNat : ℤ) = ((funct3 w).toNat : ℤ) := field_eq w 12 3
theorem rs1Field_eq : rs1Field (w.toNat : ℤ) = ((rs1Idx w).toNat : ℤ) := field_eq w 15 5
theorem rs2Field_eq : rs2Field (w.toNat : ℤ) = ((rs2Idx w).toNat : ℤ) := field_eq w 20 5
theorem funct7Field_eq : funct7Field (w.toNat : ℤ) = ((funct7 w).toNat : ℤ) := field_eq w 25 7
theorem funct12Field_eq : funct12Field (w.toNat : ℤ) = ((funct12 w).toNat : ℤ) :=
  field_eq w 20 12

theorem opcode_eq :
    (IntEnum.ofValue (opcodeField (w.toNat : ℤ)) : Option Opcode) = opcode w := by
  rw [opcodeField_eq, IntEnum.ofValue_toNat]
  rfl

end Fields

section SignExtend

variable (w : Word)

theorem immI_signExtend : Rtl.immI w = (w.extractLsb' 20 12).signExtend 32 :=
  replicate_append (k := 20) _ _ (by simp [BitVec.msb_eq_getLsbD_last])

theorem immS_signExtend :
    Rtl.immS w = (w.extractLsb' 25 7 ++ w.extractLsb' 7 5).signExtend 32 := by
  rw [← replicate_append (k := 20) (w.extractLsb' 31 1) _
    (by rw [msb_append_of_pos (n := 6)]; simp [BitVec.msb_eq_getLsbD_last])]
  exact BitVec.append_assoc

theorem immB_signExtend :
    Rtl.immB w = (w.extractLsb' 31 1 ++ (w.extractLsb' 7 1 ++
      (w.extractLsb' 25 6 ++ (w.extractLsb' 8 4 ++ 0#1)))).signExtend 32 := by
  rw [← replicate_append (k := 19) (w.extractLsb' 31 1) _
    (by rw [msb_append_of_pos (n := 0)]; simp [BitVec.msb_eq_getLsbD_last])]
  simp only [Rtl.immB, BitVec.append_assoc, BitVec.cast_eq]

theorem immJ_signExtend :
    Rtl.immJ w = (w.extractLsb' 31 1 ++ (w.extractLsb' 12 8 ++
      (w.extractLsb' 20 1 ++ (w.extractLsb' 21 10 ++ 0#1)))).signExtend 32 := by
  rw [← replicate_append (k := 11) (w.extractLsb' 31 1) _
    (by rw [msb_append_of_pos (n := 0)]; simp [BitVec.msb_eq_getLsbD_last])]
  simp only [Rtl.immJ, BitVec.append_assoc, BitVec.cast_eq]

end SignExtend

section Immediates
variable (w : Word)

theorem sext_toNat {n : ℕ} (b : BitVec (n + 1)) : sext (b.toNat : ℤ) (n + 1) = b.toInt := by
  rw [sext_eq, ofInt_toNat]

theorem immI_eq : immI (w.toNat : ℤ) = (Rtl.immI w).toInt := by
  have hf : (w.toNat : ℤ) >>> 20 &&& 0xFFF = ((w.extractLsb' 20 12).toNat : ℤ) :=
    field_eq w 20 12
  rw [immI, hf, sext_toNat, immI_signExtend, BitVec.toInt_signExtend_of_le (by omega)]

theorem immS_eq : immS (w.toNat : ℤ) = (Rtl.immS w).toInt := by
  have h7 : (w.toNat : ℤ) >>> 25 &&& 0x7F = ((w.extractLsb' 25 7).toNat : ℤ) :=
    field_eq w 25 7
  have h5 : (w.toNat : ℤ) >>> 7 &&& 0x1F = ((w.extractLsb' 7 5).toNat : ℤ) := field_eq w 7 5
  rw [immS, h7, h5, immS_signExtend, BitVec.toInt_signExtend_of_le (by omega), ← sext_toNat,
    BitVec.toNat_append]
  rfl

theorem rawB (a b : BitVec 1) (c : BitVec 6) (d : BitVec 4) :
    (a.toNat : ℤ) <<< 12 ||| (c.toNat : ℤ) <<< 5 ||| (d.toNat : ℤ) <<< 1 ||| (b.toNat : ℤ) <<< 11 =
      ((a ++ (b ++ (c ++ (d ++ 0#1)))).toNat : ℤ) := by
  have hn : a.toNat <<< 12 ||| c.toNat <<< 5 ||| d.toNat <<< 1 ||| b.toNat <<< 11 =
      (a ++ (b ++ (c ++ (d ++ 0#1)))).toNat := by
    rw [BitVec.toNat_append, BitVec.toNat_append, BitVec.toNat_append, BitVec.toNat_append,
      BitVec.toNat_ofNat, Nat.zero_mod, Nat.or_zero]
    generalize a.toNat = a, b.toNat = b, c.toNat = c, d.toNat = d
    simp only [Nat.reduceAdd, Nat.or_assoc, Nat.or_comm, Nat.or_left_comm]
  exact congrArg Nat.cast hn

theorem immB_eq : immB (w.toNat : ℤ) = (Rtl.immB w).toInt := by
  have h12 : (w.toNat : ℤ) >>> 31 &&& 0x1 = ((w.extractLsb' 31 1).toNat : ℤ) := field_eq w 31 1
  have h10 : (w.toNat : ℤ) >>> 25 &&& 0x3F = ((w.extractLsb' 25 6).toNat : ℤ) :=
    field_eq w 25 6
  have h4 : (w.toNat : ℤ) >>> 8 &&& 0xF = ((w.extractLsb' 8 4).toNat : ℤ) := field_eq w 8 4
  have h11 : (w.toNat : ℤ) >>> 7 &&& 0x1 = ((w.extractLsb' 7 1).toNat : ℤ) := field_eq w 7 1
  rw [immB, h12, h10, h4, h11, rawB, immB_signExtend, BitVec.toInt_signExtend_of_le (by omega),
    sext_toNat]

theorem rawJ (a b : BitVec 1) (c : BitVec 8) (d : BitVec 10) :
    (a.toNat : ℤ) <<< 20 ||| (d.toNat : ℤ) <<< 1 ||| (b.toNat : ℤ) <<< 11 ||| (c.toNat : ℤ) <<< 12 =
      ((a ++ (c ++ (b ++ (d ++ 0#1)))).toNat : ℤ) := by
  have hn : a.toNat <<< 20 ||| d.toNat <<< 1 ||| b.toNat <<< 11 ||| c.toNat <<< 12 =
      (a ++ (c ++ (b ++ (d ++ 0#1)))).toNat := by
    rw [BitVec.toNat_append, BitVec.toNat_append, BitVec.toNat_append, BitVec.toNat_append,
      BitVec.toNat_ofNat, Nat.zero_mod, Nat.or_zero]
    generalize a.toNat = a, b.toNat = b, c.toNat = c, d.toNat = d
    simp only [Nat.reduceAdd, Nat.or_assoc, Nat.or_comm, Nat.or_left_comm]
  exact congrArg Nat.cast hn

theorem immJ_eq : immJ (w.toNat : ℤ) = (Rtl.immJ w).toInt := by
  have h20 : (w.toNat : ℤ) >>> 31 &&& 0x1 = ((w.extractLsb' 31 1).toNat : ℤ) := field_eq w 31 1
  have h10 : (w.toNat : ℤ) >>> 21 &&& 0x3FF = ((w.extractLsb' 21 10).toNat : ℤ) :=
    field_eq w 21 10
  have h11 : (w.toNat : ℤ) >>> 20 &&& 0x1 = ((w.extractLsb' 20 1).toNat : ℤ) := field_eq w 20 1
  have h19 : (w.toNat : ℤ) >>> 12 &&& 0xFF = ((w.extractLsb' 12 8).toNat : ℤ) :=
    field_eq w 12 8
  rw [immJ, h20, h10, h11, h19, rawJ, immJ_signExtend, BitVec.toInt_signExtend_of_le (by omega),
    sext_toNat]

theorem immU_eq : immU (w.toNat : ℤ) = ((Rtl.immU w).toNat : ℤ) := by
  have hu : Rtl.immU w = w &&& 0xFFFFF000#32 := by
    apply BitVec.eq_of_getLsbD_eq
    intro i hi
    have hm : (0xFFFFF000#32).getLsbD i = decide (12 ≤ i) := by
      revert i
      decide
    rw [Rtl.immU, BitVec.getLsbD_append, BitVec.getLsbD_and, hm]
    by_cases h : i < 12
    · simp [h, show ¬ 12 ≤ i by omega]
    · simp [h, show 12 ≤ i by omega, show i - 12 < 20 by omega,
        show 12 + (i - 12) = i by omega]
  rw [hu, BitVec.toNat_and]
  rfl

end Immediates
end RiscForge.Refmodel
