import Mathlib.Data.Int.Bitwise

/-! Unbounded two's-complement integers with the usual bit operators, and their bit vectors. -/
namespace RiscForge.Lib

instance intAnd : AndOp ℤ := ⟨Int.land⟩
instance intOr : OrOp ℤ := ⟨Int.lor⟩
instance intXor : XorOp ℤ := ⟨Int.xor⟩

/-- The lowercase hexadecimal digits of `x`, after a sign if it is negative, padded with zeros
to a width of `w` characters. -/
def hexPad (w : ℕ) (x : ℤ) : String :=
  let digits := Nat.toDigits 16 x.natAbs
  if x < 0 then String.ofList ('-' :: List.replicate (w - 1 - digits.length) '0' ++ digits)
  else String.ofList (List.replicate (w - digits.length) '0' ++ digits)

section BitVec
variable {w : ℕ} (x y : ℤ) (m n : ℕ)

theorem natCast_and : (m : ℤ) &&& (n : ℤ) = ((m &&& n : ℕ) : ℤ) := rfl
theorem natCast_or : (m : ℤ) ||| (n : ℤ) = ((m ||| n : ℕ) : ℤ) := rfl
theorem natCast_xor : (m : ℤ) ^^^ (n : ℤ) = ((m ^^^ n : ℕ) : ℤ) := rfl
theorem natCast_shiftLeft : (m : ℤ) <<< n = ((m <<< n : ℕ) : ℤ) := rfl
theorem natCast_shiftRight : (m : ℤ) >>> n = ((m >>> n : ℕ) : ℤ) := rfl

/-- A shift by a literal is one by a natural number. -/
theorem shl_ofNat : x <<< (OfNat.ofNat n : ℤ) = x <<< n := by
  have h := Int.shiftLeft_eq_mul_pow x n
  push_cast at h
  rw [Int.shiftLeft_eq]
  exact h

theorem shr_ofNat : x >>> (OfNat.ofNat n : ℤ) = x >>> n := Int.shiftRight_natCast_right x n

theorem testBit_and (i : ℕ) : (x &&& y).testBit i = (x.testBit i && y.testBit i) :=
  Int.testBit_land x y i

theorem testBit_or (i : ℕ) : (x ||| y).testBit i = (x.testBit i || y.testBit i) :=
  Int.testBit_lor x y i

theorem testBit_xor (i : ℕ) : (x ^^^ y).testBit i = (x.testBit i ^^ y.testBit i) :=
  Int.testBit_lxor x y i

theorem getLsbD_ofInt (i : ℕ) :
    (BitVec.ofInt w x).getLsbD i = (decide (i < w) && x.testBit i) := by
  cases x with
  | ofNat k => simp [BitVec.getLsbD_ofNat, Int.testBit]
  | negSucc k =>
    rw [BitVec.ofInt_negSucc_eq_not_ofNat, BitVec.getLsbD_not, BitVec.getLsbD_ofNat]
    by_cases hi : i < w <;> simp [Int.testBit, hi]

theorem ofInt_and : BitVec.ofInt w (x &&& y) = BitVec.ofInt w x &&& BitVec.ofInt w y := by
  ext i hi
  simp only [← BitVec.getLsbD_eq_getElem, BitVec.getLsbD_and, getLsbD_ofInt, testBit_and, hi,
    decide_true, Bool.true_and]

theorem ofInt_or : BitVec.ofInt w (x ||| y) = BitVec.ofInt w x ||| BitVec.ofInt w y := by
  ext i hi
  simp only [← BitVec.getLsbD_eq_getElem, BitVec.getLsbD_or, getLsbD_ofInt, testBit_or, hi,
    decide_true, Bool.true_and]

theorem ofInt_xor : BitVec.ofInt w (x ^^^ y) = BitVec.ofInt w x ^^^ BitVec.ofInt w y := by
  ext i hi
  simp only [← BitVec.getLsbD_eq_getElem, BitVec.getLsbD_xor, getLsbD_ofInt, testBit_xor, hi,
    decide_true, Bool.true_and]

theorem ofInt_sub : BitVec.ofInt w (x - y) = BitVec.ofInt w x - BitVec.ofInt w y := by
  rw [Int.sub_eq_add_neg, BitVec.ofInt_add, BitVec.ofInt_neg, BitVec.sub_eq_add_neg]

theorem ofInt_toNat (b : BitVec w) : BitVec.ofInt w (b.toNat : ℤ) = b := by
  simp

theorem ofInt_shiftLeft : BitVec.ofInt w (x <<< n) = BitVec.ofInt w x <<< n := by
  rw [Int.shiftLeft_eq, BitVec.ofInt_mul, BitVec.shiftLeft_eq_mul_twoPow]
  congr 1
  apply BitVec.eq_of_toNat_eq
  rw [show (2 : ℤ) ^ n = ((2 ^ n : ℕ) : ℤ) by norm_cast, BitVec.ofInt_natCast,
    BitVec.toNat_ofNat, BitVec.toNat_twoPow]

/-- A mask of `w` ones keeps the low `w` bits. -/
theorem and_mask : x &&& ((2 ^ w - 1 : ℕ) : ℤ) = ((BitVec.ofInt w x).toNat : ℤ) := by
  have hbit : ∀ i, (BitVec.ofInt w x).toNat.testBit i = (decide (i < w) && x.testBit i) :=
    fun i => getLsbD_ofInt x i
  cases x with
  | ofNat k =>
    change ((k &&& (2 ^ w - 1) : ℕ) : ℤ) = _
    congr 1
    apply Nat.eq_of_testBit_eq
    intro i
    rw [hbit, Nat.testBit_and, Nat.testBit_two_pow_sub_one, Bool.and_comm]
    rfl
  | negSucc k =>
    change ((Nat.ldiff (2 ^ w - 1) k : ℕ) : ℤ) = _
    congr 1
    apply Nat.eq_of_testBit_eq
    intro i
    rw [hbit, Nat.testBit_ldiff, Nat.testBit_two_pow_sub_one]
    rfl

theorem and_word : x &&& 0xFFFFFFFF = ((BitVec.ofInt 32 x).toNat : ℤ) := and_mask x (w := 32)

theorem ofInt_and_mask : BitVec.ofInt w (x &&& ((2 ^ w - 1 : ℕ) : ℤ)) = BitVec.ofInt w x := by
  rw [and_mask, ofInt_toNat]

theorem and_mask_emod : x &&& ((2 ^ w - 1 : ℕ) : ℤ) = x % 2 ^ w := by
  have hne : ((2 ^ w : ℕ) : ℤ) ≠ 0 := by exact_mod_cast (Nat.two_pow_pos w).ne'
  rw [and_mask, BitVec.toNat_ofInt, Int.toNat_of_nonneg (Int.emod_nonneg _ hne)]
  push_cast
  rfl

end BitVec
end RiscForge.Lib
