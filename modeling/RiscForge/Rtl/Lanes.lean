import RiscForge.Isa.Insn
import RiscForge.Lib.LittleEndian
import RiscForge.Lib.SignExtend
import RiscForge.Rtl.Top

/-! The byte lanes of the word-array data memory, and the bytes an aligned access moves. -/
namespace RiscForge.Rtl

open Lib Isa

section Lane

/-- Byte lane `j` of a word. -/
def lane (w : Word) (j : ℕ) : BitVec 8 := w.extractLsb' (8 * j) 8

variable (w : Word) {lo len : ℕ} (v : BitVec len) {i j : ℕ}

theorem lane_eq_leByte : lane w j = leByte w.toNat j := by
  apply BitVec.eq_of_toNat_eq
  rw [lane, leByte, BitVec.extractLsb'_toNat, BitVec.toNat_ofNat, Nat.shiftRight_eq_div_pow, pow_mul]
  rfl

theorem getLsbD_setSlice (hi : i < 32) :
    (setSlice w lo v).getLsbD i =
      if lo ≤ i ∧ i < lo + len then v.getLsbD (i - lo) else w.getLsbD i := by
  simp only [setSlice, BitVec.getLsbD_or, BitVec.getLsbD_and, BitVec.getLsbD_not,
    BitVec.getLsbD_shiftLeft, BitVec.getLsbD_setWidth, BitVec.getLsbD_allOnes, hi, decide_true,
    Bool.true_and, show i - lo < 32 by omega]
  by_cases h1 : lo ≤ i
  · by_cases h2 : i < lo + len
    · simp [h1, h2, show ¬ i < lo by omega, show i - lo < len by omega]
    · simp [h1, h2, show ¬ i < lo by omega, show ¬ i - lo < len by omega,
        BitVec.getLsbD_of_ge v (i - lo) (by omega)]
  · simp [h1, show i < lo by omega]

theorem lane_setSlice_inside (hj : j < 4) (h1 : lo ≤ 8 * j) (h2 : 8 * j + 8 ≤ lo + len) :
    lane (setSlice w lo v) j = v.extractLsb' (8 * j - lo) 8 := by
  apply BitVec.eq_of_getLsbD_eq
  intro i hi
  rw [lane, BitVec.getLsbD_extractLsb', BitVec.getLsbD_extractLsb',
    getLsbD_setSlice w v (by omega), if_pos (by omega),
    show 8 * j + i - lo = 8 * j - lo + i by omega]

theorem lane_setSlice_outside (hj : j < 4) (h : 8 * j + 8 ≤ lo ∨ lo + len ≤ 8 * j) :
    lane (setSlice w lo v) j = lane w j := by
  apply BitVec.eq_of_getLsbD_eq
  intro i hi
  rw [lane, BitVec.getLsbD_extractLsb', lane, BitVec.getLsbD_extractLsb',
    getLsbD_setSlice w v (by omega), if_neg (by omega)]

theorem lane_extract (u : Word) (h : 8 * j + 8 ≤ len) :
    (u.extractLsb' 0 len).extractLsb' (8 * j) 8 = lane u j := by
  apply BitVec.eq_of_getLsbD_eq
  intro i hi
  rw [BitVec.getLsbD_extractLsb', BitVec.getLsbD_extractLsb', lane, BitVec.getLsbD_extractLsb',
    Nat.zero_add]
  simp [show 8 * j + i < len by omega]

end Lane

section Access
variable (d : DMemIn) (w : Word) {j : ℕ}

def MemSize.bytes : MemSize → ℕ
  | .b => 1
  | .h => 2
  | .w => 4

theorem byteOff_cases (b : BitVec 2) : b = 0#2 ∨ b = 1#2 ∨ b = 2#2 ∨ b = 3#2 := by
  revert b
  decide

/-- The bytes of a word after an aligned store to it. -/
theorem lane_nextWord (h : d.byteOff.toNat % d.memSize.bytes = 0) (hj : j < 4) :
    lane (d.nextWord w) j =
      if d.byteOff.toNat ≤ j ∧ j < d.byteOff.toNat + d.memSize.bytes then
        lane d.writeData (j - d.byteOff.toNat)
      else lane w j := by
  cases hs : d.memSize with
  | b =>
    have hb : ∀ k, k < 4 → lane (setSlice w (8 * k) (d.writeData.extractLsb' 0 8)) j =
        if k ≤ j ∧ j < k + 1 then lane d.writeData (j - k) else lane w j := by
      intro k hk
      split
      case isTrue hjk =>
        rw [lane_setSlice_inside _ _ hj (by omega) (by omega), ← Nat.mul_sub,
          lane_extract _ (by omega)]
      case isFalse hjk => exact lane_setSlice_outside _ _ hj (by omega)
    simp only [DMemIn.nextWord, hs, MemSize.bytes]
    rcases byteOff_cases d.byteOff with ho | ho | ho | ho <;> rw [ho]
    · exact hb 0 (by omega)
    · exact hb 1 (by omega)
    · exact hb 2 (by omega)
    · exact hb 3 (by omega)
  | h =>
    have hb : ∀ k, k = 0 ∨ k = 2 → lane (setSlice w (8 * k) (d.writeData.extractLsb' 0 16)) j =
        if k ≤ j ∧ j < k + 2 then lane d.writeData (j - k) else lane w j := by
      intro k hk
      split
      case isTrue hjk =>
        rw [lane_setSlice_inside _ _ hj (by omega) (by omega), ← Nat.mul_sub,
          lane_extract _ (by omega)]
      case isFalse hjk => exact lane_setSlice_outside _ _ hj (by omega)
    simp only [DMemIn.nextWord, hs, MemSize.bytes]
    rw [hs] at h
    rcases byteOff_cases d.byteOff with ho | ho | ho | ho <;> rw [ho] at h ⊢
    · exact hb 0 (by omega)
    · cases h
    · exact hb 2 (by omega)
    · cases h
  | w =>
    simp only [DMemIn.nextWord, hs, MemSize.bytes]
    rw [hs] at h
    rcases byteOff_cases d.byteOff with ho | ho | ho | ho <;> rw [ho] at h ⊢
    · exact (if_pos ⟨Nat.zero_le j, show j < 0 + 4 by omega⟩).symm
    · cases h
    · cases h
    · cases h

end Access

section Bytes
variable {n : ℕ} (mem : DMem n) {bytes : List (BitVec 8)} {a : Word}

/-- A word array and a byte list hold the same little-endian words. -/
structure MemAgree (mem : DMem n) (bytes : List (BitVec 8)) : Prop where
  length : bytes.length = 4 * 2 ^ n
  word : ∀ i : BitVec n, (mem i).toNat = unpackFrom bytes (4 * i.toNat) 4

/-- The byte of the array that address `a` selects. -/
def byteOf (a : Word) : BitVec 8 := lane (mem (a.extractLsb' 2 n)) (a.toNat % 4)

variable {mem}

theorem MemAgree.lane (h : MemAgree mem bytes) (i : BitVec n) {j : ℕ} (hj : j < 4) :
    lane (mem i) j = byteAt bytes (4 * i.toNat + j) := by
  rw [lane_eq_leByte, h.word, unpackFrom, leByte_leNat hj]

theorem memAgree_of_lanes (hl : bytes.length = 4 * 2 ^ n)
    (h : ∀ (i : BitVec n) (j : ℕ), j < 4 → Rtl.lane (mem i) j = byteAt bytes (4 * i.toNat + j)) :
    MemAgree mem bytes := by
  refine ⟨hl, fun i => ?_⟩
  have hw : leNat (leByte (mem i).toNat) 4 = (mem i).toNat := by
    rw [leNat_leByte]
    exact Nat.mod_eq_of_lt (mem i).isLt
  rw [← hw, unpackFrom]
  refine leNat_congr fun j hj => ?_
  rw [← lane_eq_leByte]
  exact h i j hj

theorem toNat_wordIdx (h : a.toNat < 4 * 2 ^ n) : (a.extractLsb' 2 n).toNat = a.toNat / 4 := by
  rw [BitVec.extractLsb'_toNat, Nat.shiftRight_eq_div_pow]
  exact Nat.mod_eq_of_lt (by omega)

/-- Inside the memory, the two hold the same bytes. -/
theorem MemAgree.byteOf (h : MemAgree mem bytes) (ha : a.toNat < 4 * 2 ^ n) :
    byteOf mem a = byteAt bytes a.toNat := by
  rw [Rtl.byteOf, h.lane _ (by omega), toNat_wordIdx ha]
  congr 1
  omega

variable (p : Params) {d : DMemIn} {bytes : List (BitVec 8)}

theorem byteOff_toNat : d.byteOff.toNat = d.addr.toNat % 4 := by
  rw [DMemIn.byteOff, BitVec.extractLsb'_toNat, Nat.shiftRight_zero]

theorem MemSize.bytes_cases (m : MemSize) : m.bytes = 1 ∨ m.bytes = 2 ∨ m.bytes = 4 := by
  cases m <;> simp [MemSize.bytes]

/-- The alignment check, on an access that is not MMIO. -/
theorem misaligned_iff (ha : d.memRead = true ∨ d.memWrite = true) (hm : d.isMmio p = false) :
    d.misaligned p = true ↔ d.addr.toNat % d.memSize.bytes ≠ 0 := by
  have ha' : (d.memRead || d.memWrite) = true := by simpa using ha
  have hoff := byteOff_toNat (d := d)
  simp only [DMemIn.misaligned, ha', hm, if_true, Bool.false_eq_true, if_false]
  rcases byteOff_cases d.byteOff with ho | ho | ho | ho <;> rw [ho] at hoff ⊢ <;>
    cases d.memSize <;> simp [MemSize.bytes] at hoff ⊢ <;> omega

/-- An aligned store in range changes the same bytes of both. -/
theorem MemAgree.nextMem {mem : DMem p.dmemIdxW} (h : MemAgree mem bytes)
    (hw : d.memWrite = true) (hm : d.isMmio p = false)
    (ha : d.addr.toNat % d.memSize.bytes = 0) (hr : d.addr.toNat < 4 * 2 ^ p.dmemIdxW) :
    MemAgree (d.nextMem p mem)
      (packInto bytes d.addr.toNat d.writeData.toNat d.memSize.bytes) := by
  have hmis : d.misaligned p = false := by
    by_contra hmis
    exact (misaligned_iff p (Or.inr hw) hm).mp (by simpa using hmis) ha
  have hc : d.commits p = true := by simp [DMemIn.commits, hw, hm, hmis]
  have hoff := byteOff_toNat (d := d)
  have hidx : (d.wordIdx p).toNat = d.addr.toNat / 4 := toNat_wordIdx hr
  have hsize := d.memSize.bytes_cases
  have hin : d.addr.toNat % 4 + d.memSize.bytes ≤ 4 := by
    rcases hsize with hs | hs | hs <;> rw [hs] at ha ⊢ <;> omega
  have hoa : d.byteOff.toNat % d.memSize.bytes = 0 := by
    rcases hsize with hs | hs | hs <;> rw [hs] at ha ⊢ <;> omega
  have hlen : d.addr.toNat + d.memSize.bytes ≤ bytes.length := by
    rw [h.length]
    omega
  refine memAgree_of_lanes (by rw [length_packInto, h.length]) fun i j hj => ?_
  rw [DMemIn.nextMem, if_pos hc, byteAt_packInto _ _ _ _ _ hlen]
  by_cases hi : i = d.wordIdx p
  · subst hi
    rw [Function.update_self, lane_nextWord _ _ hoa hj, hidx]
    by_cases hjn : d.byteOff.toNat ≤ j ∧ j < d.byteOff.toNat + d.memSize.bytes
    · rw [if_pos hjn, if_pos (by omega), lane_eq_leByte]
      congr 1
      omega
    · rw [if_neg hjn, if_neg (by omega), h.lane _ hj, hidx]
  · have hne : i.toNat ≠ d.addr.toNat / 4 :=
      fun he => hi (BitVec.eq_of_toNat_eq (he.trans hidx.symm))
    rw [Function.update_of_ne hi, if_neg (by omega), h.lane _ hj]

/-- The sizes and the sign extension the decoder asks for. -/
def loadMemSize : F3Load → MemSize
  | .lb | .lbu => .b
  | .lh | .lhu => .h
  | .lw => .w

def loadUnsigned : F3Load → Bool
  | .lbu | .lhu => true
  | .lb | .lh | .lw => false

def storeMemSize : F3Store → MemSize
  | .sb => .b
  | .sh => .h
  | .sw => .w

theorem bytes_loadMemSize (k : F3Load) : (loadMemSize k).bytes = loadSize k := by
  cases k <;> rfl

theorem bytes_storeMemSize (k : F3Store) : (storeMemSize k).bytes = storeSize k := by
  cases k <;> rfl

theorem byteOf_add {n m : ℕ} (mem : DMem n) {a : Word} (hm : m = 1 ∨ m = 2 ∨ m = 4)
    (h : a.toNat % m = 0) {j : ℕ} (hj : j < m) :
    byteOf mem (a + BitVec.ofNat 32 j) = lane (mem (a.extractLsb' 2 n)) (a.toNat % 4 + j) := by
  have ht := toNat_add_of_aligned hm h hj
  have hq : (a.toNat + j) / 4 = a.toNat / 4 ∧ (a.toNat + j) % 4 = a.toNat % 4 + j := by
    rcases hm with rfl | rfl | rfl <;> omega
  have hi : (a + BitVec.ofNat 32 j).extractLsb' 2 n = a.extractLsb' 2 n := by
    apply BitVec.eq_of_toNat_eq
    rw [BitVec.extractLsb'_toNat, BitVec.extractLsb'_toNat, ht, Nat.shiftRight_eq_div_pow,
      Nat.shiftRight_eq_div_pow]
    exact congrArg (· % 2 ^ n) hq.1
  rw [byteOf, hi, ht, hq.2]

theorem lane_append (w : Word) (j : ℕ) : lane w (j + 1) ++ lane w j = w.extractLsb' (8 * j) 16 := by
  apply BitVec.eq_of_getLsbD_eq
  intro i hi
  rw [BitVec.getLsbD_append, lane, lane, BitVec.getLsbD_extractLsb', BitVec.getLsbD_extractLsb',
    BitVec.getLsbD_extractLsb']
  by_cases h : i < 8
  · simp [h, show i < 16 by omega]
  · simp [h, show i - 8 < 8 by omega, show i < 16 by omega,
      show 8 * (j + 1) + (i - 8) = 8 * j + i by omega]

theorem lanes_word (w : Word) : lane w 3 ++ (lane w 2 ++ (lane w 1 ++ lane w 0)) = w := by
  have h : lane w 3 ++ (lane w 2 ++ (lane w 1 ++ lane w 0)) =
      (lane w 3 ++ lane w 2) ++ (lane w 1 ++ lane w 0) := BitVec.append_assoc.symm
  rw [h, lane_append w 2, lane_append w 0]
  apply BitVec.eq_of_getLsbD_eq
  intro i hi
  rw [BitVec.getLsbD_append, BitVec.getLsbD_extractLsb', BitVec.getLsbD_extractLsb']
  by_cases hl : i < 16
  · simp [hl]
  · simp [hl, show i - 16 < 16 by omega, show 16 + (i - 16) = i by omega]

theorem selByte_eq (w : Word) : d.selByte w = lane w (d.addr.toNat % 4) := by
  rw [← byteOff_toNat]
  rcases byteOff_cases d.byteOff with ho | ho | ho | ho <;> simp [DMemIn.selByte, ho, lane]

theorem selHalf_eq (w : Word) :
    d.selHalf w = lane w (2 * (d.addr.toNat % 4 / 2) + 1) ++ lane w (2 * (d.addr.toNat % 4 / 2)) := by
  rw [lane_append, ← byteOff_toNat]
  rcases byteOff_cases d.byteOff with ho | ho | ho | ho <;> simp [DMemIn.selHalf, ho]

/-- An address rounded down to a multiple of the access size. -/
def alignDown (a : Word) (n : ℕ) : Word := BitVec.ofNat 32 (a.toNat - a.toNat % n)

theorem toNat_alignDown (a : Word) (n : ℕ) : (alignDown a n).toNat = a.toNat - a.toNat % n := by
  have := a.isLt
  rw [alignDown, BitVec.toNat_ofNat]
  exact Nat.mod_eq_of_lt (by omega)

theorem alignDown_of_aligned {n : ℕ} (h : a.toNat % n = 0) : alignDown a n = a := by
  apply BitVec.eq_of_toNat_eq
  rw [toNat_alignDown, h, Nat.sub_zero]

/-- A load reads the value the manual gives it at the address rounded down. -/
theorem readData_alignDown (mem : DMem p.dmemIdxW) (k : F3Load) (hr : d.memRead = true)
    (hm : d.isMmio p = false) (hs : d.memSize = loadMemSize k)
    (hu : d.memUnsigned = loadUnsigned k) :
    d.readData p mem = loadValue (byteOf mem) (alignDown d.addr (loadSize k)) k := by
  have ht := toNat_alignDown d.addr (loadSize k)
  have hq : (alignDown d.addr (loadSize k)).toNat / 4 = d.addr.toNat / 4 ∧
      (alignDown d.addr (loadSize k)).toNat % loadSize k = 0 ∧
      (alignDown d.addr (loadSize k)).toNat % 4 =
        loadSize k * (d.addr.toNat % 4 / loadSize k) := by
    rw [ht]
    rcases loadSize_cases k with h | h | h <;> rw [h] <;> omega
  obtain ⟨hdiv, hal, hmod⟩ := hq
  have hidx : (alignDown d.addr (loadSize k)).extractLsb' 2 p.dmemIdxW = d.wordIdx p := by
    apply BitVec.eq_of_toNat_eq
    rw [DMemIn.wordIdx, BitVec.extractLsb'_toNat, BitVec.extractLsb'_toNat,
      Nat.shiftRight_eq_div_pow, Nat.shiftRight_eq_div_pow]
    exact congrArg (· % 2 ^ p.dmemIdxW) hdiv
  have hb : ∀ j < loadSize k, byteOf mem (alignDown d.addr (loadSize k) + BitVec.ofNat 32 j) =
      lane (mem (d.wordIdx p)) (loadSize k * (d.addr.toNat % 4 / loadSize k) + j) := by
    intro j hj
    rw [byteOf_add mem (loadSize_cases k) hal hj, hidx, hmod]
  have h0 : byteOf mem (alignDown d.addr (loadSize k)) =
      lane (mem (d.wordIdx p)) (loadSize k * (d.addr.toNat % 4 / loadSize k)) := by
    rw [byteOf, hidx, hmod]
  generalize alignDown d.addr (loadSize k) = a at h0 hb
  simp only [DMemIn.readData, hr, hm, hs, hu, if_true, Bool.false_eq_true, if_false]
  cases k with
  | lb =>
    simp only [loadSize, Nat.one_mul, Nat.div_one] at h0
    simp only [loadMemSize, loadUnsigned, Bool.false_eq_true, if_false, loadValue, h0, selByte_eq]
    exact replicate_append (k := 24) _ _ (by simp [BitVec.msb_eq_getLsbD_last])
  | lbu =>
    simp only [loadSize, Nat.one_mul, Nat.div_one] at h0
    simp only [loadMemSize, loadUnsigned, if_true, loadValue, h0, selByte_eq]
    exact zero_append (k := 24) _
  | lh =>
    have h1 := hb 1 (by simp [loadSize])
    simp only [loadSize] at h0 h1
    simp only [loadMemSize, loadUnsigned, Bool.false_eq_true, if_false, loadValue, h0, h1,
      selHalf_eq]
    exact replicate_append (k := 16) _ _ (by simp [BitVec.msb_eq_getLsbD_last])
  | lhu =>
    have h1 := hb 1 (by simp [loadSize])
    simp only [loadSize] at h0 h1
    simp only [loadMemSize, loadUnsigned, if_true, loadValue, h0, h1, selHalf_eq]
    exact zero_append (k := 16) _
  | lw =>
    have h4 : d.addr.toNat % 4 / 4 = 0 := by omega
    have h1 := hb 1 (by simp [loadSize])
    have h2 := hb 2 (by simp [loadSize])
    have h3 := hb 3 (by simp [loadSize])
    simp only [loadSize, h4, Nat.mul_zero, Nat.zero_add] at h0 h1 h2 h3
    simp only [loadMemSize, loadValue, h0, h1, h2, h3]
    exact (lanes_word _).symm

end Bytes
end RiscForge.Rtl
