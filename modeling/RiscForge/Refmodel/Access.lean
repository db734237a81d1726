import RiscForge.Isa.Insn
import RiscForge.Refmodel.Bits

/-! The emulator's loads and stores, method by method. -/
namespace RiscForge.Refmodel

open Lib Rtl Isa

section Monad
variable {α β : Type} {s s' : RV32I} {a : α} {e : Raised} {x : Emu α} {f : α → Emu β}

theorem bind_ok (h : x s = .ok a s') : (x >>= f) s = f a s' := by
  change EStateM.bind x f s = _
  rw [EStateM.bind, h]

theorem bind_error (h : x s = .error e s') : (x >>= f) s = .error e s' := by
  change EStateM.bind x f s = _
  rw [EStateM.bind, h]

@[simp] theorem get_bind {f : RV32I → Emu β} : ((get : Emu RV32I) >>= f) s = f s s := rfl

@[simp] theorem set_run : (set s' : Emu PUnit) s = .ok () s' := rfl

@[simp] theorem pure_run : (pure a : Emu α) s = .ok a s := rfl

@[simp] theorem modify_run {g : RV32I → RV32I} : (modify g : Emu PUnit) s = .ok () (g s) := rfl

@[simp] theorem throw_run : (throw e : Emu α) s = .error e s := rfl

theorem wr_run {idx v : ℤ} : wr idx v s = .ok () (s.wr idx v) := rfl

end Monad

section Memory
variable {s : RV32I} {addr size : ℤ}

/-- The `size` bytes at `addr` lie in the emulator's memory. -/
def InMem (s : RV32I) (addr size : ℤ) : Prop :=
  s.memBase ≤ addr ∧ addr + size ≤ s.memBase + s.mem.length

/-- The byte the memory holds at `a`. -/
def RV32I.byte (s : RV32I) (a : Word) : BitVec 8 := byteAt s.mem (a.toNat - s.memBase).toNat

theorem memIndex_ok (h : InMem s addr size) :
    memIndex addr size s = .ok (addr - s.memBase).toNat s := by
  unfold InMem at h
  simp only [memIndex, get_bind]
  rw [if_neg (by omega)]
  rfl

theorem memIndex_error (h : ¬ InMem s addr size) :
    ∃ d, memIndex addr size s = .error (.trap ⟨.memRange, s.pc, d⟩) s := by
  unfold InMem at h
  simp only [memIndex, get_bind]
  rw [if_pos (by omega)]
  exact ⟨_, rfl⟩

theorem and_mask_natCast (n k : ℕ) : (n : ℤ) &&& ((2 ^ k - 1 : ℕ) : ℤ) = ((n % 2 ^ k : ℕ) : ℤ) := by
  rw [natCast_and, Nat.and_two_pow_sub_one_eq_mod]

theorem and_three (n : ℕ) : (n : ℤ) &&& 0x3 = ((n % 4 : ℕ) : ℤ) := and_mask_natCast n 2

/-- The alignment test of `load` and `store`. -/
theorem unaligned_iff (n : ℕ) {size : ℕ} (h : size = 1 ∨ size = 2 ∨ size = 4) :
    (((size : ℤ) = 2 ∨ (size : ℤ) = 4) ∧ (n : ℤ) &&& ((size : ℤ) - 1) ≠ 0) ↔ n % size ≠ 0 := by
  rcases h with rfl | rfl | rfl
  · simp [Nat.mod_one]
  · have hm : (n : ℤ) &&& (((2 : ℕ) : ℤ) - 1) = ((n % 2 : ℕ) : ℤ) := and_mask_natCast n 1
    rw [hm]
    omega
  · have hm : (n : ℤ) &&& (((4 : ℕ) : ℤ) - 1) = ((n % 4 : ℕ) : ℤ) := and_mask_natCast n 2
    rw [hm]
    omega

theorem fetch_misaligned {n : ℕ} (h : n % 4 ≠ 0) :
    ∃ d, fetch n s = .error (.trap ⟨.misalignedFetch, s.pc, d⟩) s := by
  simp only [fetch, get_bind, and_three]
  rw [if_pos (by omega)]
  exact ⟨_, rfl⟩

theorem fetch_outside {n : ℕ} (ha : n % 4 = 0) (h : ¬ InMem s n 4) :
    ∃ d, fetch n s = .error (.trap ⟨.memRange, s.pc, d⟩) s := by
  obtain ⟨d, hd⟩ := memIndex_error h
  simp only [fetch, get_bind, and_three]
  rw [if_neg (by omega)]
  exact ⟨d, bind_error hd⟩

theorem fetch_ok {n : ℕ} (ha : n % 4 = 0) (h : InMem s n 4) :
    fetch n s = .ok (unpackFrom s.mem (n - s.memBase).toNat 4 : ℤ) s := by
  simp only [fetch, get_bind, and_three]
  rw [if_neg (by omega), bind_ok (memIndex_ok h)]
  rfl

end Memory

section Load
variable {s : RV32I} {a : Word}

theorem byte_add {n : ℕ} (hn : n = 1 ∨ n = 2 ∨ n = 4) (h : a.toNat % n = 0)
    (hb : s.memBase ≤ a.toNat) {j : ℕ} (hj : j < n) :
    s.byte (a + BitVec.ofNat 32 j) = byteAt s.mem ((a.toNat - s.memBase).toNat + j) := by
  rw [RV32I.byte, toNat_add_of_aligned hn h hj]
  congr 1
  omega

theorem byte_self : s.byte a = byteAt s.mem ((a.toNat - s.memBase).toNat + 0) := rfl

/-- Masking a sign-extended value back to 32 bits. -/
theorem sext_mask {n : ℕ} (b : BitVec (n + 1)) :
    sext (b.toNat : ℤ) (n + 1) &&& XMASK = ((b.signExtend 32).toNat : ℤ) := by
  rw [sext_toNat]
  exact u32_eq _

/-- Whether a load extends the sign of what it reads. -/
def loadSigned : F3Load → Bool
  | .lb | .lh => true
  | .lw | .lbu | .lhu => false

theorem loadValue_run (pc : ℤ) {f3 : ℤ} {k : F3Load} (hk : IntEnum.ofValue f3 = some k) :
    loadValue f3 a.toNat pc s = load a.toNat (loadSize k) (loadSigned k) s := by
  cases k <;> simp [loadValue, hk, loadSize, loadSigned]

theorem load_misaligned {n : ℕ} (hn : n = 1 ∨ n = 2 ∨ n = 4) (h : a.toNat % n ≠ 0) (b : Bool) :
    ∃ d, load a.toNat n b s = .error (.trap ⟨.misalignedLoad, s.pc, d⟩) s := by
  simp only [load, get_bind]
  rw [if_pos ((unaligned_iff _ hn).mpr h)]
  exact ⟨_, rfl⟩

/-- An aligned load in memory returns the value the manual gives it. -/
theorem load_ok (k : F3Load) (h : a.toNat % loadSize k = 0) (hm : InMem s a.toNat (loadSize k)) :
    load a.toNat (loadSize k) (loadSigned k) s =
      .ok ((Isa.loadValue s.byte a k).toNat : ℤ) s := by
  have hn := loadSize_cases k
  have hbyte : ∀ j < loadSize k, byteAt s.mem ((a.toNat - s.memBase).toNat + j) =
      s.byte (a + BitVec.ofNat 32 j) := fun j hj => (byte_add hn h hm.1 hj).symm
  simp only [load, get_bind]
  rw [if_neg (by simpa [h] using unaligned_iff a.toNat hn), bind_ok (memIndex_ok hm)]
  cases k with
  | lb =>
    have hu : unpackFrom s.mem (a.toNat - s.memBase).toNat 1 = (s.byte a).toNat := by
      rw [byte_self]
      simp [unpackFrom, leNat]
    simp only [loadSize, loadSigned, hu, Nat.cast_one, if_true, sext_mask]
    rfl
  | lh =>
    have hu : unpackFrom s.mem (a.toNat - s.memBase).toNat 2 =
        (s.byte (a + 1#32) ++ s.byte a).toNat := by
      rw [unpackFrom, leNat_two, hbyte 1 (by simp [loadSize])]
      rfl
    have hs := sext_mask (n := 15) (s.byte (a + 1#32) ++ s.byte a)
    simp [loadSize, loadSigned, hu, Isa.loadValue, hs]
  | lw =>
    have hu : unpackFrom s.mem (a.toNat - s.memBase).toNat 4 =
        (s.byte (a + 3#32) ++ (s.byte (a + 2#32) ++ (s.byte (a + 1#32) ++ s.byte a))).toNat := by
      rw [unpackFrom, leNat_four, hbyte 1 (by simp [loadSize]), hbyte 2 (by simp [loadSize]),
        hbyte 3 (by simp [loadSize])]
      rfl
    simp [loadSize, hu, Isa.loadValue]
  | lbu =>
    have hu : unpackFrom s.mem (a.toNat - s.memBase).toNat 1 = (s.byte a).toNat := by
      rw [byte_self]
      simp [unpackFrom, leNat]
    have hlt := (s.byte a).isLt
    simp [loadSize, loadSigned, hu, Isa.loadValue]
    omega
  | lhu =>
    have hu : unpackFrom s.mem (a.toNat - s.memBase).toNat 2 =
        (s.byte (a + 1#32) ++ s.byte a).toNat := by
      rw [unpackFrom, leNat_two, hbyte 1 (by simp [loadSize])]
      rfl
    have hlt := (s.byte (a + 1#32) ++ s.byte a).isLt
    simp [loadSize, loadSigned, hu, Isa.loadValue]
    omega

end Load

section Store
variable {s : RV32I} {a v : Word}

/-- The memory with the low bytes of `v` stored at `a`. -/
def RV32I.storeMem (s : RV32I) (a v : Word) (n : ℕ) : List (BitVec 8) :=
  packInto s.mem (a.toNat - s.memBase).toNat v.toNat n

theorem storeSize_run {f3 pc : ℤ} {k : F3Store} (hk : IntEnum.ofValue f3 = some k) :
    storeSize f3 pc s = .ok (Isa.storeSize k : ℤ) s := by
  cases k <;> simp [storeSize, hk, Isa.storeSize]

/-- Only the low bytes of the value are written. -/
theorem packInto_congr {mem : List (BitVec 8)} {i v u n : ℕ} (h : v % 256 ^ n = u % 256 ^ n) :
    packInto mem i v n = packInto mem i u n := by
  have hbyte : ∀ j < n, leByte v j = leByte u j := by
    intro j hj
    rw [← leByte_leNat (f := leByte v) hj, leNat_leByte, h, ← leNat_leByte, leByte_leNat hj]
  clear h
  induction n with
  | zero => rfl
  | succ n ih =>
    rw [packInto, packInto, ih (fun j hj => hbyte j (by omega)), hbyte n (by omega)]

theorem store_tohost {n : ℤ} (h : (a.toNat : ℤ) = s.tohostAddr) :
    store a.toNat v.toNat n s = .ok () { s with
      tohostValue := some (v.toNat : ℤ)
      halted := true
      haltReason := some (if v = 1#32 then .tohostPass else .tohostFail) } := by
  have hv : u32 (v.toNat : ℤ) = (v.toNat : ℤ) := by rw [u32_eq, ofInt_toNat]
  have h1 : ((v.toNat : ℤ) = 1) ↔ v = 1#32 := by
    rw [← BitVec.toNat_inj]
    simp
  simp only [store, get_bind, if_pos h, set_run, hv, h1]

theorem store_misaligned {n : ℕ} (hn : n = 1 ∨ n = 2 ∨ n = 4) (ht : (a.toNat : ℤ) ≠ s.tohostAddr)
    (h : a.toNat % n ≠ 0) :
    ∃ d, store a.toNat v.toNat n s = .error (.trap ⟨.misalignedStore, s.pc, d⟩) s := by
  simp only [store, get_bind]
  rw [if_neg ht, if_pos ((unaligned_iff _ hn).mpr h)]
  exact ⟨_, rfl⟩

theorem store_ok {n : ℕ} (hn : n = 1 ∨ n = 2 ∨ n = 4) (ht : (a.toNat : ℤ) ≠ s.tohostAddr)
    (h : a.toNat % n = 0) (hm : InMem s a.toNat n) :
    store a.toNat v.toNat n s = .ok () { s with mem := s.storeMem a v n } := by
  have hv : u32 (v.toNat : ℤ) = (v.toNat : ℤ) := by rw [u32_eq, ofInt_toNat]
  have h8 : (v.toNat : ℤ) &&& 0xFF = ((v.toNat % 2 ^ 8 : ℕ) : ℤ) := and_mask_natCast _ 8
  have h16 : (v.toNat : ℤ) &&& 0xFFFF = ((v.toNat % 2 ^ 16 : ℕ) : ℤ) := and_mask_natCast _ 16
  simp only [store, get_bind]
  rw [if_neg ht, if_neg (by simpa [h] using unaligned_iff a.toNat hn), bind_ok (memIndex_ok hm)]
  rcases hn with rfl | rfl | rfl
  · have hp : packInto s.mem (a.toNat - s.memBase).toNat (v.toNat % 2 ^ 8) 1 = s.storeMem a v 1 :=
      packInto_congr (Nat.mod_mod _ _)
    rw [if_pos (by rfl), h8, Int.toNat_natCast]
    simp only [hp, set_run]
  · have hp : packInto s.mem (a.toNat - s.memBase).toNat (v.toNat % 2 ^ 16) 2 =
        s.storeMem a v 2 := packInto_congr (Nat.mod_mod _ _)
    rw [if_neg (by decide), if_pos (by rfl), h16, Int.toNat_natCast]
    simp only [hp, set_run]
  · rw [if_neg (by decide), if_neg (by decide), hv, Int.toNat_natCast]
    rfl

end Store
end RiscForge.Refmodel
