import Mathlib.Tactic.Ring
import Mathlib.Data.List.Basic

/-! Little-endian numbers in byte sequences, and reads and writes of them in a byte list. -/
namespace RiscForge.Lib

/-- The number spelled by the bytes `f 0, …, f (n - 1)`, least significant first. -/
def leNat (f : ℕ → BitVec 8) : ℕ → ℕ
  | 0 => 0
  | n + 1 => leNat f n + (f n).toNat * 256 ^ n

/-- Byte `i` of `v`. -/
def leByte (v i : ℕ) : BitVec 8 := BitVec.ofNat 8 (v / 256 ^ i)

section LittleEndian
variable {f g : ℕ → BitVec 8} {n : ℕ}

theorem leNat_lt (f : ℕ → BitVec 8) (n : ℕ) : leNat f n < 256 ^ n := by
  induction n with
  | zero => simp [leNat]
  | succ n ih =>
    have hb : (f n).toNat + 1 ≤ 256 := (f n).isLt
    calc leNat f n + (f n).toNat * 256 ^ n
        < 256 ^ n + (f n).toNat * 256 ^ n := Nat.add_lt_add_right ih _
      _ = ((f n).toNat + 1) * 256 ^ n := by ring
      _ ≤ 256 * 256 ^ n := Nat.mul_le_mul_right _ hb
      _ = 256 ^ (n + 1) := by ring

theorem leNat_congr (h : ∀ i < n, f i = g i) : leNat f n = leNat g n := by
  induction n with
  | zero => rfl
  | succ n ih =>
    rw [leNat, leNat, ih (fun i hi => h i (by omega)), h n (by omega)]

theorem leNat_leByte (v n : ℕ) : leNat (leByte v) n = v % 256 ^ n := by
  induction n with
  | zero => simp [leNat, Nat.mod_one]
  | succ n ih =>
    rw [leNat, ih, leByte, BitVec.toNat_ofNat, Nat.pow_succ 256, Nat.mod_mul,
      Nat.mul_comm (256 ^ n)]

theorem leByte_leNat {i : ℕ} (hi : i < n) : leByte (leNat f n) i = f i := by
  induction n with
  | zero => omega
  | succ n ih =>
    have hpos : ∀ k, 0 < 256 ^ k := fun k => Nat.pow_pos (by omega)
    apply BitVec.eq_of_toNat_eq
    rw [leByte, BitVec.toNat_ofNat, leNat]
    rcases Nat.lt_succ_iff_lt_or_eq.mp hi with hi | rfl
    · have hp : 256 ^ n = 256 ^ i * (256 * 256 ^ (n - i - 1)) := by
        rw [← pow_succ', ← pow_add]
        congr 1
        omega
      rw [hp, show (f n).toNat * (256 ^ i * (256 * 256 ^ (n - i - 1))) =
          256 ^ i * (256 * ((f n).toNat * 256 ^ (n - i - 1))) by ring,
        Nat.add_mul_div_left _ _ (hpos i), show 2 ^ 8 = 256 from rfl,
        Nat.add_mul_mod_self_left]
      have := congrArg BitVec.toNat (ih hi)
      rwa [leByte, BitVec.toNat_ofNat] at this
    · rw [Nat.add_mul_div_right _ _ (hpos i), Nat.div_eq_of_lt (leNat_lt f i), Nat.zero_add]
      exact Nat.mod_eq_of_lt (f i).isLt

theorem leNat_two (f : ℕ → BitVec 8) : leNat f 2 = (f 1 ++ f 0).toNat := by
  rw [BitVec.toNat_append, ← Nat.shiftLeft_add_eq_or_of_lt (f 0).isLt, Nat.shiftLeft_eq]
  simp [leNat]
  omega

theorem leNat_four (f : ℕ → BitVec 8) :
    leNat f 4 = (f 3 ++ (f 2 ++ (f 1 ++ f 0))).toNat := by
  rw [BitVec.toNat_append, ← Nat.shiftLeft_add_eq_or_of_lt (BitVec.isLt _), BitVec.toNat_append,
    ← Nat.shiftLeft_add_eq_or_of_lt (BitVec.isLt _), BitVec.toNat_append,
    ← Nat.shiftLeft_add_eq_or_of_lt (f 0).isLt]
  simp only [Nat.shiftLeft_eq, leNat]
  omega

theorem leNat_word (w : BitVec 32) : leNat (leByte w.toNat) 4 = w.toNat := by
  rw [leNat_leByte]
  exact Nat.mod_eq_of_lt w.isLt

end LittleEndian

section Buffer
variable (mem : List (BitVec 8)) (i v n : ℕ)

/-- The byte at `i`, zero past the end. -/
def byteAt (mem : List (BitVec 8)) (i : ℕ) : BitVec 8 := mem.getD i 0#8

/-- The `n`-byte number at offset `i`. -/
def unpackFrom : ℕ := leNat (fun j => byteAt mem (i + j)) n

/-- The list with the low `n` bytes of `v` written at offset `i`. -/
def packInto : ℕ → List (BitVec 8)
  | 0 => mem
  | n + 1 => (packInto n).set (i + n) (leByte v n)

@[simp] theorem length_packInto : (packInto mem i v n).length = mem.length := by
  induction n with
  | zero => rfl
  | succ n ih => rw [packInto, List.length_set, ih]

theorem byteAt_set (k : ℕ) (b : BitVec 8) (a : ℕ) (h : k < mem.length) :
    byteAt (mem.set k b) a = if a = k then b else byteAt mem a := by
  simp only [byteAt, List.getD_eq_getElem?_getD, List.getElem?_set]
  by_cases hk : k = a
  · subst hk
    simp [h]
  · simp [hk, Ne.symm hk]

/-- A write changes its own bytes and no other. -/
theorem byteAt_packInto (a : ℕ) (h : i + n ≤ mem.length) :
    byteAt (packInto mem i v n) a = if i ≤ a ∧ a < i + n then leByte v (a - i)
      else byteAt mem a := by
  induction n with
  | zero => rw [packInto, if_neg (by omega)]
  | succ n ih =>
    rw [packInto, byteAt_set _ _ _ _ (by rw [length_packInto]; omega), ih (by omega)]
    by_cases ha : a = i + n
    · subst ha
      simp
    · rw [if_neg ha]
      exact if_congr (by omega) rfl rfl

end Buffer
end RiscForge.Lib
