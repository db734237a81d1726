import Mathlib.Data.Int.ModEq
import Mathlib.Tactic.NormNum
import Mathlib.Tactic.Positivity
import Mathlib.Tactic.Ring
import RiscForge.Lib.PyInt

/-! Serial layout: items placed one after the other from a base, with alignment padding. -/
namespace RiscForge.Lib

section RoundUp
variable (x : ℤ) (k : ℕ)

/-- How far `x` is below the next multiple of `2 ^ k`. -/
def padBelow : ℤ := -x % 2 ^ k

theorem two_pow_pos : (0 : ℤ) < 2 ^ k := by positivity

theorem padBelow_nonneg : 0 ≤ padBelow x k := Int.emod_nonneg _ (two_pow_pos k).ne'

theorem padBelow_lt : padBelow x k < 2 ^ k := Int.emod_lt_of_pos _ (two_pow_pos k)

theorem dvd_add_padBelow : (2 : ℤ) ^ k ∣ x + padBelow x k := by
  have h : x + padBelow x k = -(-x - -x % 2 ^ k) := by
    unfold padBelow
    ring
  rw [h, Int.dvd_neg]
  exact Int.dvd_self_sub_emod

variable {x k}

theorem padBelow_congr {y : ℤ} (h : (2 : ℤ) ^ k ∣ x - y) : padBelow x k = padBelow y k := by
  apply Int.ModEq.eq
  exact ((Int.modEq_iff_dvd.mpr h).neg).symm

theorem padBelow_of_dvd (h : (2 : ℤ) ^ k ∣ x) : padBelow x k = 0 :=
  Int.emod_eq_zero_of_dvd (Int.dvd_neg.mpr h)

theorem nat_or_mask (a : ℕ) : a ||| (2 ^ k - 1) = 2 ^ k * (a / 2 ^ k) + (2 ^ k - 1) := by
  have hlt : 2 ^ k - 1 < 2 ^ k := by have := Nat.two_pow_pos k; omega
  have hr := Nat.mod_lt a (Nat.two_pow_pos k)
  rw [Nat.two_pow_add_eq_or_of_lt hlt]
  conv_lhs => rw [← Nat.div_add_mod a (2 ^ k), Nat.two_pow_add_eq_or_of_lt hr, Nat.or_assoc]
  congr 1
  apply Nat.eq_of_testBit_eq
  intro i
  rw [Nat.testBit_or, Nat.testBit_two_pow_sub_one]
  by_cases hi : i < k
  · simp [hi]
  · rw [Nat.testBit_lt_two_pow (lt_of_lt_of_le hr (Nat.pow_le_pow_right (by omega) (by omega)))]
    simp

theorem nat_ldiff_mask (a : ℕ) : Nat.ldiff a (2 ^ k - 1) = 2 ^ k * (a / 2 ^ k) := by
  apply Nat.eq_of_testBit_eq
  intro i
  rw [Nat.testBit_ldiff, Nat.testBit_two_pow_sub_one, Nat.testBit_two_pow_mul]
  by_cases hi : i < k
  · simp [hi, show ¬ i ≥ k by omega]
  · rw [Nat.testBit_div_two_pow, show i - k + k = i by omega]
    simp [hi, show i ≥ k by omega]

/-- Clearing the low `k` bits rounds down. -/
theorem and_not_mask (x : ℤ) (k : ℕ) : x &&& ~~~((1 : ℤ) <<< k - 1) = x - x % 2 ^ k := by
  have hm : ~~~((1 : ℤ) <<< k - 1) = Int.negSucc (2 ^ k - 1) := by
    have h : ((1 : ℤ) <<< k - 1) = ((2 ^ k - 1 : ℕ) : ℤ) := by
      rw [Int.shiftLeft_eq, Nat.cast_sub Nat.one_le_two_pow]
      norm_num
    rw [h]
    rfl
  rw [hm]
  cases x with
  | ofNat a =>
    change ((Nat.ldiff a (2 ^ k - 1) : ℕ) : ℤ) = _
    have hdm := Nat.div_add_mod a (2 ^ k)
    rw [nat_ldiff_mask]
    change _ = (a : ℤ) - (a : ℤ) % 2 ^ k
    have hcast : (a : ℤ) % 2 ^ k = ((a % 2 ^ k : ℕ) : ℤ) := by push_cast; rfl
    rw [hcast]
    omega
  | negSucc a =>
    change Int.negSucc (a ||| (2 ^ k - 1)) = _
    rw [nat_or_mask]
    have hdm := Nat.div_add_mod a (2 ^ k)
    have hr := Nat.mod_lt a (Nat.two_pow_pos k)
    have hmod : Int.negSucc a % 2 ^ k = ((2 ^ k - 1 - a % 2 ^ k : ℕ) : ℤ) := by
      have hc : (2 : ℤ) ^ k = ((2 ^ k : ℕ) : ℤ) := by push_cast; rfl
      rw [hc, Int.negSucc_emod _ (by exact_mod_cast Nat.two_pow_pos k)]
      omega
    rw [hmod, Int.negSucc_eq, Int.negSucc_eq]
    omega

theorem roundUp_eq (x : ℤ) (k : ℕ) :
    x + (1 : ℤ) <<< k - 1 &&& ~~~((1 : ℤ) <<< k - 1) = x + padBelow x k := by
  have hb : (1 : ℤ) <<< k = 2 ^ k := by rw [Int.shiftLeft_eq, one_mul]
  have hpos := two_pow_pos k
  rw [and_not_mask, hb]
  have hlt := padBelow_lt x k
  have hnn := padBelow_nonneg x k
  obtain ⟨q, hq⟩ := dvd_add_padBelow x k
  have hx : x + 2 ^ k - 1 = (2 ^ k - 1 - padBelow x k) + 2 ^ k * q := by rw [← hq]; ring
  rw [hx, Int.add_mul_emod_self_left, Int.emod_eq_of_lt (by omega) (by omega), ← hq]
  ring

end RoundUp

section Items

/-- Something that takes room: a number of bytes, or the padding to a multiple of `2 ^ k`. -/
inductive Item
  | bytes (n : ℕ)
  | align (k : ℕ)
  deriving DecidableEq, Repr

namespace Item

def room : Item → ℤ
  | bytes n => n
  | align _ => 0

def pad (pos : ℤ) : Item → ℤ
  | bytes _ => 0
  | align k => padBelow pos k

/-- Where an item that starts at `pos` stops. -/
def stop (pos : ℤ) (i : Item) : ℤ := pos + (i.room + i.pad pos)

variable (i : Item) (pos : ℤ)

theorem pad_nonneg : 0 ≤ i.pad pos := by
  cases i with
  | bytes n => exact le_rfl
  | align k => exact padBelow_nonneg pos k

theorem room_nonneg : 0 ≤ i.room := by
  cases i with
  | bytes n => exact Int.natCast_nonneg n
  | align k => exact le_rfl

theorem le_stop : pos ≤ i.stop pos := by
  have := i.pad_nonneg pos
  have := i.room_nonneg
  unfold stop
  omega

end Item

/-- Where the items stop, placed in order from `pos`. -/
def stopAt (items : List Item) (pos : ℤ) : ℤ := items.foldl Item.stop pos

/-- The bytes of the items, and the padding between them. -/
def content (items : List Item) : ℤ := (items.map Item.room).sum

def padding : List Item → ℤ → ℤ
  | [], _ => 0
  | i :: items, pos => i.pad pos + padding items (i.stop pos)

variable {items : List Item} {pos b : ℤ}

theorem padding_nonneg (items : List Item) (pos : ℤ) : 0 ≤ padding items pos := by
  induction items generalizing pos with
  | nil => exact le_rfl
  | cons i items ih => exact add_nonneg (i.pad_nonneg pos) (ih (i.stop pos))

theorem le_stopAt (items : List Item) (pos : ℤ) : pos ≤ stopAt items pos := by
  induction items generalizing pos with
  | nil => exact le_rfl
  | cons i items ih => exact (i.le_stop pos).trans (ih (i.stop pos))

theorem stopAt_eq (items : List Item) (pos : ℤ) :
    stopAt items pos = pos + content items + padding items pos := by
  induction items generalizing pos with
  | nil => simp [stopAt, content, padding]
  | cons i items ih =>
    have h := ih (i.stop pos)
    simp only [stopAt, List.foldl_cons, content, List.map_cons, List.sum_cons, padding] at h ⊢
    rw [h]
    unfold Item.stop
    ring

/-- From two bases that agree modulo 4, the paddings of an item agree modulo 4, and so do its
ends. -/
theorem four_dvd_pad_sub (i : Item) (h : 4 ∣ pos - b) : 4 ∣ i.pad pos - i.pad b := by
  cases i with
  | bytes n => simp [Item.pad]
  | align k =>
    by_cases hk : k ≤ 2
    · have hd : (2 : ℤ) ^ k ∣ pos - b := by
        have h4 : (2 : ℤ) ^ k ∣ 2 ^ 2 := pow_dvd_pow 2 hk
        exact h4.trans h
      simp [Item.pad, padBelow_congr hd]
    · have h4 : (4 : ℤ) ∣ 2 ^ k := by
        have : (2 : ℤ) ^ 2 ∣ 2 ^ k := pow_dvd_pow 2 (by omega)
        exact this
      have hp := h4.trans (dvd_add_padBelow pos k)
      have hb := h4.trans (dvd_add_padBelow b k)
      simp only [Item.pad]
      omega

theorem four_dvd_padding_sub (items : List Item) (h : 4 ∣ pos - b) :
    4 ∣ padding items pos - padding items b := by
  induction items generalizing pos b with
  | nil => simp [padding]
  | cons i items ih =>
    have hi := four_dvd_pad_sub i h
    have hs : 4 ∣ i.stop pos - i.stop b := by
      unfold Item.stop
      omega
    have ht := ih hs
    simp only [padding]
    omega

/-- The room that the items need from 0, rounded up to a multiple of 4, is enough from another
multiple of 4 exactly if there is no more padding there. -/
theorem stopAt_le_iff (items : List Item) (h : 4 ∣ b) :
    stopAt items b ≤ b + (stopAt items 0 + padBelow (stopAt items 0) 2) ↔
      padding items b ≤ padding items 0 := by
  have hd : 4 ∣ padding items b - padding items 0 := four_dvd_padding_sub items (by simpa using h)
  have hlt := padBelow_lt (stopAt items 0) 2
  have hnn := padBelow_nonneg (stopAt items 0) 2
  rw [stopAt_eq items b]
  have h0 := stopAt_eq items 0
  norm_num at hlt
  constructor
  · intro hle
    omega
  · intro hle
    omega

/-- No padding is lost from a base that every alignment of the items divides. -/
theorem padding_eq_of_dvd (items : List Item) (h : ∀ k, Item.align k ∈ items → (2 : ℤ) ^ k ∣ pos - b) :
    padding items pos = padding items b := by
  induction items generalizing pos b with
  | nil => rfl
  | cons i items ih =>
    have hi : i.pad pos = i.pad b := by
      cases i with
      | bytes n => rfl
      | align k => exact padBelow_congr (h k (List.mem_cons_self ..))
    have hs : i.stop pos - i.stop b = pos - b := by
      unfold Item.stop
      omega
    have htail : padding items (i.stop pos) = padding items (i.stop b) := by
      refine ih fun k hk => ?_
      rw [hs]
      exact h k (List.mem_cons_of_mem _ hk)
    rw [padding, padding, hi, htail]

end Items

section Start

/-- The alignments before the first byte of the items. -/
def lead : List Item → List ℕ
  | [] => []
  | .align k :: items => k :: lead items
  | .bytes 0 :: items => lead items
  | .bytes (_ + 1) :: _ => []

/-- Where the first byte of the items goes, placed from `pos`. -/
def start (items : List Item) (pos : ℤ) : ℤ :=
  (lead items).foldl (fun p k => p + padBelow p k) pos

variable {items : List Item} {pos : ℤ}

theorem start_align (k : ℕ) (items : List Item) (pos : ℤ) :
    start (.align k :: items) pos = start items (pos + padBelow pos k) := rfl

theorem le_foldl_pad (ks : List ℕ) (pos : ℤ) :
    pos ≤ ks.foldl (fun p k => p + padBelow p k) pos := by
  induction ks generalizing pos with
  | nil => exact le_rfl
  | cons k ks ih =>
    rw [List.foldl_cons]
    have := padBelow_nonneg pos k
    have := ih (pos + padBelow pos k)
    omega

theorem le_start (items : List Item) (pos : ℤ) : pos ≤ start items pos := le_foldl_pad _ pos

/-- Nothing comes before the first byte exactly if every leading alignment is met already. -/
theorem start_eq_iff (items : List Item) (pos : ℤ) :
    start items pos = pos ↔ ∀ k ∈ lead items, (2 : ℤ) ^ k ∣ pos := by
  unfold start
  induction lead items with
  | nil => simp
  | cons k ks ih =>
    rw [List.foldl_cons, List.forall_mem_cons]
    have hnn := padBelow_nonneg pos k
    have hks := le_foldl_pad ks (pos + padBelow pos k)
    constructor
    · intro h
      have h0 : padBelow pos k = 0 := by omega
      rw [h0, add_zero] at h
      have hd := dvd_add_padBelow pos k
      rw [h0, add_zero] at hd
      exact ⟨hd, ih.mp h⟩
    · rintro ⟨hd, h⟩
      rw [padBelow_of_dvd hd, add_zero]
      exact ih.mpr h

theorem start_zero (items : List Item) : start items 0 = 0 :=
  (start_eq_iff items 0).mpr fun _ _ => dvd_zero _

/-- Leading alignments keep the alignment of the base. -/
theorem start_dvd {b : ℕ} (hb : (2 : ℤ) ^ b ∣ pos) : (2 : ℤ) ^ b ∣ start items pos := by
  unfold start
  induction lead items generalizing pos with
  | nil => exact hb
  | cons k ks ih =>
    rw [List.foldl_cons]
    apply ih
    by_cases hk : k ≤ b
    · rw [padBelow_of_dvd ((pow_dvd_pow 2 hk).trans hb), add_zero]
      exact hb
    · exact (pow_dvd_pow 2 (by omega)).trans (dvd_add_padBelow pos k)

/-- The first byte of a part does not come before that of the whole. -/
theorem start_append_le (xs items : List Item) (pos : ℤ) :
    start (xs ++ items) pos ≤ start items (stopAt xs pos) := by
  induction xs generalizing pos with
  | nil => exact le_rfl
  | cons i xs ih =>
    cases i with
    | align k =>
      have hstop : stopAt (.align k :: xs) pos = stopAt xs (pos + padBelow pos k) := by
        simp [stopAt, Item.stop, Item.room, Item.pad]
      rw [List.cons_append, start_align, hstop]
      exact ih _
    | bytes n =>
      cases n with
      | zero =>
        have hstop : stopAt (.bytes 0 :: xs) pos = stopAt xs pos := by
          simp [stopAt, Item.stop, Item.room, Item.pad]
        rw [hstop]
        exact ih pos
      | succ n => exact (le_stopAt (.bytes (n + 1) :: xs) pos).trans (le_start items _)

theorem content_nonneg (items : List Item) : 0 ≤ content items :=
  List.sum_nonneg (by simpa using fun i _ => Item.room_nonneg i)

theorem content_append (xs items : List Item) :
    content (xs ++ items) = content xs + content items := by
  simp [content]

/-- Items without a byte take no room from 0. -/
theorem stopAt_zero_of_content (h : content items = 0) : stopAt items 0 = 0 := by
  induction items with
  | nil => rfl
  | cons i items ih =>
    have hi := i.room_nonneg
    have hr := content_nonneg items
    have hsum : i.room + content items = 0 := h
    have hstop : i.stop 0 = 0 := by
      unfold Item.stop
      cases i with
      | bytes n =>
        simp only [Item.room, Item.pad] at hi hsum ⊢
        omega
      | align k =>
        simp only [Item.room, Item.pad]
        rw [padBelow_of_dvd (dvd_zero _)]
        rfl
    rw [stopAt, List.foldl_cons, hstop]
    exact ih (by omega)

end Start

section Bytes

/-- A byte of the items, placed in order from `pos`, goes to the address `a`. -/
def Occupies : List Item → ℤ → ℤ → Prop
  | [], _, _ => False
  | i :: items, pos, a => (pos ≤ a ∧ a < pos + i.room) ∨ Occupies items (i.stop pos) a

variable {items : List Item} {pos a : ℤ}

theorem occupies_append (xs items : List Item) (pos a : ℤ) :
    Occupies (xs ++ items) pos a ↔ Occupies xs pos a ∨ Occupies items (stopAt xs pos) a := by
  induction xs generalizing pos with
  | nil => simp [Occupies, stopAt]
  | cons i xs ih =>
    rw [List.cons_append, Occupies, Occupies, ih, or_assoc]
    rfl

theorem occupies_bytes (n : ℕ) : Occupies [.bytes n] pos a ↔ pos ≤ a ∧ a < pos + n := by
  simp [Occupies, Item.room]

theorem not_occupies_align (k : ℕ) : ¬ Occupies [.align k] pos a := by
  rintro (⟨h1, h2⟩ | h)
  · simp only [Item.room] at h2
    omega
  · exact h

/-- Nothing goes before the base, nor behind the stop. -/
theorem Occupies.range (h : Occupies items pos a) : pos ≤ a ∧ a < stopAt items pos := by
  induction items generalizing pos with
  | nil => exact h.elim
  | cons i items ih =>
    rcases h with ⟨h1, h2⟩ | h
    · have hle : i.stop pos ≤ stopAt (i :: items) pos := le_stopAt items (i.stop pos)
      have hp := i.pad_nonneg pos
      unfold Item.stop at hle
      exact ⟨h1, by omega⟩
    · obtain ⟨h1, h2⟩ := ih h
      exact ⟨(i.le_stop pos).trans h1, h2⟩

end Bytes
end RiscForge.Lib
