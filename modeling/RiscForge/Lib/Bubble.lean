import Mathlib.Data.List.Range
import Mathlib.Data.List.Nodup
import Mathlib.Logic.Equiv.Basic
import Mathlib.Order.Lattice

/-! Bubble sort of the first elements of a sequence, by a key. -/
namespace RiscForge.Lib

variable {α κ : Type} [LinearOrder κ] (key : α → κ)

/-- The elements `i` and `i + 1` in order. -/
def exchange (f : ℕ → α) (i : ℕ) : ℕ → α :=
  if key (f (i + 1)) < key (f i) then f ∘ Equiv.swap i (i + 1) else f

/-- Exchanges at `0`, ..., `k - 1`. -/
def pass (f : ℕ → α) : ℕ → ℕ → α
  | 0 => f
  | k + 1 => exchange key (pass f k) k

/-- Passes of `k`, `k - 1`, ..., `1` exchanges. -/
def bubble (f : ℕ → α) : ℕ → ℕ → α
  | 0 => f
  | k + 1 => bubble (pass key f (k + 1)) k

section Content
variable {key} {f : ℕ → α} {i j k n : ℕ}

theorem swap_perm (hi : i < n) (hj : j < n) :
    ((List.range n).map (f ∘ Equiv.swap i j)).Perm ((List.range n).map f) := by
  rw [← List.map_map]
  refine List.Perm.map f ?_
  rw [List.perm_ext_iff_of_nodup (List.Nodup.map (Equiv.injective _) List.nodup_range)
    List.nodup_range]
  intro a
  rw [List.mem_map, List.mem_range]
  constructor
  · rintro ⟨b, hb, rfl⟩
    rw [List.mem_range] at hb
    rw [Equiv.swap_apply_def]
    split_ifs <;> omega
  · intro ha
    refine ⟨Equiv.swap i j a, ?_, Equiv.swap_apply_self ..⟩
    rw [List.mem_range, Equiv.swap_apply_def]
    split_ifs <;> omega

theorem exchange_perm (h : i + 1 < n) :
    ((List.range n).map (exchange key f i)).Perm ((List.range n).map f) := by
  unfold exchange
  split
  · exact swap_perm (by omega) h
  · exact .refl _

theorem pass_perm (h : k < n) :
    ((List.range n).map (pass key f k)).Perm ((List.range n).map f) := by
  induction k with
  | zero => exact .refl _
  | succ k ih => exact (exchange_perm h).trans (ih (by omega))

/-- The elements are the same ones. -/
theorem bubble_perm (h : k < n) :
    ((List.range n).map (bubble key f k)).Perm ((List.range n).map f) := by
  induction k generalizing f with
  | zero => exact .refl _
  | succ k ih => exact (ih (by omega)).trans (pass_perm h)

end Content

section Order
variable {key} {f : ℕ → α} {i j k n : ℕ}

theorem exchange_of_gt (h : i + 1 < j) : exchange key f i j = f j := by
  unfold exchange
  split
  · rw [Function.comp_apply, Equiv.swap_apply_of_ne_of_ne (by omega) (by omega)]
  · rfl

theorem pass_of_gt (h : k < j) : pass key f k j = f j := by
  induction k with
  | zero => rfl
  | succ k ih => rw [pass, exchange_of_gt h, ih (by omega)]

theorem exchange_of_lt (h : j < i) : exchange key f i j = f j := by
  unfold exchange
  split
  · rw [Function.comp_apply, Equiv.swap_apply_of_ne_of_ne (by omega) (by omega)]
  · rfl

/-- The larger of the two comes last. -/
theorem exchange_max : key (f i) ≤ key (exchange key f i (i + 1)) ∧
    key (exchange key f i i) ≤ key (exchange key f i (i + 1)) := by
  unfold exchange
  split
  case isTrue h =>
    rw [Function.comp_apply, Function.comp_apply, Equiv.swap_apply_right, Equiv.swap_apply_left]
    exact ⟨le_rfl, h.le⟩
  case isFalse h => exact ⟨not_lt.mp h, not_lt.mp h⟩

/-- A pass leaves the largest of its elements at the end. -/
theorem pass_max (h : i ≤ k) : key (pass key f k i) ≤ key (pass key f k k) := by
  induction k generalizing i with
  | zero => rw [Nat.le_zero.mp h]
  | succ k ih =>
    obtain rfl | hk := h.eq_or_lt
    · exact le_rfl
    obtain rfl | hi := (Nat.lt_succ_iff.mp hk).eq_or_lt
    · exact exchange_max.2
    calc key (pass key f (k + 1) i) = key (pass key f k i) := by rw [pass, exchange_of_lt hi]
      _ ≤ key (pass key f k k) := ih hi.le
      _ ≤ key (pass key f (k + 1) (k + 1)) := exchange_max.1

theorem exchange_source (h : i ≤ k + 1) : ∃ j ≤ k + 1, exchange key f k i = f j := by
  unfold exchange
  split
  · exact ⟨Equiv.swap k (k + 1) i, by rw [Equiv.swap_apply_def]; split_ifs <;> omega, rfl⟩
  · exact ⟨i, h, rfl⟩

/-- What a pass puts among its elements was one of them. -/
theorem pass_source (h : i ≤ k) : ∃ j ≤ k, pass key f k i = f j := by
  induction k generalizing i with
  | zero => exact ⟨i, h, rfl⟩
  | succ k ih =>
    have hs : ∃ j ≤ k + 1, exchange key (pass key f k) k i = _ := exchange_source h
    obtain ⟨j, hj, he⟩ := hs
    obtain rfl | hlt := hj.eq_or_lt
    · exact ⟨k + 1, le_rfl, he.trans (pass_of_gt (Nat.lt_succ_self k))⟩
    · obtain ⟨l, hl, he'⟩ := ih (Nat.lt_succ_iff.mp hlt)
      exact ⟨l, hl.trans (Nat.le_succ k), he.trans he'⟩

variable (key f k n) in
/-- The elements beyond `k` are in their places. -/
def Settled : Prop := ∀ ⦃i j⦄, i ≤ j → k < j → j < n → key (f i) ≤ key (f j)

/-- A pass settles one element more. -/
theorem Settled.pass (h : Settled key f (k + 1) n) : Settled key (pass key f (k + 1)) k n := by
  intro i j hi hk hj
  obtain rfl | hlt := (Nat.succ_le_iff.mpr hk).eq_or_lt
  · exact pass_max hi
  rw [pass_of_gt hlt]
  by_cases hik : i ≤ k + 1
  · have hs : ∃ l ≤ k + 1, Lib.pass key f (k + 1) i = _ := pass_source hik
    obtain ⟨l, hl, he⟩ := hs
    rw [he]
    exact h (hl.trans hlt.le) hlt hj
  · rw [pass_of_gt (not_le.mp hik)]
    exact h hi hlt hj

theorem Settled.bubble (h : Settled key f k n) : Settled key (bubble key f k) 0 n := by
  induction k generalizing f with
  | zero => exact h
  | succ k ih => exact ih h.pass

/-- The elements are in order. -/
theorem bubble_sorted (h : n ≤ k + 1) (hi : i ≤ j) (hj : j < n) :
    key (bubble key f k i) ≤ key (bubble key f k j) := by
  have hs : Settled key f k n := fun _ _ _ hk hj => by omega
  obtain rfl | h0 := Nat.eq_zero_or_pos j
  · rw [Nat.le_zero.mp hi]
  · exact hs.bubble hi h0 hj

end Order
end RiscForge.Lib
