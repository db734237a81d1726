import RiscForge.Benchmarks.Rules

/-! Arrays of words in the memory of a program. -/
namespace RiscForge.Benchmarks

open Lib Rtl Isa Assembler

section Elements
variable {P : Program} {m m' : Word → BitVec 8} {b d v : Word} {n l i k : ℕ}

/-- The address of element `i`. -/
def slot (b : Word) (i : ℕ) : Word := b + .ofNat 32 (4 * i)

/-- Element `i` of the array at `b`. -/
def element (m : Word → BitVec 8) (b : Word) (i : ℕ) : Word := loadValue m (slot b i) .lw

/-- The elements of the array. -/
def elements (m : Word → BitVec 8) (b : Word) (n : ℕ) : List Word :=
  (List.range n).map (element m b)

/-- The array's words are data. -/
structure Cells (P : Program) (b : Word) (n : ℕ) : Prop where
  fits : b.toNat + 4 * n ≤ 2 ^ 32
  data : ∀ i < n, Data P (slot b i)

theorem slot_succ : slot b (i + 1) = slot b i + 4#32 := by
  rw [slot, slot, BitVec.add_assoc, Nat.mul_add, BitVec.ofNat_add]

theorem Cells.toNat_slot (h : Cells P b n) (hi : i < n) : (slot b i).toNat = b.toNat + 4 * i := by
  have hf := h.fits
  rw [slot, BitVec.toNat_add, BitVec.toNat_ofNat]
  omega

/-- A store to an element. -/
theorem element_storeAt (h : Cells P b n) (hk : k < n) (hi : i < n) :
    element (storeAt m (slot b k) 4 v) b i = if i = k then v else element m b i := by
  split
  case isTrue he =>
    subst he
    exact loadValue_storeAt (h.data i hi).aligned
  case isFalse hne =>
    refine loadValue_storeAt_of_ne (h.data k hk).aligned (h.data i hi).aligned fun he => hne ?_
    have := congrArg BitVec.toNat he
    rw [h.toNat_slot hk, h.toNat_slot hi] at this
    omega

/-- The memory agrees outside the array. -/
def Outside (b : Word) (n : ℕ) (m m' : Word → BitVec 8) : Prop :=
  ∀ q : Word, q.toNat < b.toNat ∨ b.toNat + 4 * n ≤ q.toNat → m' q = m q

theorem outside_storeAt (h : Cells P b n) (hk : k < n) :
    Outside b n m (storeAt m (slot b k) 4 v) := by
  intro q hq
  have hs := h.toNat_slot hk
  exact if_neg (by omega)

theorem Outside.trans {m'' : Word → BitVec 8} (h : Outside b n m m')
    (h' : Outside b n m' m'') : Outside b n m m'' :=
  fun q hq => (h' q hq).trans (h q hq)

/-- Arrays that do not overlap. -/
def Apart (d : Word) (l : ℕ) (b : Word) (n : ℕ) : Prop :=
  d.toNat + 4 * l ≤ b.toNat ∨ b.toNat + 4 * n ≤ d.toNat

theorem element_of_outside (h : Cells P d l) (ha : Apart d l b n) (ho : Outside b n m m')
    (hi : i < l) : element m' d i = element m d i := by
  refine loadValue_congr _ fun j hj => ho _ ?_
  have hj' : j < 4 := hj
  rw [toNat_add_of_aligned (.inr (.inr rfl)) (h.data i hi).aligned hj', h.toNat_slot hi]
  rcases ha with ha | ha <;> omega

end Elements
end RiscForge.Benchmarks
