import Mathlib.Data.BitVec

/-! Enumerations with a fixed-width encoding, and the cast from raw bits back to a member. -/
namespace RiscForge.Lib

/-- An enumeration whose members have distinct `n`-bit codes. -/
class BitEnum (α : Type) (n : outParam ℕ) where
  members : List α
  bits : α → BitVec n
  mem_members : ∀ a, a ∈ members
  bits_injective : Function.Injective bits

namespace BitEnum

variable {α : Type} {n : ℕ} [BitEnum α n] {a : α} {b : BitVec n}

/-- The member with code `b`; raw bits outside the enumeration have none. -/
def ofBits (b : BitVec n) : Option α := (members : List α).find? fun a => bits a = b

theorem ofBits_eq_some : ofBits b = some a ↔ b = bits a := by
  unfold ofBits
  constructor
  · intro h
    have hb := List.find?_some h
    exact (of_decide_eq_true hb).symm
  · rintro rfl
    cases h : (members : List α).find? fun c => bits c = bits a with
    | none =>
      have hn := List.find?_eq_none.mp h a (mem_members a)
      simp at hn
    | some c =>
      have hc := List.find?_some h
      rw [bits_injective (of_decide_eq_true hc)]

@[simp] theorem ofBits_bits (a : α) : ofBits (bits a) = some a := ofBits_eq_some.mpr rfl

end BitEnum
end RiscForge.Lib
