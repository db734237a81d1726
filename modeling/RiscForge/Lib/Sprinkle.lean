import Mathlib.Data.List.Basic

/-! Lists with further elements put in anywhere, and the functions that do not notice them. -/
namespace RiscForge.Lib

variable {α β σ ε : Type}

/-- The second list is the first with elements that satisfy `P` put in. -/
inductive Sprinkled (P : α → Prop) : List α → List α → Prop
  | nil : Sprinkled P [] []
  | keep (a : α) {as as' : List α} (h : Sprinkled P as as') : Sprinkled P (a :: as) (a :: as')
  | add {a : α} {as as' : List α} (ha : P a) (h : Sprinkled P as as') : Sprinkled P as (a :: as')

namespace Sprinkled
variable {P : α → Prop} {Q : β → Prop} {a : α} {as as' bs bs' : List α}

theorem refl (as : List α) : Sprinkled P as as := by
  induction as with
  | nil => exact .nil
  | cons a as ih => exact .keep a ih

theorem of_forall (h : ∀ a ∈ as, P a) : Sprinkled P [] as := by
  induction as with
  | nil => exact .nil
  | cons a as ih =>
    obtain ⟨ha, h⟩ := List.forall_mem_cons.mp h
    exact .add ha (ih h)

theorem mono {R : α → Prop} (h : Sprinkled P as as') (hr : ∀ a, P a → R a) :
    Sprinkled R as as' := by
  induction h with
  | nil => exact .nil
  | keep a _ ih => exact .keep a ih
  | add ha _ ih => exact .add (hr _ ha) ih

theorem append (h : Sprinkled P as as') (hb : Sprinkled P bs bs') :
    Sprinkled P (as ++ bs) (as' ++ bs') := by
  induction h with
  | nil => exact hb
  | keep a _ ih => exact .keep a ih
  | add ha _ ih => exact .add ha ih

/-- What has been put into two lists in a row. -/
theorem append_left (h : Sprinkled P (as ++ bs) as') :
    ∃ cs ds, as' = cs ++ ds ∧ Sprinkled P as cs ∧ Sprinkled P bs ds := by
  generalize hl : as ++ bs = l at h
  induction h generalizing as with
  | nil =>
    obtain ⟨rfl, rfl⟩ := List.append_eq_nil_iff.mp hl
    exact ⟨[], [], rfl, .nil, .nil⟩
  | @keep a l l' h ih =>
    cases as with
    | nil =>
      obtain rfl : bs = a :: l := hl
      exact ⟨[], a :: l', rfl, .nil, .keep a h⟩
    | cons b as =>
      obtain ⟨rfl, ht⟩ := List.cons.inj hl
      obtain ⟨cs, ds, rfl, hc, hd⟩ := ih ht
      exact ⟨b :: cs, ds, rfl, .keep b hc, hd⟩
  | add ha _ ih =>
    obtain ⟨cs, ds, rfl, hc, hd⟩ := ih hl
    exact ⟨_ :: cs, ds, rfl, .add ha hc, hd⟩

/-- Before a given element, only elements that have been put in can stand. -/
theorem cons_left (h : Sprinkled P (a :: as) as') :
    ∃ cs ds, as' = cs ++ a :: ds ∧ (∀ c ∈ cs, P c) ∧ Sprinkled P as ds := by
  generalize hl : a :: as = l at h
  induction h with
  | nil => cases hl
  | keep b h _ =>
    obtain ⟨rfl, rfl⟩ := List.cons.inj hl
    exact ⟨[], _, rfl, nofun, h⟩
  | add hb _ ih =>
    obtain ⟨cs, ds, rfl, hc, hd⟩ := ih hl
    exact ⟨_ :: cs, ds, rfl, List.forall_mem_cons.mpr ⟨hb, hc⟩, hd⟩

theorem forall_mem {R : α → Prop} (h : Sprinkled P as as') (hp : ∀ a, P a → R a)
    (hr : ∀ a ∈ as, R a) : ∀ a ∈ as', R a := by
  induction h with
  | nil => exact nofun
  | keep a _ ih =>
    obtain ⟨ha, hr⟩ := List.forall_mem_cons.mp hr
    exact List.forall_mem_cons.mpr ⟨ha, ih hr⟩
  | add ha _ ih => exact List.forall_mem_cons.mpr ⟨hp _ ha, ih hr⟩

/-- Of elements that have been put in, each contributes elements that may be put in. -/
theorem flatMap {f : α → List β} (h : Sprinkled P as as') (hf : ∀ a, P a → ∀ b ∈ f a, Q b) :
    Sprinkled Q (as.flatMap f) (as'.flatMap f) := by
  induction h with
  | nil => exact .nil
  | keep a _ ih => exact (refl (f a)).append ih
  | add ha _ ih => exact (of_forall (hf _ ha)).append ih

/-- A loop that skips them. -/
theorem foldlM_eq {f : σ → α → Except ε σ} (h : Sprinkled P as as')
    (hf : ∀ s a, P a → f s a = .ok s) (s : σ) : as'.foldlM f s = as.foldlM f s := by
  induction h generalizing s with
  | nil => rfl
  | keep a _ ih =>
    rw [List.foldlM_cons, List.foldlM_cons]
    cases f s a with
    | error e => rfl
    | ok t => exact ih t
  | add ha _ ih =>
    rw [List.foldlM_cons, hf s _ ha]
    exact ih s

end Sprinkled
end RiscForge.Lib
