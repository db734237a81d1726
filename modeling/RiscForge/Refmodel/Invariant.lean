import RiscForge.Refmodel.Frame

/-! The invariant of the emulator's state, over every sequence of calls. -/
namespace RiscForge.Refmodel

open Lib Rtl

/-- The states that calls of `load_program` and `step` lead to, with the number of steps that have
returned. -/
inductive Reaches (s₀ : RV32I) : RV32I → ℕ → Prop
  | init : Reaches s₀ s₀ 0
  | loadProgram {s : RV32I} {n : ℕ} (h : Reaches s₀ s n) (data : List (BitVec 8))
      (base : Option ℤ) : Reaches s₀ (stateAfter (loadProgram data base) s) n
  | returned {s s' : RV32I} {n : ℕ} {tr : StepTrace} (h : Reaches s₀ s n)
      (hs : step s = .ok tr s') : Reaches s₀ s' (n + 1)
  | raised {s s' : RV32I} {n : ℕ} {e : Raised} (h : Reaches s₀ s n)
      (hs : step s = .error e s') : Reaches s₀ s' n

/-- What holds between calls, after `n` steps have returned, of a CPU with `memSize` bytes from
`memBase` on. -/
structure Invariant (memSize : ℕ) (memBase : ℤ) (n : ℕ) (s : RV32I) : Prop where
  zero : s.regs 0#5 = 0
  regs : ∀ i, IsWord (s.regs i)
  csrs : ∀ csr v, s.csrs csr = some v → IsWord v
  pcLt : s.pc < 2 ^ 32
  pcNonneg : 0 ≤ memBase ∨ 0 < n → 0 ≤ s.pc
  memSize : s.mem.length = memSize
  halted : s.halted = true ↔ s.haltReason.isSome = true
  tohost : s.tohostValue.isSome = true → s.halted = true
  steps : s.steps = n

section Calls
variable {s s' : RV32I} {memSize n : ℕ} {memBase : ℤ} {tr : StepTrace} {data : List (BitVec 8)}
  {base : Option ℤ}

theorem invariant_init {tohostAddr : ℤ} {trapOnEcall : Bool} (hb : memBase < 2 ^ 32) :
    Invariant memSize memBase 0 (.init memSize memBase tohostAddr trapOnEcall) where
  zero := rfl
  regs _ := isWord_zero
  csrs csr v h := by
    simp only [RV32I.init] at h
    split at h <;> cases h
    exact isWord_zero
  pcLt := hb
  pcNonneg h := h.resolve_right (lt_irrefl 0)
  memSize := List.length_replicate
  halted := by simp [RV32I.init]
  tohost h := by cases h
  steps := rfl

/-- A program that fits replaces as many bytes as it has. -/
theorem loadProgram_cases : stateAfter (loadProgram data base) s = s ∨
    ∃ mem, mem.length = s.mem.length ∧
      stateAfter (loadProgram data base) s = { s with mem := mem } := by
  simp only [stateAfter, loadProgram, get_bind]
  split_ifs with h
  · exact .inl rfl
  · refine .inr ⟨_, ?_, rfl⟩
    rw [List.length_append, List.length_append, List.length_take, List.length_drop]
    omega

theorem Invariant.loadProgram (h : Invariant memSize memBase n s) :
    Invariant memSize memBase n (stateAfter (loadProgram data base) s) := by
  rcases loadProgram_cases (s := s) with he | ⟨mem, hm, he⟩
  · rwa [he]
  · rw [he]
    exact { h with memSize := hm.trans h.memSize }

theorem Invariant.returned (h : Invariant memSize memBase n s) (hs : step s = .ok tr s') :
    Invariant memSize memBase (n + 1) s' := by
  obtain ⟨t, next, hst⟩ := step_eq_ok hs
  have hf := execute_frame hst.execute
  rw [hst.state]
  constructor
  case zero =>
    rcases hf.regs with hr | ⟨i, v, hi, hr⟩
    · exact (congrFun hr 0#5).trans h.zero
    · exact (congrFun hr 0#5).trans ((Function.update_of_ne hi.symm _ _).trans h.zero)
  case regs =>
    intro j
    rcases hf.regs with hr | ⟨i, v, -, hr⟩
    · exact (congrFun hr j).symm ▸ h.regs j
    · by_cases hj : j = i
      · have hv : t.regs j = u32 v := by rw [hr, hj, Function.update_self]
        exact hv.symm ▸ isWord_u32 v
      · have hv : t.regs j = s.regs j := by rw [hr, Function.update_of_ne hj]
        exact hv.symm ▸ h.regs j
  case csrs =>
    intro csr w hw
    rcases hf.csrs csr with hc | ⟨⟨v, hv⟩, -⟩
    · exact h.csrs csr w (hc.symm.trans hw)
    · cases hv.symm.trans hw
      exact isWord_u32 v
  case pcLt => exact hf.word.2
  case pcNonneg => exact fun _ => hf.word.1
  case memSize => exact hf.memLength.trans h.memSize
  case halted =>
    rcases hf.halts with ⟨h1, h2, -⟩ | ⟨h1, h2⟩
    · change t.halted = true ↔ t.haltReason.isSome = true
      rw [h1, h2]
      exact h.halted
    · exact iff_of_true h1 h2
  case tohost =>
    intro ht
    rcases hf.halts with ⟨h1, -, h3⟩ | ⟨h1, -⟩
    · exact h1.trans (h.tohost (h3 ▸ ht))
    · exact h1
  case steps =>
    change t.steps + 1 = n + 1
    rw [hf.sameSteps, h.steps]

theorem reaches_invariant {tohostAddr : ℤ} {trapOnEcall : Bool} (hb : memBase < 2 ^ 32)
    (h : Reaches (.init memSize memBase tohostAddr trapOnEcall) s n) :
    Invariant memSize memBase n s := by
  induction h with
  | init => exact invariant_init hb
  | loadProgram _ data base ih => exact ih.loadProgram
  | returned _ hs ih => exact ih.returned hs
  | raised _ hs ih =>
    obtain rfl := atomic_step _ _ _ hs
    exact ih

/-- A step that returns leaves an aligned pc, unless it is MRET. -/
theorem step_aligned (hs : step s = .ok tr s') (h4 : s.pc % 4 = 0)
    (hm : ¬ IsSystem tr.inst f12Mret) : s'.pc % 4 = 0 := by
  obtain ⟨t, next, hst⟩ := step_eq_ok hs
  rw [hst.state]
  exact (execute_frame hst.execute).aligned h4 hm

theorem state_invariant {tohostAddr : ℤ} {trapOnEcall : Bool} (hb : memBase < 2 ^ 32)
    (h : Reaches (.init memSize memBase tohostAddr trapOnEcall) s n) :
    Invariant memSize memBase n s ∧ ∀ tr s', step s = .ok tr s' → s.pc % 4 = 0 →
      ¬ IsSystem tr.inst f12Mret → s'.pc % 4 = 0 :=
  ⟨reaches_invariant hb h, fun _ _ hs ha hm => step_aligned hs ha hm⟩

/-- A CPU with a NOP at its start. -/
def nopCpu : RV32I :=
  stateAfter (loadProgram [0x13, 0x00, 0x00, 0x00] none) (.init 4 0 0x1000 true)

theorem state_invariant_nopCpu : ∃ tr s', step nopCpu = .ok tr s' ∧
    Invariant 4 0 0 nopCpu ∧ s'.pc % 4 = 0 := by
  have hk : (resultOf step nopCpu).map StepTrace.inst = some 0x13 := by decide +kernel
  obtain ⟨tr, ht, hinst⟩ := Option.map_eq_some_iff.mp hk
  obtain ⟨s', hs⟩ := resultOf_eq_some.mp ht
  have hm : ¬ IsSystem tr.inst f12Mret := by
    rw [hinst]
    intro h
    exact absurd h.1 (by decide)
  have hr : Reaches (.init 4 0 0x1000 true) nopCpu 0 := .loadProgram .init _ _
  obtain ⟨hi, ha⟩ := state_invariant (by norm_num) hr
  exact ⟨tr, s', hs, hi, ha tr s' hs (by decide) hm⟩

/-- A CPU below address 0 starts outside of the 32-bit range. -/
theorem negative_base_pc : (-4 : ℤ) < 2 ^ 32 ∧ (4 : ℤ) ∣ -4 ∧
    Reaches (.init 64 (-4) 0x80001000 false) (.init 64 (-4) 0x80001000 false) 0 ∧
      ¬ IsWord (RV32I.init 64 (-4) 0x80001000 false).pc :=
  ⟨by decide, by decide, .init, fun h => absurd h.1 (by decide)⟩

end Calls
end RiscForge.Refmodel
