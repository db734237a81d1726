import RiscForge.Refmodel.Frame

/-! Trap entry and return: MRET goes back to the instruction that trapped. -/
namespace RiscForge.Refmodel

open Lib Rtl

/-- The CPU runs, and the next instruction is the SYSTEM word of that `funct12`. -/
structure NextIs (s : RV32I) (f12 : ℤ) : Prop where
  running : s.halted = false
  fetches : ∃ inst, fetch s.pc s = .ok inst s ∧ IsSystem inst f12

/-- The state in which the handler starts. -/
def RV32I.trapped (s : RV32I) (cause : ℤ) : RV32I :=
  { s with csrs := s.trapCsrs s.pc cause, pc := s.trapVector, steps := s.steps + 1 }

/-- The states that a handler reaches without another trap call or a write of `mepc`. -/
inductive Handler (s₀ : RV32I) : RV32I → Prop
  | enter : Handler s₀ s₀
  | returned {s s' : RV32I} {tr : StepTrace} (h : Handler s₀ s) (hs : step s = .ok tr s')
      (hw : ¬ WritesCsr s tr.inst csrMepc) (hc : ¬ IsTrapCall tr.inst) : Handler s₀ s'
  | raised {s s' : RV32I} {e : Raised} (h : Handler s₀ s) (hs : step s = .error e s') :
      Handler s₀ s'

section Steps
variable {s s' t : RV32I} {f12 next cause csr : ℤ} {tr : StepTrace}

theorem step_of_system (hn : NextIs s f12) (h : system f12 s.pc (u32 (s.pc + 4)) s = .ok next t) :
    ∃ tr, step s = .ok tr { t with pc := next, steps := t.steps + 1 } := by
  obtain ⟨inst, hf, ho, h3, h12⟩ := hn.fetches
  have he : execute s.pc inst s = .ok (next, none) t := by
    simp only [execute, get_bind, ho, if_pos h3, h12]
    rw [bind_ok h]
    rfl
  simp only [step, get_bind, hn.running]
  rw [if_neg (by decide), bind_ok hf, bind_ok he]
  exact ⟨_, rfl⟩

/-- ECALL and EBREAK, with their causes. -/
theorem step_trapCall (ht : s.trapOnEcall = true) (hn : NextIs s f12)
    (hc : f12 = f12Ecall ∧ cause = causeEcallM ∨ f12 = f12Ebreak ∧ cause = causeBreakpoint) :
    ∃ tr, step s = .ok tr (s.trapped cause) := by
  have hs : system f12 s.pc (u32 (s.pc + 4)) s =
      .ok s.trapVector { s with csrs := s.trapCsrs s.pc cause } := by
    rw [← takeTrap_run]
    simp only [system, get_bind, ht, if_true]
    rcases hc with ⟨rfl, rfl⟩ | ⟨rfl, rfl⟩
    · rw [if_pos rfl]
    · rw [if_neg (by decide), if_pos rfl]
  exact step_of_system hn hs

theorem step_mret (hn : NextIs s f12Mret) : ∃ tr, step s = .ok tr
    { s with pc := u32 ((s.csrs csrMepc).getD 0), steps := s.steps + 1 } := by
  refine step_of_system hn ?_
  simp only [system, get_bind, if_true]
  rw [if_neg (by decide), if_neg (by decide)]
  rfl

/-- A step keeps every CSR that its instruction does not write. -/
theorem step_csr_eq (hs : step s = .ok tr s') (hw : ¬ WritesCsr s tr.inst csr)
    (hc : ¬ IsTrapCall tr.inst) : s'.csrs csr = s.csrs csr := by
  obtain ⟨t, next, hst⟩ := step_eq_ok hs
  rw [hst.state]
  rcases (execute_frame hst.execute).csrs csr with he | ⟨-, h⟩
  · exact he
  · exact (h.elim hw hc).elim

theorem Handler.mepc (h : Handler s t) : t.csrs csrMepc = s.csrs csrMepc := by
  induction h with
  | enter => rfl
  | returned _ hs hw hc ih => exact (step_csr_eq hs hw hc).trans ih
  | raised _ hs ih =>
    obtain rfl := atomic_step _ _ _ hs
    exact ih

/-- A trap call at `s` saves its pc and goes to the vector, and MRET in the handler comes back. -/
structure Bracket (s : RV32I) (cause : ℤ) : Prop where
  enters : ∃ tr, step s = .ok tr (s.trapped cause)
  mepc : (s.trapped cause).csrs csrMepc = some (u32 s.pc)
  mcause : (s.trapped cause).csrs csrMcause = some cause
  others : ∀ csr, csr ≠ csrMepc → csr ≠ csrMcause → (s.trapped cause).csrs csr = s.csrs csr
  vector : (s.trapped cause).pc = u32 ((s.csrs csrMtvec).getD 0 &&& ~~~0x3)
  vectorWord : IsWord ((s.csrs csrMtvec).getD 0) →
    (s.trapped cause).pc = (s.csrs csrMtvec).getD 0 &&& ~~~0x3
  word : IsWord s.pc → u32 s.pc = s.pc
  resumes : ∀ t, Handler (s.trapped cause) t → NextIs t f12Mret →
    ∃ tr, step t = .ok tr { t with pc := u32 s.pc, steps := t.steps + 1 }

theorem trap_bracket (ht : s.trapOnEcall = true) (hn : NextIs s f12)
    (hc : f12 = f12Ecall ∧ cause = causeEcallM ∨ f12 = f12Ebreak ∧ cause = causeBreakpoint) :
    Bracket s cause where
  enters := step_trapCall ht hn hc
  mepc := s.trapCsrs_mepc s.pc cause
  mcause := by
    have hw : u32 cause = cause := by rcases hc with ⟨-, rfl⟩ | ⟨-, rfl⟩ <;> decide
    exact (s.trapCsrs_mcause s.pc cause).trans (congrArg some hw)
  others csr h1 h2 := s.trapCsrs_of_ne s.pc cause h1 h2
  vector := rfl
  vectorWord h := by
    refine u32_of_isWord ?_
    rw [show ∀ x : ℤ, x &&& ~~~(0x3 : ℤ) = x - x % 4 from fun x => and_not_mask x 2]
    unfold IsWord at h ⊢
    omega
  word := u32_of_isWord
  resumes t hh hr := by
    obtain ⟨tr, hs⟩ := step_mret hr
    have hm : t.csrs csrMepc = some (u32 s.pc) := hh.mepc.trans (s.trapCsrs_mepc s.pc cause)
    rw [hm, Option.getD_some, u32_of_isWord (isWord_u32 _)] at hs
    exact ⟨tr, hs⟩

/-- ECALL at 0 with the handler at 4, which is only an MRET. -/
def handlerCpu : RV32I :=
  { RV32I.init 8 0 0x1000 true with
    mem := [0x73, 0x00, 0x00, 0x00, 0x73, 0x00, 0x20, 0x30]
    csrs := fun csr => if csr = csrMtvec then some 4 else none }

theorem trap_bracket_handlerCpu : (handlerCpu.trapped 11).pc = 4 ∧
    ∃ tr, step (handlerCpu.trapped 11) =
      .ok tr { handlerCpu.trapped 11 with pc := 0, steps := 2 } := by
  have he : NextIs handlerCpu f12Ecall :=
    ⟨rfl, 0x73, by rfl, by decide, by decide, by decide⟩
  have hp : (handlerCpu.trapped 11).pc = 4 := by decide +kernel
  have hr : NextIs (handlerCpu.trapped 11) f12Mret :=
    ⟨rfl, 0x30200073, by rw [hp]; rfl, by decide, by decide, by decide⟩
  exact ⟨hp, (trap_bracket rfl he (.inl ⟨rfl, rfl⟩)).resumes _ .enter hr⟩

/-- ECALL below address 0, where the memory of this CPU is. -/
def negativeCpu : RV32I :=
  { RV32I.init 4 (-4) 0x1000 true with mem := [0x73, 0x00, 0x00, 0x00] }

theorem negative_pc_not_saved : negativeCpu.trapOnEcall = true ∧ NextIs negativeCpu f12Ecall ∧
    negativeCpu.pc = -4 ∧ ∃ tr s', step negativeCpu = .ok tr s' ∧
      s'.csrs csrMepc = some 0xFFFFFFFC := by
  have hf : fetch (-4) negativeCpu = .ok 0x73 negativeCpu := by
    rw [fetch, and_three_int]
    rfl
  have hn : NextIs negativeCpu f12Ecall := ⟨rfl, 0x73, hf, by decide, by decide, by decide⟩
  obtain ⟨tr, hs⟩ := step_trapCall rfl hn (.inl ⟨rfl, rfl⟩)
  exact ⟨rfl, hn, rfl, tr, _, hs, by decide +kernel⟩

end Steps
end RiscForge.Refmodel
