import RiscForge.Lockstep.Agree

/-! Every instruction of a well-behaved program, on the emulator and on `top`. -/
namespace RiscForge.Lockstep

open Lib Rtl Isa Refmodel

section Halt
variable {p : Params} {s : RV32I} {t : Top p} {i : Insn}

/-- ECALL and EBREAK commit nothing but the next pc, and halt both. -/
theorem agree_haltWith (hq : t.haltedQ = false) (h : Agree s t) (hd : Decodes t.inst i)
    (hi : i = .ecall ∨ i = .ebreak) (r : HaltReason) : Agree (s.haltWith t.pc r) t.clock := by
  have hn : i.access t.xregs.get = none ∧ i.target t.pc t.xregs.get = none ∧
      i.result t.pc t.xregs.get (byteOf t.dmem) = none := by
    rcases hi with rfl | rfl <;> exact ⟨rfl, rfl, rfl⟩
  obtain ⟨ha, ht, hr⟩ := hn
  have hx : t.next.xregs = t.xregs := by
    rw [xregs_of_decodes hd (by rcases hi with rfl | rfl <;> (intro _ _ _ _ hl; cases hl)), hr]
  apply agree_clock hq
  constructor
  · intro r hr0
    rw [hx]
    exact h.regs r hr0
  · change ((t.pc + 4#32).toNat : ℤ) = ((Top.nextPc t).toNat : ℤ)
    rw [nextPc_of_decodes hd, ht]
    rfl
  · rw [Top.next_dmem, DMemIn.nextMem_of_memWrite_false p _ (dmemIn_other hd ha).2]
    exact h.mem

theorem outcome_ecall (hc : Config p s) (h : Agree s t) (hh : s.halted = false)
    (hq : t.haltedQ = false) (hf : Fetches s t.pc t.inst) (hd : decode t.inst = some .ecall) :
    StepOutcome s t := by
  have hd' := decodes_of_decode hd
  obtain ⟨tr, hrun, -⟩ := step_ecall hh h.pc hf hd hc.trapOnEcall
  obtain ⟨hm, -⟩ := quiet_of_no_access hd' rfl
  have hcause : t.haltCause = .ecall := by simp [haltCause_of_decodes hq hd', hm]
  refine .commits tr _ hrun (agree_haltWith hq h hd' (Or.inl rfl) _)
    ⟨hc.memBase, hc.trapOnEcall, hc.tohostAddr⟩ ?_ fun _ _ => rfl
  rw [HaltsTogether, hcause]
  exact ⟨rfl, rfl⟩

theorem outcome_ebreak (hc : Config p s) (h : Agree s t) (hh : s.halted = false)
    (hq : t.haltedQ = false) (hf : Fetches s t.pc t.inst) (hd : decode t.inst = some .ebreak) :
    StepOutcome s t := by
  have hd' := decodes_of_decode hd
  obtain ⟨tr, hrun, -⟩ := step_ebreak hh h.pc hf hd hc.trapOnEcall
  obtain ⟨hm, -⟩ := quiet_of_no_access hd' rfl
  have hcause : t.haltCause = .ebreak := by simp [haltCause_of_decodes hq hd', hm]
  refine .commits tr _ hrun (agree_haltWith hq h hd' (Or.inr rfl) _)
    ⟨hc.memBase, hc.trapOnEcall, hc.tohostAddr⟩ ?_ fun _ _ => rfl
  rw [HaltsTogether, hcause]
  exact ⟨rfl, rfl⟩

/-- A store to `tohost` halts both with the stored value, and writes no memory. -/
theorem outcome_tohost (hc : Config p s) (h : Agree s t) (hh : s.halted = false)
    (hq : t.haltedQ = false) (hf : Fetches s t.pc t.inst) {k : F3Store} {rs1 rs2 : BitVec 5}
    {imm : Word} (hd : decode t.inst = some (.store k rs1 rs2 imm))
    (ha : t.xregs.get rs1 + imm = p.tohostAddr) : StepOutcome s t := by
  have hd' := decodes_of_decode hd
  have hin := dmemIn_store hq hd'
  obtain ⟨tr, hrun, -⟩ := step_tohost hh h.holds hf hd rfl (by rw [hc.tohostAddr, ha])
  have hto : t.dmemIn.tohostWe p = true := by
    simp [DMemIn.tohostWe, DMemIn.isTohost, hin, ha]
  have hm : t.dmemMisaligned = false := DMemIn.tohostWe_not_misaligned p _ hto
  have hcause : t.haltCause = .tohost := by
    simp [haltCause_of_decodes hq hd', hm, Top.tohostWe, hto]
  refine .commits tr _ hrun (agree_clock hq ?_) ⟨hc.memBase, hc.trapOnEcall, hc.tohostAddr⟩ ?_
    fun _ _ => rfl
  · constructor
    · intro r hr
      have hx : t.next.xregs = t.xregs := xregs_of_decodes hd' (by intro _ _ _ _ hl; cases hl)
      rw [hx]
      exact h.regs r hr
    · change ((t.pc + 4#32).toNat : ℤ) = ((Top.nextPc t).toNat : ℤ)
      rw [nextPc_of_decodes hd']
      rfl
    · rw [Top.next_dmem, DMemIn.nextMem_of_tohostWe p _ hto]
      exact h.mem
  · have hdata : t.tohostData = t.xregs.get rs2 := by rw [Top.tohostData, hin]
    rw [HaltsTogether, hcause, hdata]
    refine ⟨rfl, ?_, rfl⟩
    by_cases hv : t.xregs.get rs2 = 1#32
    · exact Or.inl (congrArg some (if_pos hv))
    · exact Or.inr (congrArg some (if_neg hv))

/-- The cause is MISALIGNED, and the data memory stays. -/
theorem haltCause_of_misaligned (hq : t.haltedQ = false) (hd : Decodes t.inst i)
    (hm : t.dmemMisaligned = true) : t.haltCause = .misaligned ∧ t.clock.dmem = t.dmem := by
  have hcause : t.haltCause = .misaligned := by simp [haltCause_of_decodes hq hd, hm]
  refine ⟨hcause, ?_⟩
  rw [Top.clock_of_running hq]
  exact Top.next_dmem_of_haltNow (by simp [Top.haltNow, hcause])

theorem dmemMisaligned_load {k : F3Load} {rd rs1 : BitVec 5} {imm : Word}
    (hd : Decodes t.inst (.load k rd rs1 imm)) (ho : t.dmemIn.isMmio p = false) :
    t.dmemMisaligned = true ↔ (t.xregs.get rs1 + imm).toNat % loadSize k ≠ 0 := by
  have hin := dmemIn_load hd
  rw [Top.dmemMisaligned, misaligned_iff p (Or.inl (by rw [hin])) ho, hin, bytes_loadMemSize]

theorem dmemMisaligned_store (hq : t.haltedQ = false) {k : F3Store} {rs1 rs2 : BitVec 5}
    {imm : Word} (hd : Decodes t.inst (.store k rs1 rs2 imm)) (ho : t.dmemIn.isMmio p = false) :
    t.dmemMisaligned = true ↔ (t.xregs.get rs1 + imm).toNat % Isa.storeSize k ≠ 0 := by
  have hin := dmemIn_store hq hd
  rw [Top.dmemMisaligned, misaligned_iff p (Or.inr (by rw [hin])) ho, hin, bytes_storeMemSize]

theorem outcome_misaligned_load (ho : MmioOutside p) (h : Agree s t) (hh : s.halted = false)
    (hq : t.haltedQ = false) (hf : Fetches s t.pc t.inst) {k : F3Load} {rd rs1 : BitVec 5}
    {imm : Word} (hd : decode t.inst = some (.load k rd rs1 imm))
    (hr : (t.xregs.get rs1 + imm).toNat < 4 * 2 ^ p.dmemIdxW)
    (hm : (t.xregs.get rs1 + imm).toNat % loadSize k ≠ 0) : StepOutcome s t := by
  have hd' := decodes_of_decode hd
  obtain ⟨d, hrun⟩ := step_misaligned_load hh h.holds hf hd hm
  have hmis := (dmemMisaligned_load hd' (ho.isMmio (by rw [dmemIn_load hd']; exact hr))).mpr hm
  obtain ⟨hcause, hdmem⟩ := haltCause_of_misaligned hq hd' hmis
  exact .misaligned _ hrun (Or.inl rfl) hcause hdmem

theorem outcome_misaligned_store (hc : Config p s) (ho : MmioOutside p) (h : Agree s t)
    (hh : s.halted = false) (hq : t.haltedQ = false) (hf : Fetches s t.pc t.inst) {k : F3Store}
    {rs1 rs2 : BitVec 5} {imm : Word} (hd : decode t.inst = some (.store k rs1 rs2 imm))
    (hr : (t.xregs.get rs1 + imm).toNat < 4 * 2 ^ p.dmemIdxW)
    (hm : (t.xregs.get rs1 + imm).toNat % Isa.storeSize k ≠ 0) : StepOutcome s t := by
  have hd' := decodes_of_decode hd
  have hto : ((t.xregs.get rs1 + imm).toNat : ℤ) ≠ s.tohostAddr := by
    have := ho.tohost
    rw [hc.tohostAddr]
    omega
  obtain ⟨d, hrun⟩ := step_misaligned_store hh h.holds hf hd hto hm
  have hmis := (dmemMisaligned_store hq hd'
    (ho.isMmio (by rw [dmemIn_store hq hd']; exact hr))).mpr hm
  obtain ⟨hcause, hdmem⟩ := haltCause_of_misaligned hq hd' hmis
  exact .misaligned _ hrun (Or.inr rfl) hcause hdmem

end Halt

section Step
variable {p : Params} {s : RV32I} {t : Top p}

/-- The registers of the emulator as words. -/
def RV32I.x (s : RV32I) (r : BitVec 5) : Word := BitVec.ofInt 32 (s.r r.toNat)

/-- The word the instruction memory holds at the emulator's pc. -/
def instAt (p : Params) (s : RV32I) : Word := instrMemory p (BitVec.ofInt 32 s.pc)

/-- What the run promises of the instruction at the emulator's pc. -/
structure StepOk (p : Params) (s : RV32I) : Prop where
  running : s.halted = false
  aligned : s.pc % 4 = 0
  inImem : s.pc < 4 * 2 ^ p.imemIdxW
  emuLegal : ¬ RaisesIllegal step s
  rtlLegal : (decoder (instAt p s)).illegal = false
  system : ¬ Excluded (instAt p s)
  load : ∀ k rd rs1 imm, decode (instAt p s) = some (.load k rd rs1 imm) →
    (RV32I.x s rs1 + imm).toNat < 4 * 2 ^ p.dmemIdxW
  store : ∀ k rs1 rs2 imm, decode (instAt p s) = some (.store k rs1 rs2 imm) →
    (RV32I.x s rs1 + imm).toNat < 4 * 2 ^ p.dmemIdxW ∨ RV32I.x s rs1 + imm = p.tohostAddr

theorem Agree.x_eq (h : Agree s t) (r : BitVec 5) : RV32I.x s r = t.xregs.get r := by
  rw [RV32I.x, h.holds.r, ofInt_toNat]

theorem Agree.instAt_eq (h : Agree s t) : instAt p s = t.inst := by
  rw [instAt, h.pc, ofInt_toNat]
  rfl

/-- The word at the pc is in the emulator's memory, if the pc is. -/
def SameWord (s : RV32I) (t : Top p) : Prop :=
  InMem s t.pc.toNat 4 → unpackFrom s.mem t.pc.toNat 4 = t.inst.toNat

/-- One instruction in lockstep. -/
theorem stepOutcome (hc : Config p s) (ho : MmioOutside p) (h : Agree s t)
    (hq : t.haltedQ = false) (hk : StepOk p s) (hw : SameWord s t) : StepOutcome s t := by
  have hal : t.pc.toNat % 4 = 0 := by
    have := hk.aligned
    rw [h.pc] at this
    exact_mod_cast this
  by_cases hin : InMem s t.pc.toNat 4
  case neg =>
    obtain ⟨d, hd⟩ := fetch_outside hal hin
    exact .stops _ (step_of_fetch_error hk.running (by rw [h.pc]; exact hd)) (Or.inr rfl)
  have hf : Fetches s t.pc t.inst := by
    refine ⟨hal, hin, ?_⟩
    rw [hc.memBase, Int.sub_zero, Int.toNat_natCast]
    exact hw hin
  have hx := hk.system
  rw [h.instAt_eq] at hx
  have hrun := hf.run
  rw [← h.pc] at hrun
  cases hd : decode t.inst with
  | none => exact (hk.emuLegal ((step_illegal_iff_decode hk.running hrun hx).mpr hd)).elim
  | some i =>
    by_cases ht : ∀ a, i.target t.pc t.xregs.get = some a → a.toNat % 4 = 0
    case neg =>
      push Not at ht
      obtain ⟨a, hta, hm⟩ := ht
      obtain ⟨d, hraise⟩ := step_misaligned_target hk.running h.holds hf hd hta hm
      exact .stops _ hraise (Or.inl rfl)
    cases i with
    | ecall => exact outcome_ecall hc h hk.running hq hf hd
    | ebreak => exact outcome_ebreak hc h hk.running hq hf hd
    | load k rd rs1 imm =>
      have hr := hk.load k rd rs1 imm (by rw [h.instAt_eq]; exact hd)
      rw [h.x_eq] at hr
      by_cases hm : (t.xregs.get rs1 + imm).toNat % loadSize k = 0
      · refine outcome_of_accessOk hc ho h hk.running hq hf hd ?_ ht (by simp) (by simp)
        rintro a n ⟨⟩
        exact ⟨hm, hr⟩
      · exact outcome_misaligned_load ho h hk.running hq hf hd hr hm
    | store k rs1 rs2 imm =>
      have hr := hk.store k rs1 rs2 imm (by rw [h.instAt_eq]; exact hd)
      rw [h.x_eq] at hr
      rcases hr with hr | hto
      · by_cases hm : (t.xregs.get rs1 + imm).toNat % Isa.storeSize k = 0
        · refine outcome_of_accessOk hc ho h hk.running hq hf hd ?_ ht (by simp) (by simp)
          rintro a n ⟨⟩
          exact ⟨hm, hr⟩
        · exact outcome_misaligned_store hc ho h hk.running hq hf hd hr hm
      · exact outcome_tohost hc h hk.running hq hf hd hto
    | _ =>
      refine outcome_of_accessOk hc ho h hk.running hq hf hd ?_ ht (by simp) (by simp)
      rintro a n ⟨⟩

end Step
end RiscForge.Lockstep
