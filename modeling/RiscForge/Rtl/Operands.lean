import RiscForge.Rtl.Simulation

/-! Operand freshness: what each stage reads is what the executed instruction reads. -/
namespace RiscForge.Rtl

open Lib

namespace Sim
variable {p : Params} {t : ℕ → Top p} {s : TopPipeline p} {g : Slots}

theorem wbWe_eq (hh : s.halted = false) : s.wbWe = s.memWb.ctrl.regWrite := by
  simp [TopPipeline.wbWe, hh]

theorem pipeEn_eq (hh : s.halted = false) : s.pipeEn = true := by
  simp [TopPipeline.pipeEn, hh]

theorem next_get {a : Top p} (rs : BitVec 5) :
    a.next.xregs.get rs = readPort true a.xregs a.ctrl.regWrite (rdIdx a.inst) a.wbData rs := by
  rw [Top.next_xregs, get_writePort]

/-- The write port leaves the registers as the instruction in WB does. -/
theorem writePort_wb (h : Sim t s g) (ht : Execution t) (hh : s.halted = false) :
    writePort s.xregs s.wbWe s.memWb.rdIdx s.wbData = (t g.kMem).xregs := by
  rw [wbWe_eq hh, h.xregs]
  cases hw : g.wb with
  | false =>
    rw [writePort_of_not (h.wbBubble hw).noWrite]
    simp [Slots.kMem, hw]
  | true =>
    have hb := h.wb hw
    have hk : g.kMem = g.base + 1 := by simp [Slots.kMem, hw]
    rw [hk, ht.step, Top.next_xregs, hb.ctrl, hb.rdIdx]
    cases hr : (t g.base).ctrl.regWrite with
    | false => rw [writePort_of_not (Or.inl rfl), writePort_of_not (Or.inl rfl)]
    | true => rw [hb.wbData hr]

/-- A register read in ID sees every instruction up to the one in WB. -/
theorem readPort_wb (h : Sim t s g) (ht : Execution t) (hh : s.halted = false) (rs : BitVec 5) :
    readPort true s.xregs s.wbWe s.memWb.rdIdx s.wbData rs = (t g.kMem).xregs.get rs := by
  rw [← h.writePort_wb ht hh, get_writePort]

section Mem

theorem dmemIn_of_memWrite (h : Sim t s g) (ht : Execution t) (hh : s.halted = false)
    (hm : g.mem = true) (hw : (t g.kMem).ctrl.memWrite = true) :
    s.dmemIn = (t g.kMem).dmemIn := by
  have hb := h.mem hm
  have ha : (t g.kMem).ctrl.active = true := by simp [Control.active, hw]
  simp [TopPipeline.dmemIn, Top.dmemIn, pipeEn_eq hh, ht.running, hb.ctrl, hb.aluY ha,
    hb.rs2Val hw]

theorem memRdata_eq (h : Sim t s g) (hm : g.mem = true)
    (hr : (t g.kMem).ctrl.memRead = true) : s.memRdata = (t g.kMem).dmemRdata := by
  have hb := h.mem hm
  have ha : (t g.kMem).ctrl.active = true := by simp [Control.active, hr]
  rw [TopPipeline.memRdata, Top.dmemRdata, h.dmem]
  apply DMemIn.readData_congr p <;> simp [TopPipeline.dmemIn, Top.dmemIn, hb.ctrl, hb.aluY ha]

theorem memMisaligned_eq (h : Sim t s g) (ht : Execution t) (hh : s.halted = false)
    (hm : g.mem = true) : s.memMisaligned = (t g.kMem).dmemMisaligned := by
  have hb := h.mem hm
  by_cases ha : (t g.kMem).ctrl.memRead = true ∨ (t g.kMem).ctrl.memWrite = true
  · have hac : (t g.kMem).ctrl.active = true := by
      rcases ha with ha | ha <;> simp [Control.active, ha]
    apply DMemIn.misaligned_congr p <;>
      simp [TopPipeline.dmemIn, Top.dmemIn, pipeEn_eq hh, ht.running, hb.ctrl, hb.aluY hac]
  · simp only [not_or, Bool.not_eq_true] at ha
    rw [TopPipeline.memMisaligned, Top.dmemMisaligned,
      DMemIn.misaligned_of_no_access p _ (by simp [TopPipeline.dmemIn, hb.ctrl, ha.1])
        (by simp [TopPipeline.dmemIn, hb.ctrl, ha.2]),
      DMemIn.misaligned_of_no_access p _ ha.1 (by simp [Top.dmemIn, ha.2])]

theorem dmemIn_memWrite_false (h : Sim t s g) (hm : g.mem = true)
    (hw : (t g.kMem).ctrl.memWrite = false) : s.dmemIn.memWrite = false := by
  simp [TopPipeline.dmemIn, (h.mem hm).ctrl, hw]

theorem tohostWe_eq (h : Sim t s g) (ht : Execution t) (hh : s.halted = false)
    (hm : g.mem = true) : s.tohostWe = (t g.kMem).tohostWe := by
  cases hw : (t g.kMem).ctrl.memWrite with
  | true => rw [TopPipeline.tohostWe, h.dmemIn_of_memWrite ht hh hm hw, Top.tohostWe]
  | false =>
    simp [TopPipeline.tohostWe, Top.tohostWe, DMemIn.tohostWe, h.dmemIn_memWrite_false hm hw,
      Top.dmemIn, hw]

/-- The stores of a cycle are those of the instruction in MEM. -/
theorem stores_eq (h : Sim t s g) (ht : Execution t) (hh : s.halted = false) :
    s.stores = if g.mem then (t g.kMem).stores else [] := by
  cases hm : g.mem with
  | false =>
    have hb := h.memBubble hm
    simpa [TopPipeline.stores] using DMemIn.stores_of_memWrite_false (p := p) (d := s.dmemIn)
      (by simp [TopPipeline.dmemIn, hb.memWrite])
  | true =>
    cases hw : (t g.kMem).ctrl.memWrite with
    | true => simp [TopPipeline.stores, Top.stores, h.dmemIn_of_memWrite ht hh hm hw]
    | false =>
      have hs := DMemIn.stores_of_memWrite_false (p := p) (h.dmemIn_memWrite_false hm hw)
      have ha : (t g.kMem).dmemIn.memWrite = false := by simp [Top.dmemIn, hw]
      simpa [TopPipeline.stores, Top.stores, DMemIn.stores_of_memWrite_false ha] using hs

/-- The data memory moves on by the instruction in MEM. -/
theorem nextMem_eq (h : Sim t s g) (ht : Execution t) (hh : s.halted = false) :
    s.dmemIn.nextMem p s.dmem = (t g.kEx).dmem := by
  rw [h.dmem]
  cases hm : g.mem with
  | false =>
    have hb := h.memBubble hm
    rw [DMemIn.nextMem_of_memWrite_false p _ (by simp [TopPipeline.dmemIn, hb.memWrite])]
    simp [Slots.kEx, hm]
  | true =>
    have hk : g.kEx = g.kMem + 1 := by simp [Slots.kEx, hm]
    rw [hk, ht.step, Top.next_dmem]
    cases hw : (t g.kMem).ctrl.memWrite with
    | true => rw [h.dmemIn_of_memWrite ht hh hm hw]
    | false =>
      rw [DMemIn.nextMem_of_memWrite_false p _ (h.dmemIn_memWrite_false hm hw),
        DMemIn.nextMem_of_memWrite_false p _ (by simp [Top.dmemIn, hw])]

theorem memHc_eq (h : Sim t s g) (ht : Execution t) (hh : s.halted = false)
    (hm : g.mem = true) : s.memHc = (t g.kMem).haltCause := by
  have hb := h.mem hm
  rw [TopPipeline.memHc, h.memMisaligned_eq ht hh hm, h.tohostWe_eq ht hh hm, hb.hc]
  unfold Top.haltCause decodeCause
  change _ = if !(t g.kMem).haltedQ then if (decoder (t g.kMem).inst).illegal then _ else _ else _
  rw [ht.running]
  by_cases hi : (decoder (t g.kMem).inst).illegal = true
  · have hn := Top.illegal_no_access hi
    simp [hi, hn.1, hn.2]
  · by_cases hw : (t g.kMem).tohostWe = true
    · have hs := Top.not_isSystem_of_memWrite (Top.memWrite_of_tohostWe hw)
      simp [hi, hw, isEcall, isEbreak, hs]
    · simp [hi, hw]

/-- The value the instruction in MEM will write back. -/
theorem memWbValue_eq (h : Sim t s g) (hm : g.mem = true)
    (hr : (t g.kMem).ctrl.regWrite = true) : s.memWbValue = (t g.kMem).wbData := by
  have hb := h.mem hm
  have ha : (t g.kMem).ctrl.active = true := by simp [Control.active, hr]
  unfold TopPipeline.memWbValue Top.wbData
  rw [hb.ctrl]
  cases hs : (t g.kMem).ctrl.wbSrc with
  | alu => exact hb.aluY ha
  | mem => exact h.memRdata_eq hm (decoder_wbSrc_mem _ hr hs)
  | pc4 => exact hb.pc4

/-- A register, up to and including the instruction in MEM. -/
theorem get_kEx (h : Sim t s g) (ht : Execution t) (rs : BitVec 5) :
    (t g.kEx).xregs.get rs =
      if s.memWrites rs then s.memWbValue else (t g.kMem).xregs.get rs := by
  cases hm : g.mem with
  | false =>
    have hb := h.memBubble hm
    have hk : g.kEx = g.kMem := by simp [Slots.kEx, hm]
    have hn : s.memWrites rs = false := by
      rcases hb.noWrite with hw | hw <;> simp [TopPipeline.memWrites, hw]
    simp [hk, hn]
  | true =>
    have hb := h.mem hm
    have hk : g.kEx = g.kMem + 1 := by simp [Slots.kEx, hm]
    rw [hk, ht.step, next_get]
    by_cases hw : s.memWrites rs = true
    · have hw' : ((t g.kMem).ctrl.regWrite = true ∧ rdIdx (t g.kMem).inst ≠ 0#5) ∧
          rdIdx (t g.kMem).inst = rs := by
        simpa [TopPipeline.memWrites, hb.ctrl, hb.rdIdx] using hw
      have hrs : rs ≠ 0#5 := hw'.2 ▸ hw'.1.2
      rw [if_pos hw, h.memWbValue_eq hm hw'.1.1]
      simp [readPort, hrs, hw'.1.1, hw'.2]
    · have hw' : ¬ (((t g.kMem).ctrl.regWrite = true ∧ rdIdx (t g.kMem).inst ≠ 0#5) ∧
          rdIdx (t g.kMem).inst = rs) := by
        simpa [TopPipeline.memWrites, hb.ctrl, hb.rdIdx] using hw
      rw [if_neg hw]
      unfold readPort XRegs.get
      by_cases hrs : rs = 0#5
      · simp [hrs]
      · have : ((t g.kMem).ctrl.regWrite && rdIdx (t g.kMem).inst = rs) = false := by
          by_contra hc
          simp only [Bool.not_eq_false, Bool.and_eq_true, decide_eq_true_eq] at hc
          exact hw' ⟨⟨hc.1, hc.2 ▸ hrs⟩, hc.2⟩
        simp [hrs, this]

end Mem

section Ex

/-- Forwarding gives an operand read by the instruction in EX its architectural value, unless
it would be a load still in MEM. -/
theorem fwdOperand_eq (h : Sim t s g) (ht : Execution t) (hh : s.halted = false) {rs : BitVec 5}
    {v : Word} (hv : v = s.xregs.get rs)
    (hl : s.memWrites rs = true → s.exMem.ctrl.wbSrc ≠ .mem) :
    s.fwdOperand rs v = (t g.kEx).xregs.get rs := by
  rw [h.get_kEx ht, ← h.readPort_wb ht hh]
  unfold TopPipeline.fwdOperand TopPipeline.forward forwardingPick
  by_cases hw : s.memWrites rs = true
  · have hw' := hw
    unfold TopPipeline.memWrites at hw'
    rw [if_pos hw', if_pos hw]
    have hs := hl hw
    unfold TopPipeline.memFwdValue TopPipeline.memWbValue
    cases hsrc : s.exMem.ctrl.wbSrc <;> simp_all
  · have hw' := hw
    unfold TopPipeline.memWrites at hw'
    rw [if_neg hw', if_neg hw, readPort, wbWe_eq hh, hv]
    unfold XRegs.get
    by_cases hrs : rs = 0#5
    · subst hrs
      by_cases hz : s.memWb.rdIdx = 0#5 <;> simp [hz]
    · by_cases hz : s.memWb.ctrl.regWrite = true ∧ s.memWb.rdIdx = rs
      · have hne : s.memWb.rdIdx ≠ 0#5 := hz.2 ▸ hrs
        simp [hrs, hz.1, hz.2]
      · have hf : (s.memWb.ctrl.regWrite && s.memWb.rdIdx = rs) = false := by
          simpa [not_and] using hz
        have hf' : (s.memWb.ctrl.regWrite && s.memWb.rdIdx ≠ 0#5 && s.memWb.rdIdx = rs) = false := by
          rw [Bool.and_right_comm, hf]
          rfl
        rw [if_neg (Bool.eq_false_iff.mp hf')]
        simp [hrs, hf]

/-- No load in MEM feeds an operand that the instruction in EX reads. -/
theorem not_load_of_memWrites (h : Sim t s g) (hx : g.ex = true) {rs : BitVec 5}
    (hr : readsRs1 (opcode (t g.kEx).inst) = true ∧ rs = s.idEx.rs1Idx ∨
      readsRs2 (opcode (t g.kEx).inst) = true ∧ rs = s.idEx.rs2Idx)
    (hw : s.memWrites rs = true) : s.exMem.ctrl.wbSrc ≠ .mem := by
  intro hs
  have hu := h.loadUse hx
  have hw' : (s.exMem.ctrl.regWrite = true ∧ s.exMem.rdIdx ≠ 0#5) ∧ s.exMem.rdIdx = rs := by
    simpa [TopPipeline.memWrites] using hw
  cases hm : g.mem with
  | false => rcases (h.memBubble hm).noWrite with hn | hn <;> simp_all
  | true =>
    have hc := (h.mem hm).ctrl
    have hl : s.exMem.ctrl.memRead = true := by
      rw [hc] at hs hw' ⊢
      exact decoder_wbSrc_mem _ hw'.1.1 hs
    have hne := hw'.1.2
    have he := hw'.2
    rcases hr with ⟨hr, rfl⟩ | ⟨hr, rfl⟩ <;> simp [hazardUnit, hl, hr, he] at hu <;> simp_all

theorem exRs1Fwd_eq (h : Sim t s g) (ht : Execution t) (hh : s.halted = false)
    (hx : g.ex = true) (hr : readsRs1 (opcode (t g.kEx).inst) = true) :
    s.exRs1Fwd = (t g.kEx).rs1Val := by
  have hf := h.fwdOperand_eq ht hh h.rs1Val (h.not_load_of_memWrites hx (Or.inl ⟨hr, rfl⟩))
  rw [TopPipeline.exRs1Fwd, hf, (h.ex hx).rs1Idx]
  rfl

theorem exRs2Fwd_eq (h : Sim t s g) (ht : Execution t) (hh : s.halted = false)
    (hx : g.ex = true) (hr : readsRs2 (opcode (t g.kEx).inst) = true) :
    s.exRs2Fwd = (t g.kEx).rs2Val := by
  have hf := h.fwdOperand_eq ht hh h.rs2Val (h.not_load_of_memWrites hx (Or.inr ⟨hr, rfl⟩))
  rw [TopPipeline.exRs2Fwd, hf, (h.ex hx).rs2Idx]
  rfl

theorem exAluB_eq (h : Sim t s g) (ht : Execution t) (hh : s.halted = false)
    (hx : g.ex = true) (ha : (t g.kEx).ctrl.active = true) : s.exAluB = (t g.kEx).aluB := by
  have hb := h.ex hx
  unfold TopPipeline.exAluB Top.aluB
  rw [hb.ctrl, hb.imm]
  cases hs : (t g.kEx).ctrl.aluSrcB with
  | imm => rfl
  | rs2 => exact h.exRs2Fwd_eq ht hh hx (decoder_reads_rs2 _ ha (Or.inl hs))

theorem exAluA_eq (h : Sim t s g) (ht : Execution t) (hh : s.halted = false)
    (hx : g.ex = true) (ha : (t g.kEx).ctrl.active = true)
    (hp : (t g.kEx).ctrl.aluOp ≠ .passB) : s.exAluA = (t g.kEx).aluA := by
  have hb := h.ex hx
  unfold TopPipeline.exAluA Top.aluA
  rw [hb.ctrl, hb.pc]
  cases hs : (t g.kEx).ctrl.aluSrcA with
  | pc => rfl
  | rs1 => exact h.exRs1Fwd_eq ht hh hx (decoder_reads_rs1 _ ha hs hp)

theorem exAluY_eq (h : Sim t s g) (ht : Execution t) (hh : s.halted = false)
    (hx : g.ex = true) (ha : (t g.kEx).ctrl.active = true) : s.exAluY = (t g.kEx).aluY := by
  rw [TopPipeline.exAluY, Top.aluY, h.exAluB_eq ht hh hx ha, (h.ex hx).ctrl]
  by_cases hp : (t g.kEx).ctrl.aluOp = .passB
  · rw [hp]
    rfl
  · rw [h.exAluA_eq ht hh hx ha hp]

end Ex

section Id

theorem decoder_nop : decoder nopInst = { nopCtrl with regWrite := true, aluSrcB := .imm } := by
  decide

theorem idInst_eq (h : Sim t s g) (hi : g.id = true) : s.idInst = (t g.kId).inst := by
  rw [TopPipeline.idInst, h.id hi]

/-- The bubble in ID neither stalls nor redirects. -/
theorem id_of_bubble (h : Sim t s g) (hi : g.id = false) :
    s.stall = false ∧ s.idRedirect = false := by
  have hn : s.idInst = nopInst := h.idBubble hi
  have hc : s.idCtrl = { nopCtrl with regWrite := true, aluSrcB := .imm } := by
    rw [TopPipeline.idCtrl, hn, decoder_nop]
  have ho : opcode nopInst = some .imm := by decide
  have hr : rs1Idx nopInst = 0#5 := by decide
  constructor
  · have hb : s.branchStall = false := by
      simp [TopPipeline.branchStall, TopPipeline.idCtrlReadsRs1, TopPipeline.idCtrlReadsRs2,
        Control.condBranch, Control.isJalr, hc, nopCtrl]
    have hl : s.loadUseStall = false := by
      simp [TopPipeline.loadUseStall, hazardUnit, hn, ho, hr, readsRs1, readsRs2]
    simp [TopPipeline.stall, hb, hl]
  · simp [TopPipeline.idRedirect, TopPipeline.idTaken, hc, nopCtrl, branchUnit]

/-- The ID comparator sees the instruction in MEM and everything older. -/
theorem idRs1Cmp_eq (h : Sim t s g) (ht : Execution t) (hh : s.halted = false) :
    s.idRs1Cmp = (t g.kEx).xregs.get (rs1Idx s.idInst) := by
  rw [TopPipeline.idRs1Cmp, h.get_kEx ht, TopPipeline.idRs1Val, h.readPort_wb ht hh]

theorem idRs2Cmp_eq (h : Sim t s g) (ht : Execution t) (hh : s.halted = false) :
    s.idRs2Cmp = (t g.kEx).xregs.get (rs2Idx s.idInst) := by
  rw [TopPipeline.idRs2Cmp, h.get_kEx ht, TopPipeline.idRs2Val, h.readPort_wb ht hh]

/-- A register that the instruction in EX does not write. -/
theorem get_kId (h : Sim t s g) (ht : Execution t) {rs : BitVec 5}
    (hn : (s.idEx.ctrl.regWrite && s.idEx.rdIdx ≠ 0#5 && s.idEx.rdIdx = rs) = false) :
    (t g.kId).xregs.get rs = (t g.kEx).xregs.get rs := by
  cases hx : g.ex with
  | false => simp [Slots.kId, hx]
  | true =>
    have hb := h.ex hx
    have hk : g.kId = g.kEx + 1 := by simp [Slots.kId, hx]
    rw [hb.ctrl, hb.rdIdx] at hn
    rw [hk, ht.step, next_get]
    unfold readPort XRegs.get
    by_cases hrs : rs = 0#5
    · simp [hrs]
    · have hf : ((t g.kEx).ctrl.regWrite && rdIdx (t g.kEx).inst = rs) = false := by
        by_contra hc
        simp only [Bool.not_eq_false, Bool.and_eq_true, decide_eq_true_eq] at hc
        have hne : rdIdx (t g.kEx).inst ≠ 0#5 := hc.2 ▸ hrs
        simp [hc.1, hne] at hn
        exact hn hc.2
      simp [hrs, hf]

theorem idCtrl_eq (h : Sim t s g) (hi : g.id = true) : s.idCtrl = (t g.kId).ctrl := by
  rw [TopPipeline.idCtrl, h.idInst_eq hi]
  rfl

/-- Without a branch stall, the operands a control transfer reads in ID are fresh. -/
theorem idRs1Cmp_fresh (h : Sim t s g) (ht : Execution t) (hh : s.halted = false)
    (hi : g.id = true) (hs : s.branchStall = false) (hr : s.idCtrlReadsRs1 = true) :
    s.idRs1Cmp = (t g.kId).rs1Val := by
  rw [h.idRs1Cmp_eq ht hh, Top.rs1Val, ← h.idInst_eq hi, h.get_kId ht]
  by_contra hc
  simp_all [TopPipeline.branchStall]

theorem idRs2Cmp_fresh (h : Sim t s g) (ht : Execution t) (hh : s.halted = false)
    (hi : g.id = true) (hs : s.branchStall = false) (hr : s.idCtrlReadsRs2 = true) :
    s.idRs2Cmp = (t g.kId).rs2Val := by
  rw [h.idRs2Cmp_eq ht hh, Top.rs2Val, ← h.idInst_eq hi, h.get_kId ht]
  by_contra hc
  simp_all [TopPipeline.branchStall]

theorem idTaken_eq (h : Sim t s g) (ht : Execution t) (hh : s.halted = false)
    (hi : g.id = true) (hs : s.branchStall = false) : s.idTaken = (t g.kId).branchTaken := by
  rw [TopPipeline.idTaken, Top.branchTaken, h.idCtrl_eq hi]
  cases hc : (t g.kId).ctrl.condBranch with
  | true =>
    have hr : s.idCtrlReadsRs2 = true := by rw [TopPipeline.idCtrlReadsRs2, h.idCtrl_eq hi, hc]
    have hr1 : s.idCtrlReadsRs1 = true := by
      rw [TopPipeline.idCtrlReadsRs1, h.idCtrl_eq hi, hc, Bool.true_or]
    rw [h.idRs1Cmp_fresh ht hh hi hs hr1, h.idRs2Cmp_fresh ht hh hi hs hr]
  | false =>
    cases ho : (t g.kId).ctrl.branchOp <;> simp_all [Control.condBranch, branchUnit]

theorem idTarget_eq (h : Sim t s g) (ht : Execution t) (hh : s.halted = false)
    (hi : g.id = true) (hs : s.branchStall = false) (hb : (t g.kId).branchTaken = true) :
    s.idTarget = (t g.kId).nextPc := by
  have hn : (t g.kId).ctrl.branchOp ≠ .none := by
    intro hn
    simp [Top.branchTaken, hn, branchUnit] at hb
  have himm : s.idImm = (t g.kId).imm := by
    rw [TopPipeline.idImm, h.idInst_eq hi]
    rfl
  obtain ⟨hop, hsb, ⟨hj, hsa, hjump⟩ | ⟨hj, hsa⟩⟩ := decoder_target _ hn
  · have hr : s.idCtrlReadsRs1 = true := by
      rw [TopPipeline.idCtrlReadsRs1, h.idCtrl_eq hi]
      simp [Control.isJalr, Top.ctrl, hj, hjump]
    simp [TopPipeline.idTarget, TopPipeline.idJalrTarget, h.idCtrl_eq hi, Top.nextPc, hb,
      Top.aluY, Top.aluA, Top.aluB, Top.ctrl, hop, hsb, hj, hsa, alu,
      h.idRs1Cmp_fresh ht hh hi hs hr, himm]
  · have hpc : s.ifId.pc = (t g.kId).pc := by rw [h.id hi]
    simp [TopPipeline.idTarget, TopPipeline.idPcrelTarget, h.idCtrl_eq hi, Top.nextPc, hb,
      Top.aluY, Top.aluA, Top.aluB, Top.ctrl, hop, hsb, hj, hsa, alu, himm, hpc]

theorem stall_id (h : Sim t s g) (hs : s.stall = true) : g.id = true := by
  cases hi : g.id with
  | true => rfl
  | false => rw [(h.id_of_bubble hi).1] at hs; cases hs

theorem branchStall_of_not_stall (hs : s.stall = false) : s.branchStall = false := by
  simp only [TopPipeline.stall, Bool.or_eq_false_iff] at hs
  exact hs.2

/-- A redirect is a taken transfer leaving ID. -/
theorem idRedirect_eq (h : Sim t s g) (ht : Execution t) (hh : s.halted = false)
    (hi : g.id = true) (hs : s.stall = false) : s.idRedirect = (t g.kId).branchTaken := by
  rw [TopPipeline.idRedirect, hs, h.idTaken_eq ht hh hi (branchStall_of_not_stall hs)]
  simp

/-- Where the fetch goes when the instruction in ID moves on. -/
theorem nextPc_eq (h : Sim t s g) (ht : Execution t) (hh : s.halted = false)
    (hi : g.id = true) (hs : s.stall = false) : s.nextPc =
      if s.idRedirect then (t (g.kId + 1)).pc else (t (g.kId + 1)).pcPlus4 := by
  have hpc : s.ifPc = (t g.kId).pcPlus4 := by rw [h.pc, hi]; rfl
  have hr := h.idRedirect_eq ht hh hi hs
  rw [ht.step, Top.next_pc, TopPipeline.nextPc, Top.pcPlus4, Top.next_pc]
  cases hb : (t g.kId).branchTaken with
  | true =>
    rw [hr, hb, if_pos rfl, if_pos rfl]
    exact h.idTarget_eq ht hh hi (branchStall_of_not_stall hs) hb
  | false => simp [hr, hb, Top.nextPc, TopPipeline.ifPc4, hpc]

end Id

end Sim
end RiscForge.Rtl
