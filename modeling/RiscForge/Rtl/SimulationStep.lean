import RiscForge.Rtl.Operands

/-! One clock of the pipeline keeps the simulation relation. -/
namespace RiscForge.Rtl

open Lib

namespace Sim
variable {p : Params} {t : ℕ → Top p} {s : TopPipeline p} {g : Slots}

theorem inert_bubble : Inert IdEx.zero.ctrl IdEx.zero.rdIdx HaltCause.none :=
  ⟨rfl, rfl, Or.inl rfl, rfl⟩

theorem step_id (h : Sim t s g) (ht : Execution t) (hh : s.halted = false) :
    let g' := g.next s.stall s.idRedirect
    (g'.id = true → s.clock.ifId = ⟨(t g'.kId).pc, (t g'.kId).pcPlus4, (t g'.kId).inst⟩) ∧
      (g'.id = false → s.clock.ifId.inst = nopInst) ∧
      s.clock.ifPc = if g'.id then (t g'.kId).pcPlus4 else (t g'.kId).pc := by
  simp only [TopPipeline.clock_of_running hh, Slots.next_id, Slots.next_kId]
  cases hs : s.stall with
  | true =>
    have hi := h.stall_id hs
    have hr : s.idRedirect = false := by simp [TopPipeline.idRedirect, hs]
    have hpc := h.pc
    simp_all [h.id hi]
  | false =>
    cases hi : g.id with
    | false =>
      have hr := (h.id_of_bubble hi).2
      have hpc : s.ifPc = (t g.kId).pc := by rw [h.pc, hi]; rfl
      simp [hr, hpc, TopPipeline.nextPc, TopPipeline.ifPc4, TopPipeline.ifInst, Top.pcPlus4,
        Top.inst]
    | true =>
      have hn := h.nextPc_eq ht hh hi hs
      cases hr : s.idRedirect with
      | true => simp_all [IfId.nop]
      | false =>
        have hpc : s.ifPc = (t (g.kId + 1)).pc := by
          have hb := h.idRedirect_eq ht hh hi hs
          rw [h.pc, hi, ht.step, Top.next_pc, Top.nextPc, ← hb, hr]
          rfl
        simp_all [TopPipeline.ifPc4, TopPipeline.ifInst, Top.pcPlus4, Top.inst]

theorem step_ex (h : Sim t s g) (hh : s.halted = false) :
    ((g.id && !s.stall) = true → HoldsEx s.clock.idEx s.clock.exHc (t g.kId)) ∧
      ((g.id && !s.stall) = false → Inert s.clock.idEx.ctrl s.clock.idEx.rdIdx s.clock.exHc) := by
  rw [TopPipeline.clock_of_running hh]
  cases hs : s.stall with
  | true => exact ⟨by simp, fun _ => inert_bubble⟩
  | false =>
    cases hi : g.id with
    | true =>
      have hinst := h.idInst_eq hi
      refine ⟨fun _ => ?_, by simp⟩
      constructor <;>
        simp [h.idCtrl_eq hi, hinst, h.id hi, TopPipeline.idImm, Top.imm, TopPipeline.idHc,
          decodeCause, Top.ctrl]
    | false =>
      have hn : s.idInst = nopInst := h.idBubble hi
      refine ⟨by simp, fun _ => ?_⟩
      have hr : rdIdx nopInst = 0#5 := by decide
      have he : isEcall nopInst = false ∧ isEbreak nopInst = false := by decide
      constructor <;>
        simp [TopPipeline.idCtrl, TopPipeline.idHc, hn, decoder_nop, nopCtrl, hr, he.1, he.2]

theorem step_mem (h : Sim t s g) (ht : Execution t) (hh : s.halted = false) :
    (g.ex = true → HoldsMem s.clock.exMem s.clock.memHcCarried (t g.kEx)) ∧
      (g.ex = false → Inert s.clock.exMem.ctrl s.clock.exMem.rdIdx s.clock.memHcCarried) := by
  rw [TopPipeline.clock_of_running hh]
  refine ⟨fun hx => ?_, fun hx => h.exBubble hx⟩
  have hb := h.ex hx
  exact {
    ctrl := hb.ctrl
    aluY := h.exAluY_eq ht hh hx
    rs2Val := fun hw =>
      have ha : (t g.kEx).ctrl.active = true := by simp [Control.active, hw]
      h.exRs2Fwd_eq ht hh hx (decoder_reads_rs2 _ ha (Or.inr hw))
    rdIdx := hb.rdIdx
    pc4 := hb.pc4
    hc := hb.hc }

theorem step_wb (h : Sim t s g) (ht : Execution t) (hh : s.halted = false) :
    (g.mem = true → HoldsWb s.clock (t g.kMem)) ∧
      (g.mem = false → Inert s.clock.memWb.ctrl s.clock.memWb.rdIdx s.clock.wbHc) := by
  rw [TopPipeline.clock_of_running hh]
  refine ⟨fun hm => ?_, fun hm => ?_⟩
  · have hb := h.mem hm
    refine ⟨hb.ctrl, hb.rdIdx, hb.pc4, fun hr => ?_, h.memHc_eq ht hh hm, fun hto => ?_⟩
    · rw [← h.memWbValue_eq hm hr]
      unfold TopPipeline.wbData TopPipeline.memWbValue
      cases s.exMem.ctrl.wbSrc <;> rfl
    · have hd : s.tohostData = (t g.kMem).rs2Val := hb.rs2Val (Top.memWrite_of_tohostWe hto)
      simp [h.tohostWe_eq ht hh hm, hto, hd]
  · have hb := h.memBubble hm
    have hw : s.dmemIn.memWrite = false := by simp [TopPipeline.dmemIn, hb.memWrite]
    refine ⟨hb.memRead, hb.memWrite, hb.noWrite, ?_⟩
    have hmis : s.memMisaligned = false := DMemIn.misaligned_of_no_access p _ hb.memRead hw
    have hto : s.tohostWe = false := by simp [TopPipeline.tohostWe, DMemIn.tohostWe, hw]
    simp [TopPipeline.memHc, hmis, hto, hb.hc]

/-- One clock of the running pipeline keeps the relation. -/
theorem clock (h : Sim t s g) (ht : Execution t) (hh : s.halted = false) :
    Sim t s.clock (g.next s.stall s.idRedirect) := by
  obtain ⟨hid, hidb, hpc⟩ := h.step_id ht hh
  have hx := h.step_ex hh
  have hm := h.step_mem ht hh
  have hw := h.step_wb ht hh
  have hregs : s.clock.xregs = (t g.kMem).xregs := by
    rw [TopPipeline.clock_of_running hh]
    exact h.writePort_wb ht hh
  exact {
    haltedQ := by rw [TopPipeline.clock_of_running hh]
    id := hid
    idBubble := hidb
    pc := hpc
    ex := hx.1
    exBubble := hx.2
    mem := hm.1
    memBubble := hm.2
    wb := hw.1
    wbBubble := hw.2
    xregs := hregs
    dmem := by
      rw [TopPipeline.clock_of_running hh]
      exact h.nextMem_eq ht hh
    rs1Val := by
      rw [hregs, TopPipeline.clock_of_running hh]
      cases s.stall with
      | true => exact (XRegs.get_zero _).symm
      | false => exact h.readPort_wb ht hh _
    rs2Val := by
      rw [hregs, TopPipeline.clock_of_running hh]
      cases s.stall with
      | true => exact (XRegs.get_zero _).symm
      | false => exact h.readPort_wb ht hh _
    loadUse := by
      intro he
      have hs : s.stall = false := by simp at he; exact he.2
      have hi : g.id = true := by simp at he; exact he.1
      rw [TopPipeline.clock_of_running hh, hs, Slots.next_kEx, ← h.idInst_eq hi]
      simp only [TopPipeline.stall, Bool.or_eq_false_iff] at hs
      exact hs.1 }

/-- Reset empties every stage. -/
theorem reset (t : ℕ → Top p) (d : DMem p.dmemIdxW) (h0 : t 0 = Top.reset p d) :
    Sim t (TopPipeline.reset p d) ⟨0, false, false, false, false⟩ := by
  constructor <;>
    simp [TopPipeline.reset, Slots.kId, Slots.kEx, Slots.kMem, h0, Top.reset, IfId.nop,
      IdEx.zero, ExMem.zero, MemWb.zero, bubble, XRegs.get_zero]
  all_goals constructor <;> simp

end Sim
end RiscForge.Rtl
