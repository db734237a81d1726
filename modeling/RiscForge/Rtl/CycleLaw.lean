import RiscForge.Rtl.Refinement

/-! How many cycles a program takes on the pipeline, counted from its run on `top`. -/
namespace RiscForge.Rtl

open Lib

section Stalls
variable {p : Params} (s : TopPipeline p)

/-- The register field `r` of the word in ID is an operand of that instruction. -/
def idReads (r : BitVec 5) : Prop :=
  (readsRs1 (opcode s.idInst) = true ∧ r = rs1Idx s.idInst) ∨
    (readsRs2 (opcode s.idInst) = true ∧ r = rs2Idx s.idInst)

theorem loadUseStall_reads (h : s.loadUseStall = true) :
    s.idEx.ctrl.memRead = true ∧ s.idEx.rdIdx ≠ 0#5 ∧ idReads s s.idEx.rdIdx := by
  simpa [TopPipeline.loadUseStall, hazardUnit, idReads, and_assoc] using h

theorem idCtrlReadsRs1_reads (h : s.idCtrlReadsRs1 = true) :
    readsRs1 (opcode s.idInst) = true := by
  rcases Bool.or_eq_true_iff.mp h with hb | hj
  · rw [(decoder_condBranch s.idInst hb).1]
    rfl
  · rw [decoder_isJalr s.idInst hj]
    rfl

theorem idCtrlReadsRs2_reads (h : s.idCtrlReadsRs2 = true) :
    readsRs2 (opcode s.idInst) = true := by
  rw [(decoder_condBranch s.idInst h).1]
  rfl

theorem branchStall_reads (h : s.branchStall = true) :
    s.idEx.ctrl.regWrite = true ∧ s.idEx.rdIdx ≠ 0#5 ∧ idReads s s.idEx.rdIdx := by
  simp only [TopPipeline.branchStall, Bool.and_eq_true, Bool.or_eq_true, decide_eq_true_eq]
    at h
  obtain ⟨⟨hw, hr⟩, h1 | h2⟩ := h
  · exact ⟨hw, hr, Or.inl ⟨idCtrlReadsRs1_reads s h1.1, h1.2⟩⟩
  · exact ⟨hw, hr, Or.inr ⟨idCtrlReadsRs2_reads s h2.1, h2.2⟩⟩

/-- No stall on bits that are not a register operand. -/
theorem stall_reads (h : s.stall = true) :
    (s.idEx.ctrl.memRead = true ∨ s.idEx.ctrl.regWrite = true) ∧ s.idEx.rdIdx ≠ 0#5 ∧
      idReads s s.idEx.rdIdx := by
  rcases Bool.or_eq_true_iff.mp h with hl | hb
  · obtain ⟨hm, hr⟩ := loadUseStall_reads s hl
    exact ⟨Or.inl hm, hr⟩
  · obtain ⟨hw, hr⟩ := branchStall_reads s hb
    exact ⟨Or.inr hw, hr⟩

/-- The bubble a stall puts into EX ends the stall, halted or not. -/
theorem stall_clock (h : s.stall = true) : s.clock.stall = false := by
  have hz : s.clock.idEx = .zero := by
    simp [TopPipeline.clock, TopPipeline.edge, IdEx.edge, h]
  simp [TopPipeline.stall, TopPipeline.loadUseStall, TopPipeline.branchStall, hazardUnit, hz,
    IdEx.zero, bubble]

end Stalls

section Law
variable {p : Params} {d : DMem p.dmemIdxW} {k : ℕ}

theorem takenAt_of_haltsAt (h : HaltsAt p d k) : takenAt (program p d) k = false :=
  branchTaken_of_haltNow h.1

/-- The halting cycle by counts: one cycle an instruction, one more for each taken transfer and
each operand wait, three to reach WB. -/
theorem leaveId_of_haltsAt (h : HaltsAt p d k) :
    leaveId (program p d) k + 3 =
      (k + 1) + tally (takenAt (program p d)) (k + 1) +
        tally (stallsAt (program p d)) (k + 1) + 3 := by
  simp only [leaveId, enterId, tally_succ, takenAt_of_haltsAt h, Bool.toNat_false]
  omega

theorem tally_top_run (h : HaltsAt p d k) (f : (ℕ → Top p) → ℕ → Bool)
    (hf : ∀ t u : ℕ → Top p, ∀ j, (∀ i ≤ j, t i = u i) → f t j = f u j) :
    tally (f (run Top.clock (Top.reset p d))) (k + 1) = tally (f (program p d)) (k + 1) := by
  refine tally_congr fun j hj => hf _ _ j fun i hi => ?_
  exact top_run_eq fun m hm => h.2 m (by omega)

/-- The exact cycle law. With `N` instructions executed by `top` up to the halting one, `T` of
them taken transfers and `S` of them waiting for their predecessor, the pipeline first raises
`halted` after `N + T + S + 3` edges; and each wait is for a register operand and lasts a
single cycle. -/
theorem pipeline_cycle_law (u : TopPipeline p) (v : Top p) (hd : u.dmem = v.dmem) (H : ℕ)
    (hH : FirstAt Top.clock (fun s => s.halted = true) (v.edge true) H) :
    FirstAt TopPipeline.clock (fun s => s.halted = true) (u.edge true)
        ((H + 1) + tally (takenAt (run Top.clock (v.edge true))) (H + 1) +
          tally (stallsAt (run Top.clock (v.edge true))) (H + 1) + 3) ∧
      ∀ n, (run TopPipeline.clock (u.edge true) n).stall = true →
        idReads (run TopPipeline.clock (u.edge true) n)
            (run TopPipeline.clock (u.edge true) n).idEx.rdIdx ∧
          (run TopPipeline.clock (u.edge true) (n + 1)).stall = false := by
  constructor
  · rw [u.edge_rst, hd]
    rw [v.edge_rst] at hH ⊢
    have hk := firstAt_top_iff.mp hH
    rw [tally_top_run hk takenAt (fun t u j h => by rw [takenAt, takenAt, h j le_rfl]),
      tally_top_run hk stallsAt
        (fun t u j h => by rw [stallsAt, stallsAt, h j le_rfl, h (j - 1) (Nat.sub_le j 1)]),
      ← leaveId_of_haltsAt hk]
    exact firstAt_pipeline_iff.mpr ⟨H, hk, rfl⟩
  · exact fun n h => ⟨(stall_reads _ h).2.2, stall_clock _ h⟩

/-- `lw x1, 0(x0); beq x1, x0, +8; (skipped); ecall`: a taken branch that waits for a load. -/
def loadBranchCore : Params :=
  .ofImage 2 [0x00002083#32, 0x00008463#32, 0x00000000#32, 0x00000073#32]

theorem loadBranchCore_halts : FirstAt Top.clock (fun s => s.halted = true)
    ((Top.reset loadBranchCore fun _ => 0#32).edge true) 2 :=
  ⟨by decide, by decide⟩

theorem pipeline_cycle_law_loadBranchCore :
    FirstAt TopPipeline.clock (fun s => s.halted = true)
      ((TopPipeline.reset loadBranchCore fun _ => 0#32).edge true) (3 + 1 + 1 + 3) :=
  (pipeline_cycle_law (TopPipeline.reset loadBranchCore fun _ => 0#32)
    (Top.reset loadBranchCore fun _ => 0#32) rfl 2 loadBranchCore_halts).1

end Law
end RiscForge.Rtl
