import RiscForge.Rtl.Refinement

/-! A halted pipeline stays as it is, whatever the stages in front of WB still hold. -/
namespace RiscForge.Rtl

open Lib

section Reachable
variable {p : Params} {d : DMem p.dmemIdxW} {s : TopPipeline p}

/-- The states of the pipeline from a reset edge on, `d` being the data memory at the last one. -/
inductive Reachable (p : Params) : DMem p.dmemIdxW → TopPipeline p → Prop
  | rst (u : TopPipeline p) : Reachable p u.dmem (u.edge true)
  | clock {d : DMem p.dmemIdxW} {s : TopPipeline p} (h : Reachable p d s) :
      Reachable p d s.clock

theorem Reachable.eq_pipeline (h : Reachable p d s) : ∃ n, s = pipeline p d n := by
  induction h with
  | rst u => exact ⟨0, u.edge_rst⟩
  | clock _ ih =>
    obtain ⟨n, rfl⟩ := ih
    exact ⟨n + 1, rfl⟩

/-- The halt register is only ever set behind a recorded cause. -/
theorem Reachable.wbHc_ne_none (h : Reachable p d s) (hh : s.halted = true) :
    s.wbHc ≠ .none := by
  have hq : s.haltedQ = true → s.wbHc ≠ .none := by
    clear hh
    induction h with
    | rst u => simp [TopPipeline.edge]
    | @clock d s _ ih =>
      by_cases hs : s.halted = true
      · rw [TopPipeline.clock_of_halted hs]
        intro _
        by_cases hw : s.wbHc = .none
        · exact ih (by simpa [TopPipeline.halted, hw] using hs)
        · exact hw
      · rw [Bool.not_eq_true] at hs
        simp only [TopPipeline.halted, Bool.or_eq_false_iff] at hs
        simp [TopPipeline.clock, TopPipeline.edge, TopPipeline.halted, hs.1, hs.2]
  rcases Bool.or_eq_true_iff.mp hh with hw | hw
  · simpa using hw
  · exact hq hw

end Reachable

section Final
variable {p : Params} {d : DMem p.dmemIdxW} {s : TopPipeline p}

theorem mmio_quiet_of_halted (h : s.halted = true) : s.tohostWe = false ∧ s.uartWe = false := by
  have hw : s.dmemIn.memWrite = false := by simp [TopPipeline.dmemIn, TopPipeline.pipeEn, h]
  simp [TopPipeline.tohostWe, TopPipeline.uartWe, DMemIn.tohostWe, DMemIn.uartWe, hw]

theorem tohostWe_of_haltCause {a : Top p} (h : a.haltCause = .tohost) : a.tohostWe = true := by
  by_contra ht
  simp only [Top.haltCause, ht] at h
  repeat' split at h
  all_goals contradiction

/-- The value a pipeline halted by `tohost` shows is the one the halting store put there. -/
theorem tohostValue_of_halted {n : ℕ} (hh : (pipeline p d n).halted = true)
    (hc : (pipeline p d n).haltCause = .tohost) :
    ∃ k, HaltsAt p d k ∧ (program p d k).tohostWe = true ∧
      (pipeline p d n).tohostValue = (program p d k).rs2Val := by
  obtain ⟨m, hmn, hm⟩ := exists_firstAt (P := fun s : TopPipeline p => s.halted = true) hh
  obtain ⟨k, hk, rfl⟩ := firstAt_pipeline_iff.mp hm
  obtain ⟨hrun, hhk, hb⟩ := halted_of_haltsAt hk
  obtain ⟨i, rfl⟩ := Nat.exists_eq_add_of_le hmn
  have hfrozen := sameHalt_run hhk i
  have hpipe : pipeline p d (leaveId (program p d) k + 3 + i) =
      run TopPipeline.clock (pipeline p d (leaveId (program p d) k + 3)) i := run_add _ _
  rw [hpipe, hfrozen.haltCause, (state_of_haltsAt hk).1] at hc
  have hwe := tohostWe_of_haltCause hc
  have hwb := (sim_run hrun).wb ((sim_run hrun).wb_halting hhk).1
  rw [hb] at hwb
  exact ⟨k, hk, hwe, by rw [hpipe, hfrozen.tohostValue, hwb.tohostValue hwe]⟩

/-- What never changes behind a halt in state `s`, as seen in a later state `t`. -/
structure HaltKept (s t : TopPipeline p) : Prop where
  halted : t.halted = true
  haltCause : t.haltCause = s.haltCause
  haltCause_ne_none : t.haltCause ≠ .none
  pcOut : t.pcOut = s.pcOut
  xregs : t.xregs = s.xregs
  dmem : t.dmem = s.dmem
  tohostValue : t.tohostValue = s.tohostValue
  tohostWe : t.tohostWe = false
  uartWe : t.uartWe = false

/-- A halt of the pipeline is clean and final, and a `tohost` halt shows the stored value. -/
theorem pipeline_halt_final (s : TopPipeline p) (hr : Reachable p d s) (hh : s.halted = true)
    (n : ℕ) :
    HaltKept s (run TopPipeline.clock s n) ∧
      (s.haltCause = .tohost → ∀ v : Top p, v.dmem = d →
        ∃ k, FirstAt Top.clock (fun t => t.halted = true) (v.edge true) k ∧
          (run Top.clock (v.edge true) k).tohostWe = true ∧
          (run TopPipeline.clock s n).tohostValue = (run Top.clock (v.edge true) k).rs2Val) := by
  have hk := sameHalt_run hh n
  have hmmio := mmio_quiet_of_halted hk.halted
  have hne : (run TopPipeline.clock s n).haltCause ≠ .none := by
    rw [hk.haltCause]
    exact hr.wbHc_ne_none hh
  constructor
  · exact ⟨hk.halted, hk.haltCause, hne, hk.pcOut, hk.xregs, hk.dmem, hk.tohostValue,
      hmmio.1, hmmio.2⟩
  · rintro hc v rfl
    obtain ⟨m, rfl⟩ := hr.eq_pipeline
    obtain ⟨k, hhalt, hwe, hv⟩ := tohostValue_of_halted hh hc
    rw [v.edge_rst]
    refine ⟨k, firstAt_top_iff.mpr hhalt, ?_⟩
    rw [top_run_eq hhalt.2, hk.tohostValue]
    exact ⟨hwe, hv⟩

/-- `lui x1, 0x80001; sw x1, 0(x1); sw x0, 0(x0)`: a younger store is in MEM at the halt. -/
def tohostCore : Params := .ofImage 2 [0x800010b7#32, 0x0010a023#32, 0x00002023#32]

theorem tohostCore_reachable (n : ℕ) : Reachable tohostCore (fun _ => 7#32)
    (run TopPipeline.clock ((TopPipeline.reset tohostCore fun _ => 7#32).edge true) n) := by
  induction n with
  | zero => exact .rst (TopPipeline.reset tohostCore fun _ => 7#32)
  | succ n ih => exact .clock ih

theorem pipeline_halt_final_tohostCore :
    ∃ k, FirstAt Top.clock (fun t => t.halted = true)
        ((Top.reset tohostCore fun _ => 7#32).edge true) k ∧
      (run TopPipeline.clock (run TopPipeline.clock
          ((TopPipeline.reset tohostCore fun _ => 7#32).edge true) 5) 9).tohostValue =
        (run Top.clock ((Top.reset tohostCore fun _ => 7#32).edge true) k).rs2Val := by
  obtain ⟨k, hk, _, hv⟩ := (pipeline_halt_final _ (tohostCore_reachable 5) (by decide) 9).2
    (by decide) (Top.reset tohostCore fun _ => 7#32) rfl
  exact ⟨k, hk, hv⟩

end Final
end RiscForge.Rtl
