import RiscForge.Rtl.Timing

/-! The pipeline refines the single-cycle core: same commits in the same order, same halt. -/
namespace RiscForge.Rtl

open Lib

section Halt
variable {p : Params} {d : DMem p.dmemIdxW} {n k : ℕ}

/-- The instruction `s` executes is a load that halts the core for its alignment. -/
def Top.misalignedLoad (s : Top p) : Prop := s.ctrl.memRead = true ∧ s.haltCause = .misaligned

/-- Instruction `k` is the one that halts the program. -/
def HaltsAt (p : Params) (d : DMem p.dmemIdxW) (k : ℕ) : Prop :=
  (program p d k).haltNow = true ∧ ∀ j < k, (program p d j).haltNow = false

/-- A halted pipeline got there by the halting instruction of the program. -/
theorem haltsAt_of_halted (h : RunningBefore p d n) (hh : (pipeline p d n).halted = true) :
    HaltsAt p d (slots p d n).base ∧
      n = leaveId (program p d) (slots p d n).base + 3 ∧
      (pipeline p d n).haltCause = (program p d (slots p d n).base).haltCause := by
  obtain ⟨hw, hn, hc⟩ := (sim_run h).wb_halting hh
  exact ⟨⟨hn, base_not_halting h⟩, wb_time h hw, hc⟩

theorem HaltsAt.unique {j : ℕ} (hj : HaltsAt p d j) (hk : HaltsAt p d k) : j = k := by
  rcases lt_trichotomy j k with h | h | h
  · have := hk.2 j h
    simp [hj.1] at this
  · exact h
  · have := hj.2 k h
    simp [hk.1] at this

/-- The halting instruction halts the pipeline when it reaches WB, and not before. -/
theorem halted_of_haltsAt (h : HaltsAt p d k) :
    RunningBefore p d (leaveId (program p d) k + 3) ∧
      (pipeline p d (leaveId (program p d) k + 3)).halted = true ∧
      (slots p d (leaveId (program p d) k + 3)).base = k := by
  have hrun : RunningBefore p d (leaveId (program p d) k + 3) := by
    rcases running_or_firstHalt (p := p) (d := d) (leaveId (program p d) k + 3) with hr | hr
    · exact hr
    · obtain ⟨m, hm, hrun, hh⟩ := hr
      obtain ⟨hbase, htime, _⟩ := haltsAt_of_halted hrun hh
      rw [hbase.unique h] at htime
      omega
  obtain ⟨hw, hb⟩ := wb_at hrun
  have hc := ((sim_run hrun).wb hw).hc
  refine ⟨hrun, ?_, hb⟩
  have hne : (program p d k).haltCause ≠ .none := by simpa [Top.haltNow] using h.1
  rw [hb] at hc
  simp [TopPipeline.halted, hc, hne]

/-- What the pipeline holds once it has halted, compared with the halting instruction. -/
theorem state_of_haltsAt (h : HaltsAt p d k) :
    (TopPipeline.haltCause (pipeline p d (leaveId (program p d) k + 3))) =
        (program p d k).haltCause ∧
      (pipeline p d (leaveId (program p d) k + 3)).xregs = (program p d k).xregs ∧
      (pipeline p d (leaveId (program p d) k + 3)).dmem = (program p d k).dmem := by
  obtain ⟨hrun, hh, hb⟩ := halted_of_haltsAt h
  have hs := sim_run hrun
  obtain ⟨hw, hn, hc⟩ := hs.wb_halting hh
  have hx := hs.xregs
  have hd := hs.dmem
  rw [hb] at hc hx
  rw [Slots.kMem, hb, hw] at hd
  refine ⟨hc, hx, hd.trans ?_⟩
  rw [Bool.toNat_true, program_execution.step, Top.next_dmem_of_haltNow h.1]

/-- What can halt the core, the misaligned load told apart. -/
theorem cases_of_haltNow {s : Top p} (h : s.haltNow = true) :
    s.ctrl.illegal = true ∨ isSystem s.inst = true ∨ s.ctrl.memWrite = true ∨
      s.misalignedLoad := by
  have hc : s.haltCause ≠ .none := by simpa [Top.haltNow] using h
  have hq : s.haltedQ = false := by
    by_contra hq
    simp [Top.haltCause, hq] at hc
  by_contra hn
  simp only [not_or, Bool.not_eq_true] at hn
  obtain ⟨hi, hs, hw, hl⟩ := hn
  have hto : s.tohostWe = false := by
    by_contra hto
    simp [Top.memWrite_of_tohostWe (by simpa using hto)] at hw
  by_cases hm : s.dmemMisaligned = true
  · have hcause : s.haltCause = .misaligned := by simp [Top.haltCause, hq, hi, hm]
    rcases Top.access_of_dmemMisaligned hm with hr | hr
    · exact hl ⟨hr, hcause⟩
    · simp [hw] at hr
  · simp [Top.haltCause, hi, hm, isEcall, isEbreak, hs, hto] at hc

/-- A halting instruction enables no register write, a misaligned load apart. -/
theorem regWrite_of_haltNow {s : Top p} (h : s.haltNow = true) (hm : ¬ s.misalignedLoad) :
    s.ctrl.regWrite = false := by
  rcases cases_of_haltNow h with hi | hs | hw | hl
  · have ha := (decoder_illegal s.inst hi).1
    simp only [Control.active, Bool.or_eq_false_iff] at ha
    exact ha.1.1
  · rw [Top.ctrl, decoder_isSystem s.inst hs]
    rfl
  · exact (decoder_memWrite s.inst hw).2.1
  · exact (hm hl).elim

/-- A halting instruction transfers control nowhere. -/
theorem branchTaken_of_haltNow {s : Top p} (h : s.haltNow = true) : s.branchTaken = false := by
  have hb : s.ctrl.branchOp = .none := by
    rcases cases_of_haltNow h with hi | hs | hw | hl
    · exact (decoder_illegal s.inst hi).2
    · rw [Top.ctrl, decoder_isSystem s.inst hs]
      rfl
    · exact (decoder_memWrite s.inst hw).2.2.2.2
    · exact (decoder_memRead s.inst hl.1).2.2.2.2.2
  rw [Top.branchTaken, hb]
  rfl

theorem next_xregs_of_haltNow {s : Top p} (h : s.haltNow = true) (hm : ¬ s.misalignedLoad) :
    s.next.xregs = s.xregs :=
  writePort_of_not (Or.inl (regWrite_of_haltNow h hm))

end Halt

section Traces
variable {p : Params} {d : DMem p.dmemIdxW} {n : ℕ}

theorem top_regWrites_silent (s : Top p) (h : s.haltedQ = true) : s.regWrites = [] :=
  (Top.silent_of_haltedQ h).1

theorem top_stores_silent (s : Top p) (h : s.haltedQ = true) : s.stores = [] :=
  (Top.silent_of_haltedQ h).2

/-- The first `m` instructions of the program, none before the last halting, are a prefix of
what `top` reports in `n ≥ m` cycles. -/
theorem next_trace_mono {ε : Type} {out : Top p → List ε} {m : ℕ} (hmn : m ≤ n)
    (h : ∀ k, k + 1 < m → (program p d k).haltNow = false) :
    trace Top.next out (Top.reset p d) m <+: trace Top.clock out (Top.reset p d) n := by
  rw [← top_trace_eq h]
  exact trace_mono hmn

theorem pipeline_trace_le_running (h : RunningBefore p d n) :
    trace TopPipeline.clock TopPipeline.regWrites (TopPipeline.reset p d) n <+:
        trace Top.clock Top.regWrites (Top.reset p d) n ∧
      trace TopPipeline.clock TopPipeline.stores (TopPipeline.reset p d) n <+:
        trace Top.clock Top.stores (Top.reset p d) n := by
  have hb := base_not_halting h
  have hle := slots_kMem_le (p := p) (d := d) (n := n)
  have hbm := slots_base_le (p := p) (d := d) (n := n)
  have hm : (slots p d n).kMem ≤ (slots p d n).base + 1 := by
    rw [Slots.kMem]
    have := Bool.toNat_le (slots p d n).wb
    omega
  rw [regWrites_trace_eq h, stores_trace_eq h]
  exact ⟨next_trace_mono (hbm.trans hle) (fun k hk => hb k (by omega)),
    next_trace_mono hle (fun k hk => hb k (by omega))⟩

/-- At every cycle the pipeline has reported a prefix of what `top` has. -/
theorem pipeline_trace_le (n : ℕ) :
    trace TopPipeline.clock TopPipeline.regWrites (TopPipeline.reset p d) n <+:
        trace Top.clock Top.regWrites (Top.reset p d) n ∧
      trace TopPipeline.clock TopPipeline.stores (TopPipeline.reset p d) n <+:
        trace Top.clock Top.stores (Top.reset p d) n := by
  rcases running_or_firstHalt (p := p) (d := d) n with h | ⟨k, hk, h, hh⟩
  · exact pipeline_trace_le_running h
  · obtain ⟨hr, hs⟩ := pipeline_trace_le_running h
    rw [pipeline_trace_halted (fun _ hu => (TopPipeline.silent_of_halted hu).1) hk.le hh,
      pipeline_trace_halted (fun _ hu => (TopPipeline.silent_of_halted hu).2) hk.le hh]
    exact ⟨hr.trans (trace_mono hk.le), hs.trans (trace_mono hk.le)⟩

/-- An instruction that no halt precedes reaches WB. -/
theorem exists_committed {m : ℕ} (h : ∀ k < m, (program p d k).haltNow = false) :
    ∃ n, RunningBefore p d n ∧ m ≤ (slots p d n).base := by
  by_cases hr : RunningBefore p d (leaveId (program p d) m + 3)
  · exact ⟨_, hr, (wb_at hr).2.ge⟩
  · rcases running_or_firstHalt (p := p) (d := d) (leaveId (program p d) m + 3) with hr' | hr'
    · exact (hr hr').elim
    · obtain ⟨k, _, hrun, hh⟩ := hr'
      refine ⟨k, hrun, ?_⟩
      by_contra hlt
      have hhalt := (haltsAt_of_halted hrun hh).1.1
      rw [h _ (by omega)] at hhalt
      cases hhalt

/-- Nothing `top` reports before it halts is lost by the pipeline. -/
theorem nothing_lost {m : ℕ} (h : ∀ k < m, (program p d k).haltNow = false) :
    ∃ n, trace Top.clock Top.regWrites (Top.reset p d) m <+:
        trace TopPipeline.clock TopPipeline.regWrites (TopPipeline.reset p d) n ∧
      trace Top.clock Top.stores (Top.reset p d) m <+:
        trace TopPipeline.clock TopPipeline.stores (TopPipeline.reset p d) n := by
  obtain ⟨n, hn, hm⟩ := exists_committed h
  refine ⟨n, ?_⟩
  rw [regWrites_trace_eq hn, stores_trace_eq hn, top_trace_eq (fun k hk => h k (by omega)),
    top_trace_eq (fun k hk => h k (by omega))]
  exact ⟨trace_mono hm, trace_mono (hm.trans (slots_base_le))⟩

end Traces

section Finish
variable {p : Params} {d : DMem p.dmemIdxW} {k n m : ℕ}

theorem top_dmem_of_haltsAt (h : HaltsAt p d k) (j : ℕ) :
    (run Top.clock (Top.reset p d) (k + j)).dmem = (program p d k).dmem := by
  cases j with
  | zero => rw [Nat.add_zero, top_run_eq h.2]
  | succ j =>
    rw [top_run_halted h.2 h.1 (by omega)]
    exact (congrArg Top.dmem (program_execution.step k)).trans (Top.next_dmem_of_haltNow h.1)

theorem top_xregs_of_haltsAt (h : HaltsAt p d k) (hm : ¬ (program p d k).misalignedLoad)
    (j : ℕ) : (run Top.clock (Top.reset p d) (k + j)).xregs = (program p d k).xregs := by
  cases j with
  | zero => rw [Nat.add_zero, top_run_eq h.2]
  | succ j =>
    rw [top_run_halted h.2 h.1 (by omega)]
    exact (congrArg Top.xregs (program_execution.step k)).trans (next_xregs_of_haltNow h.1 hm)

theorem regWrites_of_haltNow {s : Top p} (h : s.haltNow = true) (hm : ¬ s.misalignedLoad) :
    s.regWrites = [] := by
  simp [Top.regWrites, Top.regWe, regWrite_of_haltNow h hm]

/-- Both cores have reported the same once the halting instruction is through. -/
theorem halted_traces_eq (h : HaltsAt p d k) (hn : leaveId (program p d) k + 3 ≤ n)
    (hk : k < m) :
    (¬ (program p d k).misalignedLoad →
      trace TopPipeline.clock TopPipeline.regWrites (TopPipeline.reset p d) n =
        trace Top.clock Top.regWrites (Top.reset p d) m) ∧
    trace TopPipeline.clock TopPipeline.stores (TopPipeline.reset p d) n =
      trace Top.clock Top.stores (Top.reset p d) m := by
  obtain ⟨hrun, hh, hb⟩ := halted_of_haltsAt h
  have hw := ((sim_run hrun).wb_halting hh).1
  have hmem : (slots p d (leaveId (program p d) k + 3)).kMem = k + 1 := by
    rw [Slots.kMem, hb, hw]
    rfl
  rw [pipeline_trace_halted (fun _ hu => (TopPipeline.silent_of_halted hu).1) hn hh,
    pipeline_trace_halted (fun _ hu => (TopPipeline.silent_of_halted hu).2) hn hh,
    top_trace_halted top_regWrites_silent h.2 h.1 hk,
    top_trace_halted top_stores_silent h.2 h.1 hk,
    regWrites_trace_eq hrun, stores_trace_eq hrun, hb, hmem]
  refine ⟨fun hm => ?_, rfl⟩
  have hlast : (run Top.next (Top.reset p d) k).regWrites = [] :=
    regWrites_of_haltNow h.1 hm
  rw [trace, hlast, List.append_nil]

end Finish

section Refines
variable {p : Params}

/-- Two halted cores agree on the cause, the data memory and all reported stores, and a
misaligned load apart on the registers and all reported register writes. `n` and `m` are the
cycles in which they first raise `halted`. -/
structure AgreeHalted (u : TopPipeline p) (v : Top p) (n m : ℕ) : Prop where
  haltCause : (run TopPipeline.clock u n).haltCause = (run Top.clock v m).haltCause
  dmem : ∀ i j, (run TopPipeline.clock u (n + i)).dmem = (run Top.clock v (m + j)).dmem
  xregs : ¬ (run Top.clock v m).misalignedLoad →
    ∀ i j, (run TopPipeline.clock u (n + i)).xregs = (run Top.clock v (m + j)).xregs
  stores : ∀ i j, trace TopPipeline.clock TopPipeline.stores u (n + i) =
    trace Top.clock Top.stores v (m + 1 + j)
  regWrites : ¬ (run Top.clock v m).misalignedLoad →
    ∀ i j, trace TopPipeline.clock TopPipeline.regWrites u (n + i) =
      trace Top.clock Top.regWrites v (m + 1 + j)

/-- What it takes for a run of the pipeline to refine a run of `top`. -/
structure Refines (u : TopPipeline p) (v : Top p) : Prop where
  regWrites : ∀ n, trace TopPipeline.clock TopPipeline.regWrites u n <+:
    trace Top.clock Top.regWrites v n
  stores : ∀ n, trace TopPipeline.clock TopPipeline.stores u n <+:
    trace Top.clock Top.stores v n
  lossless : ∀ m, (∀ k < m, (run Top.clock v k).halted = false) →
    ∃ n, trace Top.clock Top.regWrites v m <+: trace TopPipeline.clock TopPipeline.regWrites u n ∧
      trace Top.clock Top.stores v m <+: trace TopPipeline.clock TopPipeline.stores u n
  halts : (∃ n, (run TopPipeline.clock u n).halted = true) ↔
    ∃ m, (run Top.clock v m).halted = true
  agree : ∀ n m, FirstAt TopPipeline.clock (fun s => s.halted = true) u n →
    FirstAt Top.clock (fun s => s.halted = true) v m → AgreeHalted u v n m

theorem firstAt_top_iff {d : DMem p.dmemIdxW} {k : ℕ} :
    FirstAt Top.clock (fun s => s.halted = true) (Top.reset p d) k ↔ HaltsAt p d k :=
  top_firstAt_halted

/-- The pipeline first halts three cycles after the halting instruction leaves ID. -/
theorem firstAt_pipeline_iff {d : DMem p.dmemIdxW} {n : ℕ} :
    FirstAt TopPipeline.clock (fun s => s.halted = true) (TopPipeline.reset p d) n ↔
      ∃ k, HaltsAt p d k ∧ n = leaveId (program p d) k + 3 := by
  rw [← runningBefore_iff]
  constructor
  · rintro ⟨hrun, hh⟩
    obtain ⟨hk, hn, _⟩ := haltsAt_of_halted hrun hh
    exact ⟨_, hk, hn⟩
  · rintro ⟨k, hk, rfl⟩
    obtain ⟨hrun, hh, _⟩ := halted_of_haltsAt hk
    exact ⟨hrun, hh⟩

theorem halts_iff (d : DMem p.dmemIdxW) :
    (∃ n, (run TopPipeline.clock (TopPipeline.reset p d) n).halted = true) ↔
      ∃ m, (run Top.clock (Top.reset p d) m).halted = true := by
  constructor
  · rintro ⟨n, hn⟩
    obtain ⟨m, _, hm⟩ := exists_firstAt (P := fun s : TopPipeline p => s.halted = true) hn
    obtain ⟨k, hk, _⟩ := firstAt_pipeline_iff.mp hm
    exact ⟨k, (firstAt_top_iff.mpr hk).1⟩
  · rintro ⟨m, hm⟩
    obtain ⟨k, _, hk⟩ := exists_firstAt (P := fun s : Top p => s.halted = true) hm
    have hn := firstAt_pipeline_iff.mpr ⟨k, firstAt_top_iff.mp hk, rfl⟩
    exact ⟨_, hn.1⟩

theorem agreeHalted {d : DMem p.dmemIdxW} {k : ℕ} (h : HaltsAt p d k) :
    AgreeHalted (TopPipeline.reset p d) (Top.reset p d) (leaveId (program p d) k + 3) k := by
  obtain ⟨hc, hx, hd⟩ := state_of_haltsAt h
  obtain ⟨_, hh, _⟩ := halted_of_haltsAt h
  have hk : run Top.clock (Top.reset p d) k = program p d k := top_run_eq h.2
  constructor
  · rw [hk]
    exact hc
  · intro i j
    rw [run_add, top_dmem_of_haltsAt h]
    exact (sameHalt_run hh i).dmem.trans hd
  · intro hm i j
    rw [hk] at hm
    rw [run_add, top_xregs_of_haltsAt h hm]
    exact (sameHalt_run hh i).xregs.trans hx
  · exact fun i j => (halted_traces_eq h (Nat.le_add_right _ _) (by omega)).2
  · intro hm i j
    rw [hk] at hm
    exact (halted_traces_eq h (Nat.le_add_right _ _) (by omega)).1 hm

/-- `addi x1, x0, 5; sw x1, 4(x0); ecall`. -/
def storeCore : Params := .ofImage 2 [0x00500093#32, 0x00102223#32, 0x00000073#32]

/-- Reset in any state and with the same data memory, the pipeline refines `top`. -/
theorem pipeline_refines_top (u : TopPipeline p) (v : Top p) (hd : u.dmem = v.dmem) :
    Refines (u.edge true) (v.edge true) := by
  rw [u.edge_rst, v.edge_rst, hd]
  constructor
  · exact fun n => (pipeline_trace_le n).1
  · exact fun n => (pipeline_trace_le n).2
  · exact fun m hm => nothing_lost (running_of_not_halted hm)
  · exact halts_iff v.dmem
  · intro n m hn hm
    obtain ⟨k, hk, rfl⟩ := firstAt_pipeline_iff.mp hn
    rw [(firstAt_top_iff.mp hm).unique hk]
    exact agreeHalted hk

theorem pipeline_refines_top_storeCore :
    Refines ((TopPipeline.reset storeCore fun _ => 0#32).edge true)
      ((Top.reset storeCore fun _ => 0#32).edge true) :=
  pipeline_refines_top _ _ rfl

end Refines
end RiscForge.Rtl
