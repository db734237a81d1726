import Mathlib.Data.Nat.Count
import RiscForge.Rtl.SimulationStep

/-! Runs of the two cores after a reset, and the slots of the pipeline along its run. -/
namespace RiscForge.Rtl

open Lib

section TopRun
variable {p : Params} {d : DMem p.dmemIdxW} {n m : ℕ}

/-- The architectural states of the instructions, in program order, without the halt. -/
def program (p : Params) (d : DMem p.dmemIdxW) : ℕ → Top p := run Top.next (Top.reset p d)

theorem program_execution : Execution (program p d) := execution_run rfl

@[simp] theorem program_zero : program p d 0 = Top.reset p d := rfl

/-- Up to its first halting instruction, `top` executes one instruction a cycle. -/
theorem top_run_eq (h : ∀ k < n, (program p d k).haltNow = false) :
    run Top.clock (Top.reset p d) n = program p d n := by
  induction n with
  | zero => rfl
  | succ n ih =>
    have hn := h n (Nat.lt_succ_self n)
    have ihn := ih (fun k hk => h k (Nat.lt_succ_of_lt hk))
    rw [run_succ, ihn, Top.clock_of_not_halted (program_execution.running n) hn]
    exact (program_execution.step n).symm

/-- After the edge of the halting instruction `top` is frozen. -/
theorem top_run_halted {k : ℕ} (h : ∀ j < k, (program p d j).haltNow = false)
    (hk : (program p d k).haltNow = true) (hn : k < n) :
    run Top.clock (Top.reset p d) n = { program p d (k + 1) with haltedQ := true } := by
  obtain ⟨j, rfl⟩ := Nat.exists_eq_add_of_lt hn
  rw [show k + j + 1 = k + 1 + j by omega, run_add, run_succ, top_run_eq h,
    Top.clock_of_running (program_execution.running k), hk, ← program_execution.step k]
  exact run_fixed (Top.clock_of_haltedQ _ rfl) j

theorem top_halted_iff (h : ∀ k < n, (program p d k).haltNow = false) :
    (run Top.clock (Top.reset p d) n).halted = (program p d n).haltNow := by
  rw [top_run_eq h, Top.halted, program_execution.running n, Bool.false_or]

theorem running_of_not_halted
    (h : ∀ k < n, (run Top.clock (Top.reset p d) k).halted = false) :
    ∀ k < n, (program p d k).haltNow = false := by
  intro k hk
  induction k using Nat.strong_induction_on with
  | _ k ih =>
    rw [← top_halted_iff (fun j hj => ih j hj (hj.trans hk))]
    exact h k hk

/-- `top` first raises `halted` in the cycle of its first halting instruction. -/
theorem top_firstAt_halted :
    FirstAt Top.clock (fun s => s.halted = true) (Top.reset p d) n ↔
      (program p d n).haltNow = true ∧ ∀ k < n, (program p d k).haltNow = false := by
  constructor
  · rintro ⟨hn, hlt⟩
    have hall := running_of_not_halted (fun k hk => Bool.eq_false_iff.mpr (hlt k hk))
    exact ⟨(top_halted_iff hall).symm.trans hn, hall⟩
  · rintro ⟨hn, hall⟩
    refine ⟨(top_halted_iff hall).trans hn, fun m hm => ?_⟩
    have hm' := top_halted_iff (fun k hk => hall k (hk.trans hm))
    simp only [hm', hall m hm, Bool.false_eq_true, not_false_eq_true]

theorem Top.silent_of_haltedQ {s : Top p} (h : s.haltedQ = true) :
    s.regWrites = [] ∧ s.stores = [] := by
  constructor
  · simp [Top.regWrites, Top.regWe, h]
  · exact DMemIn.stores_of_memWrite_false (by simp [Top.dmemIn, h])

/-- What `top` reports is what its instructions do, up to and with the halting one. -/
theorem top_trace_eq {ε : Type} {out : Top p → List ε}
    (h : ∀ k, k + 1 < n → (program p d k).haltNow = false) :
    trace Top.clock out (Top.reset p d) n = trace Top.next out (Top.reset p d) n := by
  induction n with
  | zero => rfl
  | succ n ih =>
    have hn := ih (fun k hk => h k (by omega))
    rw [trace, trace, hn, top_run_eq (fun k hk => h k (by omega))]
    rfl

/-- Once it has halted, `top` reports nothing more. -/
theorem top_trace_halted {ε : Type} {out : Top p → List ε}
    (hq : ∀ s : Top p, s.haltedQ = true → out s = []) {k : ℕ}
    (h : ∀ j < k, (program p d j).haltNow = false) (hk : (program p d k).haltNow = true)
    (hn : k < n) :
    trace Top.clock out (Top.reset p d) n = trace Top.next out (Top.reset p d) (k + 1) := by
  have hs : ∀ j, k + 1 ≤ j → j < n → out (run Top.clock (Top.reset p d) j) = [] := by
    intro j hj _
    rw [top_run_halted h hk hj]
    exact hq _ rfl
  rw [trace_silent hs hn]
  exact top_trace_eq (fun j hj => h j (by omega))

end TopRun

section PipelineRun
variable {p : Params} {d : DMem p.dmemIdxW} {n m : ℕ}

/-- The pipeline `n` clocks after its reset. -/
def pipeline (p : Params) (d : DMem p.dmemIdxW) : ℕ → TopPipeline p :=
  run TopPipeline.clock (TopPipeline.reset p d)

/-- The slots along the pipeline's run. -/
def slots (p : Params) (d : DMem p.dmemIdxW) : ℕ → Slots
  | 0 => ⟨0, false, false, false, false⟩
  | n + 1 => (slots p d n).next (pipeline p d n).stall (pipeline p d n).idRedirect

/-- The pipeline has not halted before cycle `n`. -/
def RunningBefore (p : Params) (d : DMem p.dmemIdxW) (n : ℕ) : Prop :=
  ∀ m < n, (pipeline p d m).halted = false

theorem RunningBefore.mono (h : RunningBefore p d n) (hmn : m ≤ n) : RunningBefore p d m :=
  fun k hk => h k (lt_of_lt_of_le hk hmn)

theorem sim_run (h : RunningBefore p d n) :
    Sim (program p d) (pipeline p d n) (slots p d n) := by
  induction n with
  | zero => exact Sim.reset _ d rfl
  | succ n ih =>
    exact (ih (h.mono (Nat.le_succ n))).clock program_execution (h n (Nat.lt_succ_self n))

theorem slots_base_succ : (slots p d (n + 1)).base = (slots p d n).kMem := rfl

/-- An instruction cannot enter the pipeline before its cycle. -/
theorem slots_kId_le : (slots p d n).kId + (slots p d n).id.toNat ≤ n := by
  induction n with
  | zero => exact le_rfl
  | succ n ih =>
    simp only [slots, Slots.next_kId, Slots.next_id]
    cases hs : (pipeline p d n).stall <;> cases hi : (slots p d n).id <;>
      cases hr : (pipeline p d n).idRedirect <;> simp_all <;> omega

theorem slots_kMem_le : (slots p d n).kMem ≤ n := by
  have h := slots_kId_le (p := p) (d := d) (n := n)
  simp only [Slots.kId, Slots.kEx] at h
  omega

theorem slots_base_le : (slots p d n).base ≤ (slots p d n).kMem := Nat.le_add_right _ _

/-- While the pipeline runs, the instruction in WB did not halt. -/
theorem Sim.wb_not_halting {t : ℕ → Top p} {s : TopPipeline p} {g : Slots} (h : Sim t s g)
    (hh : s.halted = false) (hw : g.wb = true) : (t g.base).haltNow = false := by
  have hc := (h.wb hw).hc
  simp only [TopPipeline.halted, Bool.or_eq_false_iff] at hh
  simp_all [Top.haltNow]

/-- A halted pipeline that still simulates has the halting instruction in WB. -/
theorem Sim.wb_halting {t : ℕ → Top p} {s : TopPipeline p} {g : Slots} (h : Sim t s g)
    (hh : s.halted = true) :
    g.wb = true ∧ (t g.base).haltNow = true ∧ s.haltCause = (t g.base).haltCause := by
  have hc : s.wbHc ≠ .none := by simpa [TopPipeline.halted, h.haltedQ] using hh
  have hw : g.wb = true := by
    by_contra hw
    exact hc (h.wbBubble (by simpa using hw)).hc
  have hb := (h.wb hw).hc
  exact ⟨hw, by simpa [Top.haltNow, ← hb] using hc, hb⟩

/-- Every instruction that has left WB did not halt. -/
theorem base_not_halting (h : RunningBefore p d n) :
    ∀ k < (slots p d n).base, (program p d k).haltNow = false := by
  induction n with
  | zero => intro k hk; simp [slots] at hk
  | succ n ih =>
    intro k hk
    have hn := h.mono (Nat.le_succ n)
    rcases Nat.lt_or_ge k (slots p d n).base with hb | hb
    · exact ih hn k hb
    · rw [slots_base_succ, Slots.kMem] at hk
      have hw : (slots p d n).wb = true := by
        by_contra hw
        simp only [Bool.not_eq_true] at hw
        simp only [hw, Bool.toNat_false] at hk
        omega
      have he : k = (slots p d n).base := by
        simp only [hw, Bool.toNat_true] at hk
        omega
      rw [he]
      exact (sim_run hn).wb_not_halting (h n (Nat.lt_succ_self n)) hw

/-- The register writes of a cycle are those of the instruction in WB. -/
theorem Sim.regWrites_eq {t : ℕ → Top p} {s : TopPipeline p} {g : Slots} (h : Sim t s g)
    (ht : Execution t) (hh : s.halted = false) :
    s.regWrites = if g.wb then (t g.base).regWrites else [] := by
  unfold TopPipeline.regWrites
  rw [Sim.wbWe_eq hh]
  cases hw : g.wb with
  | false => rcases (h.wbBubble hw).noWrite with hn | hn <;> simp [hn]
  | true =>
    have hb := h.wb hw
    unfold Top.regWrites Top.regWe
    rw [hb.ctrl, hb.rdIdx, ht.running]
    cases hr : (t g.base).ctrl.regWrite with
    | false => simp
    | true => simp [hb.wbData hr]

theorem trace_one {σ ε : Type} {step : σ → σ} {out : σ → List ε} {s : σ} (b : Bool) :
    trace step out s b.toNat = if b then out s else [] := by
  cases b <;> simp [trace]

/-- The register writes of a running pipeline are those of the instructions that left WB. -/
theorem regWrites_trace_eq (h : RunningBefore p d n) :
    trace TopPipeline.clock TopPipeline.regWrites (TopPipeline.reset p d) n =
      trace Top.next Top.regWrites (Top.reset p d) (slots p d n).base := by
  refine trace_eq_of_lag (f := fun k => (slots p d k).base) rfl fun k hk => ?_
  refine ⟨(slots p d k).wb.toNat, rfl, ?_⟩
  rw [trace_one]
  exact (sim_run (h.mono hk.le)).regWrites_eq program_execution (h k hk)

/-- The stores of a running pipeline are those of the instructions that left MEM. -/
theorem stores_trace_eq (h : RunningBefore p d n) :
    trace TopPipeline.clock TopPipeline.stores (TopPipeline.reset p d) n =
      trace Top.next Top.stores (Top.reset p d) (slots p d n).kMem := by
  refine trace_eq_of_lag (f := fun k => (slots p d k).kMem) rfl fun k hk => ?_
  refine ⟨(slots p d k).mem.toNat, rfl, ?_⟩
  rw [trace_one]
  exact (sim_run (h.mono hk.le)).stores_eq program_execution (h k hk)

section Halted

theorem TopPipeline.silent_of_halted {s : TopPipeline p} (h : s.halted = true) :
    s.regWrites = [] ∧ s.stores = [] := by
  constructor
  · simp [TopPipeline.regWrites, TopPipeline.wbWe, h]
  · exact DMemIn.stores_of_memWrite_false (by simp [TopPipeline.dmemIn, TopPipeline.pipeEn, h])

/-- What a halted pipeline shows outside. -/
structure SameHalt (u s : TopPipeline p) : Prop where
  halted : u.halted = true
  haltCause : u.haltCause = s.haltCause
  pcOut : u.pcOut = s.pcOut
  xregs : u.xregs = s.xregs
  dmem : u.dmem = s.dmem
  tohostValue : u.tohostValue = s.tohostValue

theorem SameHalt.clock {u s : TopPipeline p} (h : SameHalt u s) : SameHalt u.clock s := by
  rw [TopPipeline.clock_of_halted h.halted]
  exact {
    halted := by simp [TopPipeline.halted]
    haltCause := h.haltCause
    pcOut := h.pcOut
    xregs := h.xregs
    dmem := h.dmem
    tohostValue := h.tohostValue }

theorem sameHalt_run {s : TopPipeline p} (hh : s.halted = true) (n : ℕ) :
    SameHalt (run TopPipeline.clock s n) s :=
  run_invariant (P := fun u => SameHalt u s) (fun _ h => h.clock) ⟨hh, rfl, rfl, rfl, rfl, rfl⟩ n

theorem runningBefore_iff :
    RunningBefore p d n ∧ (pipeline p d n).halted = true ↔
      FirstAt TopPipeline.clock (fun s => s.halted = true) (TopPipeline.reset p d) n := by
  constructor
  · rintro ⟨h, hn⟩
    refine ⟨hn, fun m hm => ?_⟩
    have hm' : (run TopPipeline.clock (TopPipeline.reset p d) m).halted = false := h m hm
    simp [hm']
  · rintro ⟨hn, h⟩
    exact ⟨fun m hm => Bool.eq_false_iff.mpr (h m hm), hn⟩

/-- Either the pipeline still runs, or it first halted at some earlier or the same cycle. -/
theorem running_or_firstHalt (n : ℕ) :
    RunningBefore p d n ∨ ∃ k < n, RunningBefore p d k ∧ (pipeline p d k).halted = true := by
  by_cases h : RunningBefore p d n
  · exact Or.inl h
  · right
    simp only [RunningBefore, not_forall, Bool.not_eq_false] at h
    obtain ⟨m, hm, hh⟩ := h
    obtain ⟨k, hk, hf⟩ := exists_firstAt (P := fun s : TopPipeline p => s.halted = true) hh
    exact ⟨k, by omega, runningBefore_iff.mpr hf⟩

theorem pipeline_trace_halted {ε : Type} {out : TopPipeline p → List ε}
    (ho : ∀ s : TopPipeline p, s.halted = true → out s = []) {k : ℕ} (hk : k ≤ n)
    (hh : (pipeline p d k).halted = true) :
    trace TopPipeline.clock out (TopPipeline.reset p d) n =
      trace TopPipeline.clock out (TopPipeline.reset p d) k := by
  refine trace_silent (fun j hj _ => ho _ ?_) hk
  obtain ⟨i, rfl⟩ := Nat.exists_eq_add_of_le hj
  rw [run_add]
  exact (sameHalt_run hh i).halted

end Halted
end PipelineRun
end RiscForge.Rtl
