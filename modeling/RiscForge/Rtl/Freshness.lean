import RiscForge.Rtl.HaltFinal
import RiscForge.Rtl.CycleLaw

/-! The operands that the pipeline consumes are those that `top` reads for the same instruction. -/
namespace RiscForge.Rtl

open Lib

/-- The states of the pipeline from a reset edge on, with the instructions that its stages hold:
they are numbered in the order in which they enter. -/
inductive Tracked (p : Params) : DMem p.dmemIdxW → TopPipeline p → Slots → Prop
  | rst (u : TopPipeline p) : Tracked p u.dmem (u.edge true) ⟨0, false, false, false, false⟩
  | clock {d : DMem p.dmemIdxW} {s : TopPipeline p} {g : Slots} (h : Tracked p d s g) :
      Tracked p d s.clock (g.next s.stall s.idRedirect)

section Tracking
variable {p : Params} {d : DMem p.dmemIdxW} {s : TopPipeline p} {g : Slots} {n m k : ℕ}

/-- Every reachable state is tracked. -/
theorem Reachable.tracked (h : Reachable p d s) : ∃ g, Tracked p d s g := by
  induction h with
  | rst u => exact ⟨_, .rst u⟩
  | clock _ ih =>
    obtain ⟨g, hg⟩ := ih
    exact ⟨_, hg.clock⟩

theorem Tracked.eq_pipeline (h : Tracked p d s g) :
    ∃ n, s = pipeline p d n ∧ g = slots p d n := by
  induction h with
  | rst u => exact ⟨0, u.edge_rst, rfl⟩
  | clock _ ih =>
    obtain ⟨n, rfl, rfl⟩ := ih
    exact ⟨n + 1, rfl, rfl⟩

theorem slots_base_mono (h : m ≤ n) : (slots p d m).base ≤ (slots p d n).base := by
  induction n, h using Nat.le_induction with
  | base => exact le_rfl
  | succ n _ ih => exact ih.trans (slots_base_le (n := n))

/-- A pipeline that has halted has done so behind an instruction older than the one in MEM. -/
theorem running_of_none_halts (hk : ∀ j < k, (program p d j).haltNow = false)
    (hm : (slots p d n).kMem ≤ k) : RunningBefore p d (n + 1) := by
  rcases running_or_firstHalt (p := p) (d := d) (n + 1) with h | ⟨m, hmn, hr, hh⟩
  · exact h
  · exfalso
    obtain ⟨hw, hb, -⟩ := (sim_run hr).wb_halting hh
    have hlt : (slots p d m).base < (slots p d n).kMem := by
      have hs : (slots p d m).kMem = (slots p d m).base + 1 := by simp [Slots.kMem, hw]
      rcases Nat.lt_or_ge m n with hlt | hge
      · have hle := slots_base_mono (p := p) (d := d) (Nat.succ_le_of_lt hlt)
        have hn := slots_base_le (p := p) (d := d) (n := n)
        rw [Nat.succ_eq_add_one, slots_base_succ] at hle
        omega
      · obtain rfl : m = n := by omega
        omega
    have hf := hk _ (lt_of_lt_of_le hlt hm)
    rw [hb] at hf
    cases hf

end Tracking

section Operands
variable {p : Params} {s : TopPipeline p} {a : Top p}

/-- The opcodes of the instructions that read `rs1`, and `rs2`, in EX. -/
def ReadsRs1InEx (o : Option Opcode) : Prop :=
  o = some .reg ∨ o = some .imm ∨ o = some .load ∨ o = some .store

def ReadsRs2InEx (o : Option Opcode) : Prop := o = some .reg ∨ o = some .store

/-- EX holds the instruction that `top` is about to execute from `a`, with its operands. -/
structure FreshEx (s : TopPipeline p) (a : Top p) : Prop where
  pc : s.idEx.pc = a.pc
  ctrl : s.idEx.ctrl = a.ctrl
  rs1 : ReadsRs1InEx (opcode a.inst) → s.exRs1Fwd = a.xregs.get (rs1Idx a.inst)
  rs2 : ReadsRs2InEx (opcode a.inst) → s.exRs2Fwd = a.xregs.get (rs2Idx a.inst)

/-- The same of a conditional branch or JALR in ID that does not stall. -/
structure FreshId (s : TopPipeline p) (a : Top p) : Prop where
  pc : s.ifId.pc = a.pc
  inst : s.idInst = a.inst
  rs1 : s.stall = false →
    opcode a.inst = some .branch ∧ a.ctrl.illegal = false ∨ opcode a.inst = some .jalr →
      s.idRs1Cmp = a.xregs.get (rs1Idx a.inst)
  rs2 : s.stall = false → opcode a.inst = some .branch ∧ a.ctrl.illegal = false →
    s.idRs2Cmp = a.xregs.get (rs2Idx a.inst)

theorem readsRs1_of_readsRs1InEx {o : Option Opcode} (h : ReadsRs1InEx o) : readsRs1 o = true := by
  rcases h with rfl | rfl | rfl | rfl <;> rfl

theorem readsRs2_of_readsRs2InEx {o : Option Opcode} (h : ReadsRs2InEx o) : readsRs2 o = true := by
  rcases h with rfl | rfl <;> rfl

/-- A legal branch is conditional. -/
theorem decoder_branch {w : Word} (ho : opcode w = some .branch)
    (hl : (decoder w).illegal = false) : (decoder w).condBranch = true := by
  have hd := decoder_decoded w
  generalize decoder w = c at hd hl
  cases hd <;> simp_all [nopCtrl, Control.condBranch]

theorem decoder_jalr {w : Word} (ho : opcode w = some .jalr) : (decoder w).isJalr = true := by
  have hd := decoder_decoded w
  generalize decoder w = c at hd
  cases hd <;> simp_all [Control.isJalr]

section Stages
variable {t : ℕ → Top p} {g : Slots}

theorem Sim.freshEx (h : Sim t s g) (ht : Execution t) (hh : s.halted = false)
    (hx : g.ex = true) : FreshEx s (t g.kEx) where
  pc := (h.ex hx).pc
  ctrl := (h.ex hx).ctrl
  rs1 ho := h.exRs1Fwd_eq ht hh hx (readsRs1_of_readsRs1InEx ho)
  rs2 ho := h.exRs2Fwd_eq ht hh hx (readsRs2_of_readsRs2InEx ho)

theorem Sim.freshId (h : Sim t s g) (ht : Execution t) (hh : s.halted = false)
    (hi : g.id = true) : FreshId s (t g.kId) where
  pc := by rw [h.id hi]
  inst := h.idInst_eq hi
  rs1 hs ho := by
    refine h.idRs1Cmp_fresh ht hh hi (branchStall_of_not_stall hs) ?_
    rw [TopPipeline.idCtrlReadsRs1, h.idCtrl_eq hi]
    rcases ho with hb | hj
    · exact Bool.or_eq_true_iff.mpr (.inl (decoder_branch hb.1 hb.2))
    · exact Bool.or_eq_true_iff.mpr (.inr (decoder_jalr hj))
  rs2 hs hb := by
    refine h.idRs2Cmp_fresh ht hh hi (branchStall_of_not_stall hs) ?_
    rw [TopPipeline.idCtrlReadsRs2, h.idCtrl_eq hi]
    exact decoder_branch hb.1 hb.2

end Stages

variable {d : DMem p.dmemIdxW} {g : Slots} {v : Top p} {k n : ℕ}

/-- `top` runs from its reset, and none of its first `k` instructions halts. -/
def NoneHalts (v : Top p) (k : ℕ) : Prop :=
  ∀ j < k, (run Top.clock (v.edge true) j).halted = false

theorem NoneHalts.program (h : NoneHalts v k) :
    ∀ j < k, (program p v.dmem j).haltNow = false := by
  rw [NoneHalts, v.edge_rst] at h
  exact running_of_not_halted h

theorem NoneHalts.run_eq (h : NoneHalts v k) :
    run Top.clock (v.edge true) k = Rtl.program p v.dmem k := by
  rw [v.edge_rst]
  exact top_run_eq h.program

theorem Tracked.freshEx (h : Tracked p v.dmem s g) (hx : g.ex = true) (hn : NoneHalts v g.kEx) :
    FreshEx s (run Top.clock (v.edge true) g.kEx) := by
  obtain ⟨n, rfl, rfl⟩ := h.eq_pipeline
  have hr : RunningBefore p v.dmem (n + 1) :=
    running_of_none_halts hn.program (Nat.le_add_right _ _)
  rw [hn.run_eq]
  exact (sim_run (hr.mono (Nat.le_succ n))).freshEx program_execution (hr n (Nat.lt_succ_self n)) hx

theorem Tracked.freshId (h : Tracked p v.dmem s g) (hi : g.id = true) (hn : NoneHalts v g.kId) :
    FreshId s (run Top.clock (v.edge true) g.kId) := by
  obtain ⟨n, rfl, rfl⟩ := h.eq_pipeline
  have hm : (slots p v.dmem n).kMem ≤ (slots p v.dmem n).kId :=
    (Nat.le_add_right _ _).trans (Nat.le_add_right _ _)
  have hr : RunningBefore p v.dmem (n + 1) := running_of_none_halts hn.program hm
  rw [hn.run_eq]
  exact (sim_run (hr.mono (Nat.le_succ n))).freshId program_execution (hr n (Nat.lt_succ_self n)) hi

/-- In every reachable state, for the instructions that EX and ID hold with nothing older that
halts. -/
theorem operands_fresh (hv : v.dmem = d) :
    (Reachable p d s → ∃ g, Tracked p d s g) ∧ ∀ g, Tracked p d s g →
      (g.ex = true → NoneHalts v g.kEx → FreshEx s (run Top.clock (v.edge true) g.kEx)) ∧
        (g.id = true → NoneHalts v g.kId → FreshId s (run Top.clock (v.edge true) g.kId)) := by
  subst hv
  exact ⟨Reachable.tracked, fun g h => ⟨h.freshEx, h.freshId⟩⟩

/-- The branch waits in ID for the load in EX; a cycle later its operand is the data loaded. -/
theorem operands_fresh_loadBranchCore :
    FreshEx (run TopPipeline.clock ((TopPipeline.reset loadBranchCore fun _ => 7#32).edge true) 2)
      (run Top.clock ((Top.reset loadBranchCore fun _ => 7#32).edge true) 0) ∧
    (run TopPipeline.clock
        ((TopPipeline.reset loadBranchCore fun _ => 7#32).edge true) 3).idRs1Cmp =
      (run Top.clock ((Top.reset loadBranchCore fun _ => 7#32).edge true) 1).xregs.get 1#5 := by
  have h2 := (Tracked.rst (TopPipeline.reset loadBranchCore fun _ => 7#32)).clock.clock
  have h3 := h2.clock
  have hv : (Top.reset loadBranchCore fun _ => 7#32).dmem = fun _ => 7#32 := rfl
  constructor
  · exact ((operands_fresh hv).2 _ h2).1 (by decide) (by unfold NoneHalts; decide)
  · exact (((operands_fresh hv).2 _ h3).2 (by decide) (by unfold NoneHalts; decide)).rs1 (by decide)
      (.inl (by decide))

end Operands
end RiscForge.Rtl
