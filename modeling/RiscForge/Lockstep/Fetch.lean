import RiscForge.Lockstep.Misaligned

/-! Fetch addresses: neither core checks them, so a program has to keep to its memory. -/
namespace RiscForge.Lockstep

open Lib Rtl Isa Refmodel

section Address
variable (p : Params)

/-- The address is a multiple of 4 inside the instruction memory. -/
def InImem (addr : Word) : Prop := addr.toNat % 4 = 0 ∧ addr.toNat < 4 * 2 ^ p.imemIdxW

instance (addr : Word) : Decidable (InImem p addr) := inferInstanceAs (Decidable (_ ∧ _))

/-- The address is in order, or `instr_memory` happens to return a word there that is illegal,
ECALL or EBREAK. -/
def SafeFetch (addr : Word) : Prop :=
  InImem p addr ∨ decodeCause (instrMemory p addr) ≠ .none

variable {p} (t : Top p)

/-- The address after the instruction: its target where it transfers control, or `pc + 4`. -/
def successor : Word :=
  ((decode t.inst).bind fun i => i.target t.pc t.xregs.get).getD (t.pc + 4#32)

theorem decoder_branchOp_of_decode_none {w : Word} (h : decode w = none) :
    (decoder w).branchOp = .none := by
  have ho : (decoder w).branchOp = .none ∨ opcode w = some .jal ∨ opcode w = some .jalr ∨
      opcode w = some .branch := by
    have hd := decoder_decoded w
    generalize decoder w = c at hd ⊢
    cases hd <;> simp_all [nopCtrl]
  rcases ho with ho | ho | ho | ho
  · exact ho
  · simp [decode, ho] at h
  · simp [decode, ho] at h
  · simp only [decode, ho, Option.map_eq_none_iff] at h
    simp [decoder, ho, decodeBranch, h, nopCtrl]

theorem nextPc_eq_successor : t.nextPc = successor t := by
  unfold successor
  cases hd : decode t.inst with
  | some i => exact nextPc_of_decodes (decodes_of_decode hd)
  | none =>
    have hb : t.branchTaken = false := by
      rw [Top.branchTaken, Top.ctrl, decoder_branchOp_of_decode_none hd]
      rfl
    rw [Top.nextPc, hb]
    rfl

end Address

section Quiet
variable {p : Params} {t : Top p}

/-- An illegal word, ECALL or EBREAK neither writes a register nor accesses memory. -/
theorem inactive_of_decodeCause (h : decodeCause t.inst ≠ .none) : t.ctrl.active = false := by
  unfold decodeCause at h
  split at h
  case isTrue hi => exact (decoder_illegal t.inst hi).1
  case isFalse =>
    have hs : isSystem t.inst = true := by
      by_contra hs
      rw [Bool.not_eq_true] at hs
      simp [isEcall, isEbreak, hs] at h
    rw [Top.ctrl, decoder_isSystem t.inst hs]
    rfl

theorem quiet_of_decodeCause (h : decodeCause t.inst ≠ .none) :
    t.regWrites = [] ∧ t.stores = [] := by
  have ha := inactive_of_decodeCause h
  simp only [Control.active, Bool.or_eq_false_iff] at ha
  constructor
  · simp [Top.regWrites, Top.regWe, ha.1.1]
  · exact DMemIn.stores_of_memWrite_false (by simp [Top.dmemIn, ha.2])

theorem haltCause_of_decodeCause (hq : t.haltedQ = false) (h : decodeCause t.inst ≠ .none) :
    t.haltCause ≠ .none := by
  have ha := inactive_of_decodeCause h
  simp only [Control.active, Bool.or_eq_false_iff] at ha
  have hm : t.dmemMisaligned = false :=
    DMemIn.misaligned_of_no_access p _ ha.1.2 (by simp [Top.dmemIn, ha.2])
  unfold decodeCause at h
  simp only [Top.haltCause, hq, hm, Bool.not_false, if_true, Bool.false_eq_true, if_false,
    Top.ctrl]
  repeat' split
  all_goals simp_all

end Quiet

section Run
variable {p : Params} {u : TopPipeline p} {v : Top p} {k n : ℕ}

/-- `top` commits instructions from addresses in order only, and one from another address stops
it before anything is committed. -/
structure TopFetchSafe (v : Top p) : Prop where
  commits : ∀ k, (run Top.clock v k).regWrites ≠ [] ∨ (run Top.clock v k).stores ≠ [] →
    InImem p (run Top.clock v k).pc
  stops : ∀ k, (run Top.clock v k).haltedQ = false → ¬ InImem p (run Top.clock v k).pc →
    (run Top.clock v k).haltCause ≠ .none ∧
      ∀ j, (run Top.clock v (k + j)).regWrites = [] ∧ (run Top.clock v (k + j)).stores = []

/-- The same of the pipeline, which carries `pc + 4` down to the stages that commit. Its
architectural path is that of `top`. -/
structure PipelineFetchSafe (u : TopPipeline p) (v : Top p) : Prop where
  regWrites : ∀ n, (run TopPipeline.clock u n).regWrites ≠ [] →
    InImem p ((run TopPipeline.clock u n).memWb.pc4 - 4#32)
  stores : ∀ n, (run TopPipeline.clock u n).stores ≠ [] →
    InImem p ((run TopPipeline.clock u n).exMem.pc4 - 4#32)
  stops : ∀ k, (run Top.clock v k).haltedQ = false → ¬ InImem p (run Top.clock v k).pc →
    (∃ m, FirstAt TopPipeline.clock (fun s => s.halted = true) u m ∧
      (run TopPipeline.clock u m).haltCause ≠ .none) ∧
    ∀ n, trace TopPipeline.clock TopPipeline.regWrites u n <+: trace Top.clock Top.regWrites v k ∧
      trace TopPipeline.clock TopPipeline.stores u n <+: trace Top.clock Top.stores v k

theorem pcPlus4_sub (t : Top p) : t.pcPlus4 - 4#32 = t.pc := by
  rw [Top.pcPlus4, BitVec.add_sub_cancel]

section Pipeline
variable {d : DMem p.dmemIdxW}

theorem runningBefore_of_not_halted (hh : (pipeline p d n).halted = false) :
    RunningBefore p d n := by
  rcases running_or_firstHalt (p := p) (d := d) n with hr | ⟨m, hm, -, hm'⟩
  · exact hr
  · obtain ⟨i, rfl⟩ := Nat.exists_eq_add_of_le hm.le
    have hs := (sameHalt_run hm' i).halted
    rw [pipeline, ← run_add, ← pipeline, hh] at hs
    cases hs

/-- Every instruction up to MEM is one `top` executes. -/
theorem kMem_not_halting (hh : (pipeline p d n).halted = false) :
    ∀ j < (slots p d n).kMem, (program p d j).haltNow = false := by
  have hrun := runningBefore_of_not_halted hh
  intro j hj
  rcases Nat.lt_or_ge j (slots p d n).base with hb | hb
  · exact base_not_halting hrun j hb
  · rw [Slots.kMem] at hj
    cases hw : (slots p d n).wb with
    | false =>
      rw [hw, Bool.toNat_false] at hj
      omega
    | true =>
      rw [hw, Bool.toNat_true] at hj
      rw [show j = (slots p d n).base by omega]
      exact (sim_run hrun).wb_not_halting hh hw

/-- The register write of a pipeline cycle is that of an instruction of `top`. -/
theorem pipeline_regWrites_pc (h : (pipeline p d n).regWrites ≠ []) :
    ∃ k, (pipeline p d n).memWb.pc4 = (run Top.clock (Top.reset p d) k).pcPlus4 ∧
      (run Top.clock (Top.reset p d) k).regWrites ≠ [] := by
  have hh : (pipeline p d n).halted = false := by
    by_contra hh
    exact h (TopPipeline.silent_of_halted (by simpa using hh)).1
  have hrun := runningBefore_of_not_halted hh
  have hs := sim_run hrun
  rw [hs.regWrites_eq program_execution hh] at h
  cases hw : (slots p d n).wb with
  | false => simp [hw] at h
  | true =>
    refine ⟨(slots p d n).base, ?_⟩
    rw [top_run_eq (base_not_halting hrun)]
    exact ⟨(hs.wb hw).pc4, by simpa [hw] using h⟩

/-- And so is its store. -/
theorem pipeline_stores_pc (h : (pipeline p d n).stores ≠ []) :
    ∃ k, (pipeline p d n).exMem.pc4 = (run Top.clock (Top.reset p d) k).pcPlus4 ∧
      (run Top.clock (Top.reset p d) k).stores ≠ [] := by
  have hh : (pipeline p d n).halted = false := by
    by_contra hh
    exact h (TopPipeline.silent_of_halted (by simpa using hh)).2
  have hs := sim_run (runningBefore_of_not_halted hh)
  rw [hs.stores_eq program_execution hh] at h
  cases hm : (slots p d n).mem with
  | false => simp [hm] at h
  | true =>
    refine ⟨(slots p d n).kMem, ?_⟩
    rw [top_run_eq (kMem_not_halting hh)]
    exact ⟨(hs.mem hm).pc4, by simpa [hm] using h⟩

/-- The pipeline is as safe as `top`. -/
theorem pipelineFetchSafe (h : TopFetchSafe (Top.reset p d)) :
    PipelineFetchSafe (TopPipeline.reset p d) (Top.reset p d) := by
  constructor
  · intro n hn
    obtain ⟨k, hpc, hk⟩ := pipeline_regWrites_pc hn
    have hpc' : (run TopPipeline.clock (TopPipeline.reset p d) n).memWb.pc4 = _ := hpc
    rw [hpc', pcPlus4_sub]
    exact h.commits k (Or.inl hk)
  · intro n hn
    obtain ⟨k, hpc, hk⟩ := pipeline_stores_pc hn
    have hpc' : (run TopPipeline.clock (TopPipeline.reset p d) n).exMem.pc4 = _ := hpc
    rw [hpc', pcPlus4_sub]
    exact h.commits k (Or.inr hk)
  · intro k hq hbad
    obtain ⟨hcause, hsilent⟩ := h.stops k hq hbad
    have hrun := running_of_haltedQ hq
    rw [top_run_eq hrun] at hcause
    have hk : HaltsAt p d k := ⟨by simpa [Top.haltNow] using hcause, hrun⟩
    obtain ⟨m, hm, hmc, -⟩ := pipeline_of_haltsAt hk
    refine ⟨⟨m, hm, by rw [hmc]; exact hcause⟩, fun n => ?_⟩
    obtain ⟨hr, hs⟩ := pipeline_trace_le (p := p) (d := d) n
    rcases Nat.le_total n k with hnk | hkn
    · exact ⟨hr.trans (trace_mono hnk), hs.trans (trace_mono hnk)⟩
    · have hquiet : ∀ j, k ≤ j → j < n → (run Top.clock (Top.reset p d) j).regWrites = [] ∧
          (run Top.clock (Top.reset p d) j).stores = [] := by
        intro j hj _
        obtain ⟨i, rfl⟩ := Nat.exists_eq_add_of_le hj
        exact hsilent i
      rw [trace_silent (fun j hj hjn => (hquiet j hj hjn).1) hkn] at hr
      rw [trace_silent (fun j hj hjn => (hquiet j hj hjn).2) hkn] at hs
      exact ⟨hr, hs⟩

end Pipeline

/-- Every instruction `top` executes comes from a safe address, if each one leads to one. -/
theorem safeFetch_run (h0 : SafeFetch p v.pc)
    (hs : ∀ k, (run Top.clock v k).halted = false → SafeFetch p (successor (run Top.clock v k))) :
    ∀ k, (run Top.clock v k).haltedQ = false → SafeFetch p (run Top.clock v k).pc := by
  intro k
  cases k with
  | zero => exact fun _ => h0
  | succ k =>
    intro hq
    have hrun : (run Top.clock v k).haltedQ = false := by
      by_contra hk
      rw [run_succ, Top.clock_of_haltedQ _ (by simpa using hk)] at hq
      exact hk hq
    rw [run_succ, Top.clock_of_running hrun] at hq ⊢
    have hn : (run Top.clock v k).halted = false := by simpa [Top.halted, hrun] using hq
    have hk := hs k hn
    rw [← nextPc_eq_successor] at hk
    exact hk

theorem topFetchSafe (h0 : SafeFetch p v.pc)
    (hs : ∀ k, (run Top.clock v k).halted = false → SafeFetch p (successor (run Top.clock v k))) :
    TopFetchSafe v := by
  have hsafe := safeFetch_run h0 hs
  constructor
  · intro k hc
    by_contra hbad
    have hq : (run Top.clock v k).haltedQ = false := by
      by_contra hq
      have hsil := Top.silent_of_haltedQ (s := run Top.clock v k) (by simpa using hq)
      simp [hsil.1, hsil.2] at hc
    have hdc := (hsafe k hq).resolve_left hbad
    have hquiet := quiet_of_decodeCause (t := run Top.clock v k) hdc
    simp [hquiet.1, hquiet.2] at hc
  · intro k hq hbad
    have hdc := (hsafe k hq).resolve_left hbad
    have hcause := haltCause_of_decodeCause hq hdc
    refine ⟨hcause, fun j => ?_⟩
    cases j with
    | zero => exact quiet_of_decodeCause (t := run Top.clock v k) hdc
    | succ j =>
      have hnow : (run Top.clock v k).haltNow = true := by simpa [Top.haltNow] using hcause
      have hfix : (run Top.clock v (k + 1)).haltedQ = true := by
        rw [run_succ, Top.clock_of_running hq, hnow]
      have hj : run Top.clock v (k + (j + 1)) = run Top.clock v (k + 1) := by
        rw [show k + (j + 1) = k + 1 + j by omega, run_add, run_fixed (Top.clock_of_haltedQ _ hfix)]
      rw [hj]
      exact Top.silent_of_haltedQ hfix

/-- The emulator raises at such an address, with its memory as large as the instruction memory,
and already at a transfer to a target that is no multiple of 4. -/
structure EmulatorTraps (v : Top p) (s : RV32I) (k : ℕ) : Prop where
  fetch : ¬ InImem p (run Top.clock v k).pc → ∃ trap, step s = .error (.trap trap) s ∧
    (trap.kind = .misalignedFetch ∨ trap.kind = .memRange)
  transfer : Fetches s (run Top.clock v k).pc (run Top.clock v k).inst →
    ∀ i a, Decodes (run Top.clock v k).inst i →
      i.target (run Top.clock v k).pc (run Top.clock v k).xregs.get = some a → a.toNat % 4 ≠ 0 →
      ∃ trap, step s = .error (.trap trap) s ∧ trap.kind = .misalignedFetch

theorem emulatorTraps {s : RV32I} (hh : s.halted = false) (hb : s.memBase = 0)
    (hl : s.mem.length = 4 * 2 ^ p.imemIdxW)
    (hs : Holds s (run Top.clock v k).pc (run Top.clock v k).xregs.get) :
    EmulatorTraps v s k := by
  constructor
  · intro hbad
    by_cases ha : (run Top.clock v k).pc.toNat % 4 = 0
    · have hin : ¬ InMem s (run Top.clock v k).pc.toNat 4 := by
        rintro ⟨-, hle⟩
        rw [hb, hl, Int.zero_add] at hle
        have hlt : (run Top.clock v k).pc.toNat + 4 ≤ 4 * 2 ^ p.imemIdxW := by exact_mod_cast hle
        exact hbad ⟨ha, by omega⟩
      obtain ⟨d, hd⟩ := fetch_outside ha hin
      exact ⟨_, step_of_fetch_error hh (by rw [hs.pc]; exact hd), Or.inr rfl⟩
    · obtain ⟨d, hd⟩ := fetch_misaligned (s := s) ha
      exact ⟨_, step_of_fetch_error hh (by rw [hs.pc]; exact hd), Or.inl rfl⟩
  · intro hf i a hd hta hm
    obtain ⟨d, hr⟩ := step_misaligned_target hh hs hf (decode_of_decodes hd) hta hm
    exact ⟨_, hr, rfl⟩

/-- If the reset pc is safe and every executed instruction leads to a safe address, then nothing
commits from an address that is not in order, in either core, and the emulator raises there. -/
theorem fetchSafe_of_successors (u : TopPipeline p) (v : Top p) (hd : u.dmem = v.dmem)
    (h0 : SafeFetch p p.pcReset)
    (hs : ∀ k, (run Top.clock (v.edge true) k).halted = false →
      SafeFetch p (successor (run Top.clock (v.edge true) k))) :
    TopFetchSafe (v.edge true) ∧ PipelineFetchSafe (u.edge true) (v.edge true) ∧
      ∀ (s : RV32I) (k : ℕ), s.halted = false → s.memBase = 0 →
        s.mem.length = 4 * 2 ^ p.imemIdxW →
        Holds s (run Top.clock (v.edge true) k).pc (run Top.clock (v.edge true) k).xregs.get →
        EmulatorTraps (v.edge true) s k := by
  have htop := topFetchSafe (v := v.edge true) (by rw [v.edge_rst]; exact h0) hs
  refine ⟨htop, ?_, fun s k hh hb hl hx => emulatorTraps hh hb hl hx⟩
  rw [u.edge_rst, hd, v.edge_rst] at *
  exact pipelineFetchSafe htop

/-- `addi x1, x0, 5; jal x0, 20; ecall`: the jump leaves the memory, which returns the `ecall` at
address 24. -/
def strayCore : Params := .ofImage 2 [0x00500093#32, 0x0140006F#32, 0x00000073#32]

/-- The emulator after the jump. -/
def strayCpu : RV32I :=
  { RV32I.init 16 0 0x80001000 false with
    regs := fun i => if i = 1#5 then 5 else 0
    pc := 24 }

theorem strayCore_halted (k : ℕ) :
    (run Top.clock ((Top.reset strayCore fun _ => 0#32).edge true) (2 + k)).halted = true := by
  cases k with
  | zero => decide
  | succ k =>
    rw [show 2 + (k + 1) = 3 + k by omega, run_add, run_fixed (Top.clock_of_haltedQ _ (by decide))]
    decide

theorem fetchSafe_of_successors_strayCore :
    (run Top.clock ((Top.reset strayCore fun _ => 0#32).edge true) 2).pc = 24#32 ∧
      TopFetchSafe ((Top.reset strayCore fun _ => 0#32).edge true) ∧
      PipelineFetchSafe ((TopPipeline.reset strayCore fun _ => 0#32).edge true)
        ((Top.reset strayCore fun _ => 0#32).edge true) ∧
      ∃ trap, step strayCpu = .error (.trap trap) strayCpu ∧
        (trap.kind = .misalignedFetch ∨ trap.kind = .memRange) := by
  obtain ⟨htop, hpipe, hemu⟩ := fetchSafe_of_successors (TopPipeline.reset strayCore fun _ => 0#32)
    (Top.reset strayCore fun _ => 0#32) rfl (Or.inl (by decide)) fun k hk => by
      match k with
      | 0 => exact Or.inl (by decide)
      | 1 => exact Or.inr (by decide)
      | k + 2 =>
        rw [Nat.add_comm, strayCore_halted k] at hk
        cases hk
  have hx : Holds strayCpu (run Top.clock ((Top.reset strayCore fun _ => 0#32).edge true) 2).pc
      (run Top.clock ((Top.reset strayCore fun _ => 0#32).edge true) 2).xregs.get :=
    ⟨by decide, by decide, by decide⟩
  exact ⟨by decide, htop, hpipe, (hemu strayCpu 2 rfl rfl rfl hx).fetch (by decide)⟩

/-- `addi x1, x1, 1` twice, in an instruction memory of two words: the pc runs past its end. -/
def overrunCore : Params := .ofImage 1 [0x00108093#32, 0x00108093#32]

/-- Both cores go on to fetch the first word again at address 8, and write `x1`. -/
theorem overrun_commits :
    ∃ (p : Params) (u : TopPipeline p) (v : Top p), u.dmem = v.dmem ∧
      ¬ TopFetchSafe (v.edge true) ∧ ¬ PipelineFetchSafe (u.edge true) (v.edge true) := by
  refine ⟨overrunCore, TopPipeline.reset overrunCore fun _ => 0#32,
    Top.reset overrunCore fun _ => 0#32, rfl, ?_, ?_⟩
  · intro h
    have hc := h.commits 2 (Or.inl (by decide))
    revert hc
    decide
  · intro h
    have hc := h.regWrites 6 (by decide)
    revert hc
    decide

end Run
end RiscForge.Lockstep
