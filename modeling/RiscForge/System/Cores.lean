import RiscForge.Lockstep.Step
import RiscForge.Rtl.HaltFinal
import RiscForge.Rtl.Throughput
import RiscForge.System.Emulator

/-! The two cores execute the programs of the abstract machine. -/
namespace RiscForge.System

open Lib Rtl Isa Refmodel Lockstep

/-- The RTL is built for the machine: its data memory is the machine's memory, and its instruction
memory holds the code. -/
structure Hosts (M : Machine) (p : Params) : Prop where
  lo : M.lo = 0
  hi : M.hi = 4 * 2 ^ p.dmemIdxW
  tohost : M.tohost = p.tohostAddr.toNat
  mmio : MmioOutside p
  code : ∀ q i, M.code q = some i → decode (instrMemory p q) = some i

/-- `top` holds the state `c` of the machine; the emulator beside it has the bytes of its memory. -/
structure Carries (M : Machine) {p : Params} (c : Cpu) (t : Top p) : Prop where
  running : t.haltedQ = false
  beside : ∃ s, Models M false c s ∧ Agree s t

section Top
variable {M : Machine} {p : Params} {c c' : Cpu} {s : RV32I} {t : Top p} {i : Insn} {e : Ending}
  {n : ℕ}

theorem Hosts.config (hm : Hosts M p) (h : Models M false c s) : Config p s where
  memBase := by rw [h.memBase, hm.lo, Nat.cast_zero]
  trapOnEcall := h.trapOnEcall
  tohostAddr := by rw [h.tohostAddr, hm.tohost]

theorem pc_eq (h : Models M false c s) (ha : Agree s t) : t.pc = c.pc := by
  apply BitVec.eq_of_toNat_eq
  have hp := h.holds.pc
  rw [ha.pc] at hp
  exact_mod_cast hp

theorem xregs_eq (h : Models M false c s) (ha : Agree s t) : t.xregs.get = c.x := by
  funext r
  by_cases hr : r = 0#5
  · rw [hr, XRegs.get_zero, c.zero]
  · apply BitVec.eq_of_toNat_eq
    have hx := h.holds.regs r hr
    rw [ha.regs r hr] at hx
    exact_mod_cast hx

theorem Hosts.decodes (hm : Hosts M p) (h : Models M false c s) (ha : Agree s t)
    (hf : M.code c.pc = some i) : Decodes t.inst i := by
  apply decodes_of_decode
  change decode (instrMemory p t.pc) = _
  rw [pc_eq h ha]
  exact hm.code _ _ hf

/-- What the machine permits is in order for the data memory. -/
theorem Hosts.accessOk (hm : Hosts M p) (hp : M.Permits c i) : AccessOk p c.x i := by
  intro a n ha
  have hn := access_size ha
  have hin := (hp.inside a n ha).2
  rw [hm.hi] at hin
  exact ⟨hp.aligned a n ha, by omega⟩

/-- `top` executes in one cycle what the machine executes, and does not halt in it. -/
theorem Carries.step (hm : Hosts M p) (h : Carries M c t) (hs : M.Step c c') :
    t.haltNow = false ∧ Carries M c' t.clock := by
  obtain ⟨s, hs', ha⟩ := h.beside
  cases hs with
  | @exec i hf he hb hp =>
    have hd := hm.decodes hs' ha hf
    have hx := xregs_eq hs' ha
    have hok : AccessOk p t.xregs.get i := by
      rw [hx]
      exact hm.accessOk hp
    obtain ⟨hmis, hto⟩ := quiet_of_accessOk hm.mmio h.running hd hok
    have hcause : t.haltCause = .none := by
      simp [haltCause_of_decodes h.running hd, hmis, hto, he, hb]
    have hn : t.haltNow = false := by simp [Top.haltNow, hcause]
    have hagree := ha.apply (hm.config hs') hm.mmio h.running hd hok
    rw [pc_eq hs' ha, hx, hs'.effect_eq hp] at hagree
    refine ⟨hn, ?_, _, hs'.apply hp, agree_clock h.running hagree⟩
    rw [Top.clock_of_running h.running]
    exact hn

/-- One cycle of `top` in which it does not halt. -/
def Ticks {p : Params} (t u : Top p) : Prop := t.haltNow = false ∧ u = t.clock

theorem top_simulates (hm : Hosts M p) :
    Simulates M.Step (Ticks (p := p)) (fun c t => Carries M c t) 1 := by
  intro c c' t hs h
  obtain ⟨hn, h'⟩ := h.step hm hs
  exact ⟨1, t.clock, Nat.one_pos, le_rfl, .one ⟨hn, rfl⟩, h'⟩

theorem ticks_run {u : Top p} (h : Steps Ticks n t u) :
    u = run Top.clock t n ∧ ∀ k < n, (run Top.clock t k).haltNow = false := by
  induction n generalizing u with
  | zero =>
    cases h
    exact ⟨rfl, fun k hk => (Nat.not_lt_zero k hk).elim⟩
  | succ n ih =>
    obtain ⟨v, hv, hu⟩ := h.split (m := n) (n := 1)
    obtain ⟨rfl, hlt⟩ := ih hv
    cases hu with
    | head hd ht =>
      cases ht
      refine ⟨hd.2, fun k hk => ?_⟩
      rcases Nat.lt_succ_iff_lt_or_eq.mp hk with hk | rfl
      · exact hlt k hk
      · exact hd.1

/-- The halt cause of an end. -/
def haltCause : Ending → HaltCause
  | .ecall => .ecall
  | .ebreak => .ebreak
  | .tohost _ => .tohost

theorem Carries.ends (hm : Hosts M p) (h : Carries M c t) (he : M.Ends c e) :
    t.haltCause = haltCause e ∧ ∀ v, e = .tohost v → t.tohostData = v := by
  obtain ⟨s, hs, ha⟩ := h.beside
  cases he with
  | ecall hf =>
    have hd := hm.decodes hs ha hf
    obtain ⟨hmis, -⟩ := quiet_of_no_access hd rfl
    exact ⟨by simp [haltCause_of_decodes h.running hd, hmis, haltCause], by rintro v ⟨⟩⟩
  | ebreak hf =>
    have hd := hm.decodes hs ha hf
    obtain ⟨hmis, -⟩ := quiet_of_no_access hd rfl
    exact ⟨by simp [haltCause_of_decodes h.running hd, hmis, haltCause], by rintro v ⟨⟩⟩
  | @tohost i a v k hf hst ht =>
    have hd := hm.decodes hs ha hf
    cases i with
    | store k' rs1 rs2 imm =>
      cases hst
      have hin := dmemIn_store h.running hd
      have hx := xregs_eq hs ha
      have haddr : t.xregs.get rs1 + imm = p.tohostAddr := by
        apply BitVec.eq_of_toNat_eq
        rw [hx, ← hm.tohost, ht]
      have hto : t.dmemIn.tohostWe p = true := by
        simp [DMemIn.tohostWe, DMemIn.isTohost, hin, haddr]
      have hmis : t.dmemMisaligned = false := DMemIn.tohostWe_not_misaligned p _ hto
      constructor
      · simp [haltCause_of_decodes h.running hd, hmis, Top.tohostWe, hto, haltCause]
      · rintro _ ⟨⟩
        rw [Top.tohostData, hin, hx]
    | _ => cases hst

theorem Carries.state (hm : Hosts M p) (h : Carries M c t) :
    t.xregs.get = c.x ∧ ∀ a : Word, a.toNat < M.hi → byteOf t.dmem a = c.mem a := by
  obtain ⟨s, hs, ha⟩ := h.beside
  refine ⟨xregs_eq hs ha, fun a hl => ?_⟩
  have hlt : a.toNat < 4 * 2 ^ p.dmemIdxW := by rwa [← hm.hi]
  rw [← byte_eq_byteOf (hm.config hs) ha.mem hlt]
  exact hs.mem a (by rw [hm.lo]; exact Nat.zero_le _) hl

end Top

section Cores
variable {M : Machine} {p : Params} {d : DMem p.dmemIdxW} {c c' : Cpu} {e : Ending} {n : ℕ}

/-- Where `top` first halts, it has the state in which the machine's run ends. -/
theorem top_finishes (hm : Hosts M p) (h : Carries M c (Top.reset p d))
    (hr : Steps M.Step n c c') (he : M.Ends c' e) :
    HaltsAt p d n ∧ Carries M c' (program p d n) := by
  obtain ⟨u, hu, hc⟩ := (top_simulates hm).exact hr h
  obtain ⟨rfl, hlt⟩ := ticks_run hu
  have hrun : ∀ m ≤ n, run Top.clock (Top.reset p d) m = program p d m := by
    intro m hmn
    induction m with
    | zero => rfl
    | succ m ih =>
      have hm' := ih (by omega)
      have hn := hlt m (by omega)
      rw [run_succ, hm'] at *
      rw [Top.clock_of_not_halted (program_execution.running m) hn]
      exact (program_execution.step m).symm
  rw [hrun n le_rfl] at hc
  have hcause := (hc.ends hm he).1
  have hne : haltCause e ≠ .none := by cases e <;> simp [haltCause]
  refine ⟨⟨by simp [Top.haltNow, hcause, hne], fun j hj => ?_⟩, hc⟩
  rw [← hrun j (by omega)]
  exact hlt j hj

/-- What the pipeline shows of a run of `n` instructions that ends in `c` by `e`: it first raises
`halted` in cycle `m`, by the cycle law and in less than two cycles an instruction, and from then
on it holds the registers and the memory of `c`. -/
structure PipelineFinishes (M : Machine) (p : Params) (d : DMem p.dmemIdxW) (c : Cpu) (e : Ending)
    (n m : ℕ) : Prop where
  first : FirstAt TopPipeline.clock (fun s => s.halted = true) (TopPipeline.reset p d) m
  cycles : m = (n + 1) + tally (takenAt (run Top.clock (Top.reset p d))) (n + 1) +
    tally (stallsAt (run Top.clock (Top.reset p d))) (n + 1) + 3
  bound : n + 4 ≤ m ∧ m ≤ 2 * n + 4
  cause : (run TopPipeline.clock (TopPipeline.reset p d) m).haltCause = haltCause e
  tohost : ∀ v, e = .tohost v → ∀ j,
    (run TopPipeline.clock (TopPipeline.reset p d) (m + j)).tohostValue = v
  regs : ∀ j, (run TopPipeline.clock (TopPipeline.reset p d) (m + j)).xregs.get = c.x
  mem : ∀ j, ∀ a : Word, a.toNat < M.hi →
    byteOf (run TopPipeline.clock (TopPipeline.reset p d) (m + j)).dmem a = c.mem a

/-- The same for `top`, which halts in cycle `n`. -/
structure TopFinishes (M : Machine) (p : Params) (d : DMem p.dmemIdxW) (c : Cpu) (e : Ending)
    (n : ℕ) : Prop where
  first : FirstAt Top.clock (fun s => s.halted = true) (Top.reset p d) n
  cause : (run Top.clock (Top.reset p d) n).haltCause = haltCause e
  tohost : ∀ v, e = .tohost v → (run Top.clock (Top.reset p d) n).tohostData = v
  regs : ∀ j, (run Top.clock (Top.reset p d) (n + j)).xregs.get = c.x
  mem : ∀ j, ∀ a : Word, a.toNat < M.hi →
    byteOf (run Top.clock (Top.reset p d) (n + j)).dmem a = c.mem a

theorem not_misalignedLoad (hm : Hosts M p) (he : M.Ends c' e)
    (hc : Carries M c' (program p d n)) : ¬ (program p d n).misalignedLoad := by
  rintro ⟨-, hl⟩
  rw [(hc.ends hm he).1] at hl
  cases e <;> cases hl

theorem topFinishes (hm : Hosts M p) (h : Carries M c (Top.reset p d))
    (hr : Steps M.Step n c c') (he : M.Ends c' e) : TopFinishes M p d c' e n := by
  obtain ⟨hn, hc⟩ := top_finishes hm h hr he
  have hrun : run Top.clock (Top.reset p d) n = program p d n := top_run_eq hn.2
  obtain ⟨hx, hmem⟩ := hc.state hm
  obtain ⟨hcause, hdata⟩ := hc.ends hm he
  constructor
  · exact firstAt_top_iff.mpr hn
  · rw [hrun, hcause]
  · intro v hv
    rw [hrun]
    exact hdata v hv
  · intro j
    rw [top_xregs_of_haltsAt hn (not_misalignedLoad hm he hc), hx]
  · intro j a hl
    rw [top_dmem_of_haltsAt hn]
    exact hmem a hl

/-- The cycle law, in terms of the run of `top`. -/
theorem cycles_of_haltsAt (hn : HaltsAt p d n) : leaveId (program p d) n + 3 =
    (n + 1) + tally (takenAt (run Top.clock (Top.reset p d))) (n + 1) +
      tally (stallsAt (run Top.clock (Top.reset p d))) (n + 1) + 3 := by
  rw [tally_top_run hn takenAt (fun t u j h => by rw [takenAt, takenAt, h j le_rfl]),
    tally_top_run hn stallsAt
      (fun t u j h => by rw [stallsAt, stallsAt, h j le_rfl, h (j - 1) (Nat.sub_le j 1)]),
    ← leaveId_of_haltsAt hn]

theorem pipelineFinishes (hm : Hosts M p) (h : Carries M c (Top.reset p d))
    (hr : Steps M.Step n c c') (he : M.Ends c' e) : ∃ m, PipelineFinishes M p d c' e n m := by
  obtain ⟨hn, hc⟩ := top_finishes hm h hr he
  have hrun : run Top.clock (Top.reset p d) n = program p d n := top_run_eq hn.2
  obtain ⟨hx, hmem⟩ := hc.state hm
  obtain ⟨hcause, hdata⟩ := hc.ends hm he
  have hmis := not_misalignedLoad hm he hc
  obtain ⟨-, hh, -⟩ := halted_of_haltsAt hn
  have ha := agreeHalted hn
  have hpc : (run TopPipeline.clock (TopPipeline.reset p d)
      (leaveId (program p d) n + 3)).haltCause = haltCause e := by rw [ha.haltCause, hrun, hcause]
  refine ⟨leaveId (program p d) n + 3, firstAt_pipeline_iff.mpr ⟨n, hn, rfl⟩, cycles_of_haltsAt hn,
    ?_, hpc, ?_, ?_, ?_⟩
  · have hlo := le_leaveId (program p d) n
    have hhi := leaveId_le (program p d) n
    omega
  · rintro v rfl j
    obtain ⟨k, hk, hwe, hv⟩ := tohostValue_of_halted hh hpc
    obtain rfl := hk.unique hn
    rw [run_add]
    exact (sameHalt_run hh j).tohostValue.trans (hv.trans (hdata v rfl))
  · intro j
    rw [ha.xregs (by rwa [hrun]) j 0, top_xregs_of_haltsAt hn hmis, hx]
  · intro j a hl
    rw [ha.dmem j 0, top_dmem_of_haltsAt hn]
    exact hmem a hl

end Cores
end RiscForge.System
