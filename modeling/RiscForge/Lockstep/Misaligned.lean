import RiscForge.Lockstep.Step
import RiscForge.Rtl.Refinement

/-! What the two cores and the emulator leave behind a misaligned access. -/
namespace RiscForge.Lockstep

open Lib Rtl Isa Refmodel

section Access
variable {p : Params} {t : Top p} {i : Insn} {a : Word} {n : ℕ}

/-- The instruction accesses `n` bytes at `a`, which is no multiple of `n` and not MMIO. -/
structure MisalignedAccess (t : Top p) (i : Insn) (a : Word) (n : ℕ) : Prop where
  decodes : Decodes t.inst i
  access : i.access t.xregs.get = some (a, n)
  misaligned : a.toNat % n ≠ 0
  tohost : a ≠ p.tohostAddr
  uart : a ≠ p.uartAddr

theorem MisalignedAccess.dmemMisaligned (h : MisalignedAccess t i a n) (hq : t.haltedQ = false) :
    t.dmemMisaligned = true ∧ t.dmemIn.isMmio p = false := by
  have hd := h.decodes
  have ha := h.access
  have hmmio : t.dmemIn.addr = a → t.dmemIn.isMmio p = false := by
    intro he
    simp [DMemIn.isMmio, DMemIn.isTohost, DMemIn.isUart, he, h.tohost, h.uart]
  cases i with
  | load k rd rs1 imm =>
    cases ha
    have hm := hmmio (by rw [dmemIn_load hd])
    exact ⟨(dmemMisaligned_load hd hm).mpr h.misaligned, hm⟩
  | store k rs1 rs2 imm =>
    cases ha
    have hm := hmmio (by rw [dmemIn_store hq hd])
    exact ⟨(dmemMisaligned_store hq hd hm).mpr h.misaligned, hm⟩
  | _ => cases ha

/-- The destination of a load is `x0`, or already holds what the load would read at its address
rounded down. -/
def KeepsDestination (x : BitVec 5 → Word) (m : Word → BitVec 8) : Insn → Prop
  | .load k rd rs1 imm =>
    rd = 0#5 ∨ x rd = Isa.loadValue m (alignDown (x rs1 + imm) (loadSize k)) k
  | _ => True

theorem writePort_eq_self_iff (xregs : XRegs) (rd : BitVec 5) (v : Word) :
    writePort xregs true rd v = xregs ↔ rd = 0#5 ∨ xregs.get rd = v := by
  by_cases hr : rd = 0#5
  · simp [hr, writePort_of_not]
  · constructor
    · intro h
      right
      have hv := writePort_get xregs rd rd v hr
      rw [h, if_pos rfl] at hv
      exact hv
    · rintro (h | h)
      · exact (hr h).elim
      · apply XRegs.ext_get
        intro r
        by_cases hz : r = 0#5
        · rw [hz, XRegs.get_zero, XRegs.get_zero]
        · rw [writePort_get _ _ _ _ hz]
          split
          case isTrue he => rw [he, h]
          case isFalse => rfl

/-- `top` commits the load all the same: its write enable looks at `halted_q` only. -/
theorem next_xregs_iff (h : MisalignedAccess t i a n) (hq : t.haltedQ = false) :
    t.next.xregs = t.xregs ↔ KeepsDestination t.xregs.get (byteOf t.dmem) i := by
  obtain ⟨-, hm⟩ := h.dmemMisaligned hq
  have hd := h.decodes
  have ha := h.access
  cases i with
  | load k rd rs1 imm =>
    rw [xregs_of_load hd hm, writePort_eq_self_iff]
    rfl
  | store k rs1 rs2 imm =>
    have hx : t.next.xregs = t.xregs := xregs_of_decodes hd (by intro _ _ _ _ hl; cases hl)
    exact iff_of_true hx trivial
  | _ => cases ha

/-- The emulator raises, and keeps its state. -/
theorem step_of_misaligned (h : MisalignedAccess t i a n) {s : RV32I} (hh : s.halted = false)
    (hs : Holds s t.pc t.xregs.get) (hf : Fetches s t.pc t.inst)
    (hto : s.tohostAddr = p.tohostAddr.toNat) :
    ∃ trap, step s = .error (.trap trap) s ∧
      (trap.kind = .misalignedLoad ∨ trap.kind = .misalignedStore) := by
  have hd := decode_of_decodes h.decodes
  have ha := h.access
  cases i with
  | load k rd rs1 imm =>
    cases ha
    obtain ⟨d, hr⟩ := step_misaligned_load hh hs hf hd h.misaligned
    exact ⟨_, hr, Or.inl rfl⟩
  | store k rs1 rs2 imm =>
    cases ha
    have hne : ((t.xregs.get rs1 + imm).toNat : ℤ) ≠ s.tohostAddr := by
      rw [hto, Ne, Nat.cast_inj, BitVec.toNat_inj]
      exact h.tohost
    obtain ⟨d, hr⟩ := step_misaligned_store hh hs hf hd hne h.misaligned
    exact ⟨_, hr, Or.inr rfl⟩
  | _ => cases ha

end Access

section Run
variable {p : Params} {d : DMem p.dmemIdxW} {i : Insn} {a : Word} {k n : ℕ}

/-- As long as the halt register is low, no instruction has halted. -/
theorem running_of_haltedQ (h : (run Top.clock (Top.reset p d) k).haltedQ = false) :
    ∀ j < k, (program p d j).haltNow = false := by
  intro j
  induction j using Nat.strong_induction_on with
  | _ j ih =>
    intro hj
    by_contra hn
    rw [top_run_halted (fun m hm => ih m hm (by omega)) (by simpa using hn) hj] at h
    cases h

/-- Instruction `k` of the program leaves the registers and the data memory of a halted core as
they were before it. -/
structure CommitsNothing (u : TopPipeline p) (v : Top p) (k : ℕ) : Prop where
  cause : (run Top.clock v k).haltCause = .misaligned
  xregs : ∀ j, (run Top.clock v (k + j)).xregs = (run Top.clock v k).xregs
  dmem : ∀ j, (run Top.clock v (k + j)).dmem = (run Top.clock v k).dmem
  pipeline : ∃ m, FirstAt TopPipeline.clock (fun s => s.halted = true) u m ∧
    (run TopPipeline.clock u m).haltCause = .misaligned ∧
    ∀ j, (run TopPipeline.clock u (m + j)).xregs = (run Top.clock v k).xregs ∧
      (run TopPipeline.clock u (m + j)).dmem = (run Top.clock v k).dmem
  emulator : ∀ s : RV32I, s.halted = false → s.tohostAddr = p.tohostAddr.toNat →
    Holds s (run Top.clock v k).pc (run Top.clock v k).xregs.get →
    Fetches s (run Top.clock v k).pc (run Top.clock v k).inst →
    ∃ trap, step s = .error (.trap trap) s ∧
      (trap.kind = .misalignedLoad ∨ trap.kind = .misalignedStore)

/-- The pipeline halts on the access with everything older committed and nothing else. -/
theorem pipeline_of_haltsAt (h : HaltsAt p d k) :
    ∃ m, FirstAt TopPipeline.clock (fun s => s.halted = true) (TopPipeline.reset p d) m ∧
      (run TopPipeline.clock (TopPipeline.reset p d) m).haltCause = (program p d k).haltCause ∧
      ∀ j, (run TopPipeline.clock (TopPipeline.reset p d) (m + j)).xregs = (program p d k).xregs ∧
        (run TopPipeline.clock (TopPipeline.reset p d) (m + j)).dmem = (program p d k).dmem := by
  obtain ⟨hc, hx, hd⟩ := state_of_haltsAt h
  obtain ⟨_, hh, _⟩ := halted_of_haltsAt h
  refine ⟨_, firstAt_pipeline_iff.mpr ⟨k, h, rfl⟩, hc, fun j => ?_⟩
  have hs := sameHalt_run hh j
  rw [run_add]
  exact ⟨hs.xregs.trans hx, hs.dmem.trans hd⟩

theorem top_xregs_kept_iff (h : HaltsAt p d k) :
    (∀ j, (run Top.clock (Top.reset p d) (k + j)).xregs = (program p d k).xregs) ↔
      (program p d k).next.xregs = (program p d k).xregs := by
  have hlater : ∀ j, (run Top.clock (Top.reset p d) (k + (j + 1))).xregs =
      (program p d k).next.xregs := by
    intro j
    rw [top_run_halted h.2 h.1 (by omega), ← program_execution.step k]
  constructor
  · intro hall
    rw [← hlater 0]
    exact hall 1
  · intro hnext j
    cases j with
    | zero => rw [Nat.add_zero, top_run_eq h.2]
    | succ j => rw [hlater j, hnext]

/-- A misaligned access commits nothing, in either core and in the emulator, exactly if it is no
load into a register that holds another value. -/
theorem commitsNothing_iff (u : TopPipeline p) (v : Top p) (hd : u.dmem = v.dmem)
    (hq : (run Top.clock (v.edge true) k).haltedQ = false)
    (h : MisalignedAccess (run Top.clock (v.edge true) k) i a n) :
    CommitsNothing (u.edge true) (v.edge true) k ↔
      KeepsDestination (run Top.clock (v.edge true) k).xregs.get
        (byteOf (run Top.clock (v.edge true) k).dmem) i := by
  rw [u.edge_rst, v.edge_rst, hd] at *
  have hrun := running_of_haltedQ hq
  have hk := top_run_eq hrun
  have hcause := (haltCause_of_misaligned hq h.decodes (h.dmemMisaligned hq).1).1
  have hiff := next_xregs_iff h hq
  have hemu := @step_of_misaligned _ _ _ _ _ h
  rw [hk] at hcause hiff hemu
  have hhalt : HaltsAt p v.dmem k := ⟨by simp [Top.haltNow, hcause], hrun⟩
  rw [hk, ← hiff, ← top_xregs_kept_iff hhalt]
  constructor
  · intro hc j
    rw [hc.xregs, hk]
  · intro hx
    obtain ⟨m, hm, hmc, hkept⟩ := pipeline_of_haltsAt hhalt
    rw [hcause] at hmc
    constructor
    · rw [hk, hcause]
    · intro j
      rw [hx, hk]
    · intro j
      rw [top_dmem_of_haltsAt hhalt, hk]
    · refine ⟨m, hm, hmc, ?_⟩
      rw [hk]
      exact hkept
    · rw [hk]
      exact fun s hh hto hs hf => hemu hh hs hf hto

/-- `lw x1, 1(x0)`. -/
def misalignedCore : Params := .ofImage 2 [0x00102083#32]

theorem misalignedCore_access : MisalignedAccess
    (run Top.clock ((Top.reset misalignedCore fun _ => 7#32).edge true) 0)
    (.load .lw 1 0 1) 1 4 :=
  ⟨decodes_of_decode (by decide), by decide, by decide, by decide, by decide⟩

theorem commitsNothing_iff_misalignedCore :
    CommitsNothing ((TopPipeline.reset misalignedCore fun _ => 7#32).edge true)
        ((Top.reset misalignedCore fun _ => 7#32).edge true) 0 ↔
      KeepsDestination (run Top.clock ((Top.reset misalignedCore fun _ => 7#32).edge true) 0).xregs.get
        (byteOf (run Top.clock ((Top.reset misalignedCore fun _ => 7#32).edge true) 0).dmem)
        (.load .lw 1 0 1) :=
  commitsNothing_iff (TopPipeline.reset misalignedCore fun _ => 7#32)
    (Top.reset misalignedCore fun _ => 7#32) rfl (by decide) misalignedCore_access

/-- The load of that program halts `top`, which still writes `x1`. -/
theorem misaligned_load_commits :
    ∃ (p : Params) (u : TopPipeline p) (v : Top p) (k : ℕ) (i : Insn) (a : Word) (n : ℕ),
      u.dmem = v.dmem ∧ (run Top.clock (v.edge true) k).haltedQ = false ∧
        MisalignedAccess (run Top.clock (v.edge true) k) i a n ∧
        ¬ CommitsNothing (u.edge true) (v.edge true) k := by
  refine ⟨misalignedCore, TopPipeline.reset misalignedCore fun _ => 7#32,
    Top.reset misalignedCore fun _ => 7#32, 0, .load .lw 1 0 1, 1, 4, rfl, by decide,
    misalignedCore_access, ?_⟩
  intro h
  have hx := congrFun (h.xregs 1) ⟨1#5, by decide⟩
  revert hx
  decide

end Run
end RiscForge.Lockstep
