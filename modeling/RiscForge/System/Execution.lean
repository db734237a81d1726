import RiscForge.System.Harness

/-! An accepted program as a whole, on the emulator and on both cores. -/
namespace RiscForge.System

open Lib Rtl Refmodel Isa Assembler Benchmarks

section Execution
variable {py : Python} {source : String} {words : List ℤ} {p : Params} {c : Cpu} {e : Ending}
  {n : ℕ}

/-- The program in the data memory of the core. -/
def programOf (py : Python) (source : String) (p : Params) : Program :=
  .of py source (4 * 2 ^ p.dmemIdxW) p.tohostAddr.toNat

/-- The machine that the core and the emulator beside it are for this program. -/
def loadedMachine (h : Loaded p words (programCode (programOf py source p).lines)) : Machine :=
  coreMachine words (programCode (programOf py source p).lines) h

theorem dataSize_le (h : p.dmemIdxW ≤ 30) : 4 * 2 ^ p.dmemIdxW ≤ 2 ^ 32 :=
  calc 4 * 2 ^ p.dmemIdxW ≤ 4 * 2 ^ 30 := Nat.mul_le_mul_left 4 (Nat.pow_le_pow_right Nat.two_pos h)
    _ = 2 ^ 32 := rfl

/-- The emulator returns from `run` in the state `c` by the end `e`, the limit allowing `n` steps
before the last one. -/
def EmulatorFinishes (M : Machine) (words : List ℤ) (memSize tohost : ℕ) (c : Cpu) (e : Ending)
    (n : ℕ) : Prop :=
  ∀ maxSteps : ℤ, n < maxSteps → ∃ s,
    loadAndRun maxSteps words (.init memSize 0 tohost false) = .ok (.reason (haltReason e)) s ∧
      Halted M c e s ∧ s.steps = n + 1

/-- An accepted program runs on the emulator and on both cores as its lines say: where the run of
the lines ends, they all halt, for the same reason and with the same registers and memory, after the
same instructions, which are one or two for each line. -/
theorem program_executes (ha : assemble py source 0 none = .ok words)
    (hl : Loaded p words (programCode (programOf py source p).lines)) (hd : p.dmemIdxW ≤ 30)
    (hr : Steps (programOf py source p).Step n (imageCpu words) c)
    (he : (programOf py source p).Ends c e) :
    ∃ m k, n ≤ m ∧ m ≤ 2 * n ∧
      EmulatorFinishes (loadedMachine hl) words (4 * 2 ^ p.dmemIdxW) p.tohostAddr.toNat c e m ∧
      TopFinishes (loadedMachine hl) p (loadMem p.dmemIdxW words) c e m ∧
      PipelineFinishes (loadedMachine hl) p (loadMem p.dmemIdxW words) c e m k := by
  obtain ⟨m, hm, hm', hrun, hend⟩ := machine_run ha hl.fits (dataSize_le hd) hr he
  have hhosts := hosts hl
  have hcarries := carries_reset hl
  obtain ⟨k, hk⟩ := pipelineFinishes hhosts hcarries hrun hend
  refine ⟨m, k, hm, hm', ?_, topFinishes hhosts hcarries hrun hend, hk⟩
  intro maxSteps hlt
  obtain ⟨s, hs, hh, hsteps⟩ := (models_loadedCpu hl.fits).run hrun hend stops_false
    (by rwa [steps_loadedCpu, Nat.cast_zero, zero_add])
  refine ⟨s, ?_, hh, by rw [hsteps, steps_loadedCpu, zero_add]⟩
  exact (loadAndRun_eq hl.fits maxSteps).trans hs

theorem program_executes_MATVEC : ∃ (c : Cpu) (m k : ℕ), c.x 10#5 = 6#32 ∧ c.x 11#5 = 15#32 ∧
    c.x 13#5 = 24#32 ∧ 180 ≤ m ∧ m ≤ 2 * 180 ∧
      EmulatorFinishes (loadedMachine (loaded_core fits_MATVEC)) (wordsOf MATVEC) (4 * 2 ^ 12)
        0x80001000 c .ecall m ∧
      TopFinishes (loadedMachine (loaded_core fits_MATVEC)) (core (wordsOf MATVEC))
        (loadMem 12 (wordsOf MATVEC)) c .ecall m ∧
      PipelineFinishes (loadedMachine (loaded_core fits_MATVEC)) (core (wordsOf MATVEC))
        (loadMem 12 (wordsOf MATVEC)) c .ecall m k := by
  obtain ⟨c, hc, he, h10, h11, h13⟩ := run_MATVEC (4 * 2 ^ 12) 0x80001000
    (by decide) (by decide) (by decide)
  obtain ⟨m, k, h⟩ := program_executes (p := core (wordsOf MATVEC)) shown_MATVEC.assembled
    (loaded_core fits_MATVEC) (by decide) hc he
  exact ⟨c, m, k, h10, h11, h13, h⟩

/-- What is shown of the lines of a program holds of the emulator and of `top`, also if the program
never ends: where the lines lead, the instructions lead in at most twice as many steps. -/
theorem leads_executes {Q : Cpu → Prop} (ha : assemble py source 0 none = .ok words)
    (hl : Loaded p words (programCode (programOf py source p).lines)) (hd : p.dmemIdxW ≤ 30)
    (h : Leads (programOf py source p).Step n (fun c => c = imageCpu words) Q) :
    ∃ m ≤ 2 * n, ∃ c, Q c ∧
      (∃ s, Steps Next m (loadedCpu words (4 * 2 ^ p.dmemIdxW) p.tohostAddr.toNat) s ∧
        Models (loadedMachine hl) false c s) ∧
      ∃ t, Steps Ticks m (Top.reset p (loadMem p.dmemIdxW words)) t ∧
        Carries (loadedMachine hl) c t := by
  obtain ⟨k, hk, c, hs, hq⟩ := h _ rfl
  have hc : Compiled (programOf py source p) (loadedMachine hl) :=
    compiled ha hl.fits (dataSize_le hd)
  obtain ⟨m, d, -, hm, hs', rfl⟩ := hc.simulates.steps hs rfl
  refine ⟨m, by omega, _, hq, ?_, ?_⟩
  · exact (emulator_simulates _ _).exact hs' (models_loadedCpu hl.fits)
  · exact (top_simulates (hosts hl)).exact hs' (carries_reset hl)

theorem leads_executes_MATVEC : ∃ m ≤ 2 * 180, ∃ c : Cpu, c.x 10#5 = 6#32 ∧
    (∃ s, Steps Next m (loadedCpu (wordsOf MATVEC) (4 * 2 ^ 12) 0x80001000) s ∧
      Models (loadedMachine (loaded_core fits_MATVEC)) false c s) ∧
    ∃ t, Steps Ticks m (Top.reset (core (wordsOf MATVEC)) (loadMem 12 (wordsOf MATVEC))) t ∧
      Carries (loadedMachine (loaded_core fits_MATVEC)) c t := by
  refine leads_executes (p := core (wordsOf MATVEC)) (Q := fun c => c.x 10#5 = 6#32)
    shown_MATVEC.assembled (loaded_core fits_MATVEC) (by decide) (.of_steps ?_)
  rintro s rfl
  obtain ⟨c, hc, -, h10, -, -⟩ := run_MATVEC (4 * 2 ^ 12) 0x80001000
    (by decide) (by decide) (by decide)
  exact ⟨c, hc, h10⟩

end Execution
end RiscForge.System
