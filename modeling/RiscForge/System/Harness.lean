import RiscForge.Benchmarks.Texts

/-! The testbenches that run a program on the emulator and on the pipeline and compare the two. -/
namespace RiscForge.System

open Lib Rtl Refmodel Isa Lockstep Assembler Benchmarks

section Emu

/-- The words at 0, and the run. -/
def loadAndRun (maxSteps : ℤ) (words : List ℤ) : Emu RunResult := do
  loadProgram (words.flatMap wordBytes) (some 0)
  Refmodel.run maxSteps

/-- `_emu`, with 64 KiB and the default `tohost`. -/
def emu (maxSteps : ℤ) (words : List ℤ) : EStateM.Result Refmodel.Raised RV32I RunResult :=
  loadAndRun maxSteps words (.init (64 * 1024) 0 0x80001000 false)

theorem loadAndRun_eq {words : List ℤ} {memSize tohost : ℕ} (h : 4 * words.length ≤ memSize)
    (maxSteps : ℤ) : loadAndRun maxSteps words (.init memSize 0 tohost false) =
      Refmodel.run maxSteps (loadedCpu words memSize tohost) := by
  change EStateM.bind _ _ _ = _
  simp only [EStateM.bind, loadProgram_loadedCpu h]

end Emu

section Rtl
variable (words : List ℤ)

/-- The core of the testbenches, with the words in its instruction memory. -/
def core : Params where
  pcReset := 0x00000000#32
  imemIdxW := 10
  dmemIdxW := 12
  tohostAddr := 0x80001000#32
  uartAddr := 0xFFFF0000#32
  imem := loadMem 10 words

/-- `_load` and `_reset`, whatever state the core is found in. -/
def boot (s : TopPipeline (core words)) : TopPipeline (core words) :=
  (({ s with dmem := loadMem (core words).dmemIdxW words } : TopPipeline (core words)).edge
    true).edge true

/-- The first of the next so many states in which the core is halted, and the cycles until then. -/
def awaitHalt {σ : Type} (clock : σ → σ) (halted : σ → Bool) : ℕ → ℕ → σ → Option (ℕ × σ)
  | 0, _, _ => none
  | rounds + 1, cycles, s =>
    let s := clock s
    if halted s then some (cycles + 1, s) else awaitHalt clock halted rounds (cycles + 1) s

/-- `_rtl_reg`. -/
def rtlReg (xregs : XRegs) (i : ℕ) : ℤ := if i = 0 then 0 else (xregs.get (.ofNat 5 i)).toNat

/-- The registers in which the core and the emulator differ. -/
def mismatches (xregs : XRegs) (cpu : RV32I) : List (ℕ × ℤ × ℤ) :=
  (List.range 32).filterMap fun i =>
    let r := rtlReg xregs i
    let e := cpu.regs (.ofNat 5 i) &&& 0xFFFFFFFF
    if r = e then none else some (i, r, e)

end Rtl

/-- Why a check fails. -/
inductive Failure
  | assembler (e : Assembler.Raised)
  | nothing
  | raised (e : Refmodel.Raised)
  | emulator (r : RunResult)
  | unexpected (r : ℕ)
  | noHalt
  | cause (c : HaltCause)
  | mismatch (regs : List (ℕ × ℤ × ℤ))

section Checks
variable (py : Python) (src : String) (expect : List (ℕ × ℤ))

/-- The comparison with a core whose halt was waited for. -/
def compare {σ : Type} (haltCause : σ → HaltCause) (xregs : σ → XRegs) (cpu : RV32I) :
    Option (ℕ × σ) → Except Failure ℕ
  | none => throw .noHalt
  | some (cycles, t) => do
    if haltCause t ≠ .ecall then throw (.cause (haltCause t))
    let mism := mismatches (xregs t) cpu
    if mism ≠ [] then throw (.mismatch mism)
    return cycles

/-- What a test does with the run of the emulator; it comes to the emulator and the cycles of the
core. -/
def judge {σ : Type} (haltCause : σ → HaltCause) (xregs : σ → XRegs) (halted : Option (ℕ × σ)) :
    EStateM.Result Refmodel.Raised RV32I RunResult → Except Failure (RV32I × ℕ)
  | .error e _ => .error (.raised e)
  | .ok reason cpu => do
    if reason ≠ .reason .ecall then throw (.emulator reason)
    if let some (r, _) := expect.find? fun (r, v) => cpu.regs (.ofNat 5 r) ≠ v then
      throw (.unexpected r)
    let cycles ← compare haltCause xregs cpu halted
    return (cpu, cycles)

/-- The part that `lockstep` of `tb/pipeline` and `measure` share. -/
def crossCheck (maxSteps : ℤ) (maxCycles : ℕ) (words : List ℤ) (s : TopPipeline (core words)) :
    Except Failure (RV32I × ℕ) :=
  judge expect TopPipeline.haltCause TopPipeline.xregs
    (awaitHalt TopPipeline.clock TopPipeline.halted maxCycles 0 (boot words s)) (emu maxSteps words)

theorem judge_eq_ok {σ : Type} {haltCause : σ → HaltCause} {xregs : σ → XRegs} {cycles : ℕ} {t : σ}
    {cpu : RV32I} (hexp : ∀ rv ∈ expect, cpu.regs (.ofNat 5 rv.1) = rv.2)
    (hcause : haltCause t = .ecall) (hmism : mismatches (xregs t) cpu = []) :
    judge expect haltCause xregs (some (cycles, t)) (.ok (.reason .ecall) cpu) =
      .ok (cpu, cycles) := by
  have hfind : expect.find? (fun (r, v) => cpu.regs (.ofNat 5 r) ≠ v) = none := by
    rw [List.find?_eq_none]
    intro rv hrv
    simp [hexp rv hrv]
  simp only [judge, compare, hfind, hcause, hmism]
  rfl

theorem judge_cause {σ : Type} {haltCause : σ → HaltCause} {xregs : σ → XRegs} {cycles : ℕ} {t : σ}
    {cpu : RV32I} (hcause : haltCause t ≠ .ecall) :
    judge [] haltCause xregs (some (cycles, t)) (.ok (.reason .ecall) cpu) =
      .error (.cause (haltCause t)) := by
  simp only [judge, compare, if_pos hcause]
  rfl

/-- `lockstep` of `tb/pipeline`, without padding. -/
def lockstep (prior : ∀ p, TopPipeline p) : Except Failure RV32I :=
  match assemble py src 0 none with
  | .error e => .error (.assembler e)
  | .ok words =>
    if words = [] then .error .nothing
    else (crossCheck [] 200000 20000 words (prior _)).map fun r => r.1

/-- `measure` of `tb/cpi`: the instructions and the cycles. -/
def measure (prior : ∀ p, TopPipeline p) : Except Failure (ℕ × ℕ) :=
  match assemble py src 0 none with
  | .error e => .error (.assembler e)
  | .ok words => (crossCheck expect 500000 200000 words (prior _)).map fun r => (r.1.steps, r.2)

end Checks
section Boot
variable {words : List ℤ}

theorem boot_eq (s : TopPipeline (core words)) :
    boot words s = TopPipeline.reset (core words) (loadMem (core words).dmemIdxW words) := by
  rw [boot, TopPipeline.edge_rst, TopPipeline.edge_rst]
  rfl

theorem awaitHalt_of_firstAt {σ : Type} {clock : σ → σ} {halted : σ → Bool} {s : σ}
    {m rounds cycles : ℕ} (h : FirstAt clock (fun s => halted s = true) s m) (h0 : 0 < m)
    (hm : m ≤ rounds) :
    awaitHalt clock halted rounds cycles s = some (cycles + m, Lib.run clock s m) := by
  induction rounds generalizing s m cycles with
  | zero => omega
  | succ rounds ih =>
    obtain ⟨m, rfl⟩ := Nat.exists_eq_succ_of_ne_zero h0.ne'
    rw [awaitHalt]
    cases m with
    | zero => exact if_pos h.1
    | succ m =>
      have hnot : ¬ halted (clock s) = true := h.2 1 (by omega)
      have hstep : ∀ k, Lib.run clock (clock s) k = Lib.run clock s (k + 1) := by
        intro k
        rw [Nat.add_comm, run_add]
        rfl
      have hnext : FirstAt clock (fun s => halted s = true) (clock s) (m + 1) := by
        refine ⟨?_, fun k hk => ?_⟩
        · rw [hstep]
          exact h.1
        · rw [hstep]
          exact h.2 (k + 1) (by omega)
      rw [if_neg hnot, ih hnext (Nat.succ_pos m) (by omega), hstep]
      congr 2
      omega

/-- `top` that is halted before the first sample no longer shows why. -/
theorem await_first {p : Params} {s : Rtl.Top p} {rounds : ℕ} (h0 : 0 < rounds)
    (hr : s.haltedQ = false) (h : s.haltNow = true) :
    awaitHalt Top.clock Top.halted rounds 0 s = some (1, s.clock) ∧ s.clock.haltCause = .none := by
  have hq : s.clock.haltedQ = true := by rw [Top.clock_of_running hr, h]
  have hh : s.clock.halted = true := by simp [Top.halted, hq]
  obtain ⟨rounds, rfl⟩ := Nat.exists_eq_succ_of_ne_zero h0.ne'
  exact ⟨by rw [awaitHalt, if_pos hh], by simp [Top.haltCause, hq]⟩

theorem mmioOutside_core : MmioOutside (core words) where
  tohost := by
    change 4 * 2 ^ 12 ≤ (0x80001000#32).toNat
    decide
  uart := by
    change 4 * 2 ^ 12 ≤ (0xFFFF0000#32).toNat
    decide

theorem loaded_core {P : Program} (h : Fits P words) :
    Loaded (core words) words (programCode P.lines) where
  imem := rfl
  code a ha := by
    obtain ⟨ln, hl, hln, -, -, hlt⟩ := programCode_iff.mp ha
    have hle := h.code ln hl hln
    change a < 4 * 2 ^ 10
    omega
  mmio := mmioOutside_core
  fits := by
    change 4 * words.length ≤ 4 * 2 ^ 12
    have := h.data
    omega
  reset := rfl

theorem mismatches_nil {xregs : XRegs} {cpu : RV32I} {c : Cpu} (hx : xregs.get = c.x)
    (hr : ∀ r, cpu.regs r = ((c.x r).toNat : ℤ)) : mismatches xregs cpu = [] := by
  rw [mismatches, List.filterMap_eq_nil_iff]
  intro i _
  have he : rtlReg xregs i = cpu.regs (.ofNat 5 i) &&& 0xFFFFFFFF := by
    rw [hr, mask_word (Int.natCast_nonneg _) (by exact_mod_cast (c.x _).isLt), rtlReg, hx]
    split
    case isTrue h0 =>
      rw [h0, c.zero]
      rfl
    case isFalse => rfl
  rw [if_pos he]

end Boot
section Results
variable {py : Python} {src : String} {words : List ℤ} {n m : ℕ} {c : Cpu} {e : Ending}
  {expect : List (ℕ × ℤ)}

/-- The emulator of the testbenches comes to the end of the program. -/
theorem emu_of_run {isCode : ℕ → Bool} {hi tohost : ℕ} (ht : tohost = 0x80001000)
    {h : 4 * words.length ≤ hi} (hle : hi ≤ 64 * 1024)
    (hr : Steps (imageMachine words isCode hi tohost h).Step m (imageCpu words) c)
    (he : (imageMachine words isCode hi tohost h).Ends c e) {maxSteps : ℤ}
    (hm : m < maxSteps) : ∃ cpu, emu maxSteps words = .ok (.reason (haltReason e)) cpu ∧
      cpu.steps = m + 1 ∧ ∀ r, cpu.regs r = ((c.x r).toNat : ℤ) := by
  subst ht
  have h' : 4 * words.length ≤ 64 * 1024 := h.trans hle
  have hr' : Steps (imageMachine words isCode (64 * 1024) _ h').Step _ _ _ :=
    hr.mono fun _ _ hs => step_larger hle hs
  obtain ⟨cpu, hrun, hh, hsteps⟩ := (models_loadedCpu h').run hr' (ends_larger he) stops_false
    (by rwa [steps_loadedCpu, Nat.cast_zero, zero_add])
  refine ⟨cpu, ?_, ?_, hh.regs⟩
  · rw [← hrun]
    exact loadAndRun_eq h' maxSteps
  · rw [hsteps, steps_loadedCpu, zero_add]

theorem words_ne_nil {isCode : ℕ → Bool} {hi tohost : ℕ} {h : 4 * words.length ≤ hi}
    (he : (imageMachine words isCode hi tohost h).Ends c .ecall) : words ≠ [] := by
  rintro rfl
  cases he with
  | ecall hf =>
    obtain ⟨-, hlt, -⟩ := imageCode_eq_some hf
    exact Nat.not_lt_zero _ hlt

/-- What the testbenches count for a program of `n` lines up to its ECALL. -/
structure Counted (words : List ℤ) (n instrs cycles : ℕ) : Prop where
  lines : n + 1 ≤ instrs ∧ instrs ≤ 2 * n + 1
  law : cycles = instrs +
    tally (takenAt (Lib.run Top.clock (.reset (core words) (loadMem _ words)))) instrs +
    tally (stallsAt (Lib.run Top.clock (.reset (core words) (loadMem _ words)))) instrs + 3
  bound : instrs + 3 ≤ cycles ∧ cycles ≤ 2 * instrs + 2

/-- The emulator and the pipeline agree on a program that runs to its ECALL. -/
theorem crossCheck_of_run (ha : assemble py src 0 none = .ok words)
    (hf : Fits (benchProgram py src) words)
    (hr : Steps (benchProgram py src).Step n (imageCpu words) c)
    (he : (benchProgram py src).Ends c .ecall)
    (hx : ∀ rv ∈ expect, ((c.x (.ofNat 5 rv.1)).toNat : ℤ) = rv.2) {maxSteps : ℤ} {maxCycles : ℕ}
    (hs : 2 * n < maxSteps) (hc : 4 * n + 4 ≤ maxCycles) (s : TopPipeline (core words)) :
    words ≠ [] ∧ ∃ cpu cycles, Counted words n cpu.steps cycles ∧
      (∀ r, cpu.regs r = ((c.x r).toNat : ℤ)) ∧
      crossCheck expect maxSteps maxCycles words s = .ok (cpu, cycles) := by
  have hload := loaded_core hf
  obtain ⟨m, hm, hm', hrun, hend⟩ := machine_run ha hload.fits (by norm_num [core]) hr he
  have hlt : (m : ℤ) < maxSteps := by omega
  obtain ⟨cpu, hemu, hsteps, hregs⟩ :=
    emu_of_run rfl (show 4 * 2 ^ 12 ≤ 64 * 1024 by decide) hrun hend hlt
  obtain ⟨cycles, hp⟩ := pipelineFinishes (hosts hload) (carries_reset hload) hrun hend
  obtain ⟨hlo, hhi⟩ := hp.bound
  refine ⟨words_ne_nil hend, cpu, cycles, ?_, hregs, ?_⟩
  · rw [hsteps]
    exact ⟨by omega, hp.cycles, by omega⟩
  have hawait : awaitHalt _ _ maxCycles 0 _ = _ :=
    awaitHalt_of_firstAt hp.first (by omega) (by omega)
  rw [← boot_eq s, Nat.zero_add] at hawait
  have hmism : mismatches (Lib.run TopPipeline.clock (boot words s) cycles).xregs cpu = [] := by
    rw [boot_eq]
    exact mismatches_nil (hp.regs 0) hregs
  have hcause := hp.cause
  rw [← boot_eq s] at hcause
  rw [crossCheck, hawait, hemu]
  refine judge_eq_ok expect (fun rv hrv => ?_) hcause hmism
  rw [hregs, hx rv hrv]

/-- `lockstep` passes, and returns the emulator with the registers of the program's end. -/
theorem lockstep_passes (ha : assemble py src 0 none = .ok words)
    (hf : Fits (benchProgram py src) words)
    (hr : Steps (benchProgram py src).Step n (imageCpu words) c)
    (he : (benchProgram py src).Ends c .ecall) (hn : 4 * n + 4 ≤ 20000)
    (prior : ∀ p, TopPipeline p) : ∃ cpu, lockstep py src prior = .ok cpu ∧
      ∀ r, cpu.regs r = ((c.x r).toNat : ℤ) := by
  have hx : ∀ rv ∈ ([] : List (ℕ × ℤ)), ((c.x (.ofNat 5 rv.1)).toNat : ℤ) = rv.2 := by simp
  obtain ⟨hne, cpu, cycles, -, hregs, hc⟩ := crossCheck_of_run ha hf hr he hx
    (show 2 * (n : ℤ) < 200000 by omega) hn (prior _)
  refine ⟨cpu, ?_, hregs⟩
  unfold lockstep
  rw [ha]
  simp only [if_neg hne]
  rw [hc]
  rfl

theorem lockstep_passes_MATVEC : ∃ cpu,
    lockstep .plain MATVEC (fun p => .reset p fun _ => 7#32) = .ok cpu ∧ cpu.regs 10#5 = 6 ∧
      cpu.regs 11#5 = 15 ∧ cpu.regs 13#5 = 24 := by
  obtain ⟨c, hc, he, h10, h11, h13⟩ := run_MATVEC (4 * 2 ^ 12) 0x80001000
    (by decide) (by decide) (by decide)
  obtain ⟨cpu, hp, hregs⟩ := lockstep_passes shown_MATVEC.assembled fits_MATVEC hc he (by decide)
    fun p => .reset p fun _ => 7#32
  refine ⟨cpu, hp, ?_, ?_, ?_⟩
  · rw [hregs, h10]
    rfl
  · rw [hregs, h11]
    rfl
  · rw [hregs, h13]
    rfl

theorem measure_eq_ok (ha : assemble py src 0 none = .ok words) {prior : ∀ p, TopPipeline p}
    {cpu : RV32I} {cycles : ℕ}
    (hc : crossCheck expect 500000 200000 words (prior _) = .ok (cpu, cycles)) :
    measure py src expect prior = .ok (cpu.steps, cycles) := by
  unfold measure
  rw [ha]
  simp only
  rw [hc]
  rfl

/-- `measure` returns the instructions and the cycles of the program, by the cycle law. -/
theorem measure_counts (ha : assemble py src 0 none = .ok words)
    (hf : Fits (benchProgram py src) words)
    (hr : Steps (benchProgram py src).Step n (imageCpu words) c)
    (he : (benchProgram py src).Ends c .ecall)
    (hx : ∀ rv ∈ expect, ((c.x (.ofNat 5 rv.1)).toNat : ℤ) = rv.2) (hn : 4 * n + 4 ≤ 200000)
    (prior : ∀ p, TopPipeline p) : ∃ instrs cycles, Counted words n instrs cycles ∧
      measure py src expect prior = .ok (instrs, cycles) := by
  obtain ⟨-, cpu, cycles, hcount, -, hc⟩ := crossCheck_of_run ha hf hr he hx
    (show 2 * (n : ℤ) < 500000 by omega) hn (prior _)
  exact ⟨cpu.steps, cycles, hcount, measure_eq_ok ha hc⟩

theorem measure_counts_MATVEC : ∃ instrs cycles, Counted (wordsOf MATVEC) 180 instrs cycles ∧
    measure .plain MATVEC [(10, 6), (11, 15), (13, 24)] (fun p => .reset p fun _ => 0#32) =
      .ok (instrs, cycles) := by
  obtain ⟨c, hc, he, h10, h11, h13⟩ := run_MATVEC (4 * 2 ^ 12) 0x80001000
    (by decide) (by decide) (by decide)
  refine measure_counts shown_MATVEC.assembled fits_MATVEC hc he ?_ (by decide) _
  intro rv hrv
  simp only [List.mem_cons, List.not_mem_nil, or_false] at hrv
  rcases hrv with rfl | rfl | rfl
  · exact congrArg (fun w : Word => (w.toNat : ℤ)) h10
  · exact congrArg (fun w : Word => (w.toNat : ℤ)) h11
  · exact congrArg (fun w : Word => (w.toNat : ℤ)) h13

/-- `measure` returns, in whatever state it finds the core, and the CPI is below 2 but for the
last cycles. -/
def Measures (py : Python) (src : String) (expect : List (ℕ × ℤ)) : Prop :=
  ∀ prior, ∃ instrs cycles, measure py src expect prior = .ok (instrs, cycles) ∧
    instrs + 3 ≤ cycles ∧ cycles ≤ 2 * instrs + 2

theorem measures (ha : assemble py src 0 none = .ok words)
    (hf : Fits (benchProgram py src) words)
    (hr : Steps (benchProgram py src).Step n (imageCpu words) c)
    (he : (benchProgram py src).Ends c .ecall)
    (hx : ∀ rv ∈ expect, ((c.x (.ofNat 5 rv.1)).toNat : ℤ) = rv.2) (hn : 4 * n + 4 ≤ 200000) :
    Measures py src expect := by
  intro prior
  obtain ⟨-, cpu, cycles, hcount, -, hc⟩ := crossCheck_of_run ha hf hr he hx
    (show 2 * (n : ℤ) < 500000 by omega) hn (prior _)
  exact ⟨cpu.steps, cycles, measure_eq_ok ha hc, hcount.bound⟩

end Results
end RiscForge.System
