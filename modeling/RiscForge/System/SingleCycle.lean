import RiscForge.System.Harness

/-! The lockstep of `tb/program`, on the single-cycle core. -/
namespace RiscForge.System

open Lib Rtl Refmodel Isa Assembler Benchmarks

section Model
variable (words : List ℤ)

/-- What `_write_mem` makes of a memory array of which it clears the first so many words. -/
def writeMem {n : ℕ} (clear : ℕ) (old : BitVec n → Word) : BitVec n → Word := fun i =>
  if i.toNat < words.length then wordAt words i.toNat
  else if i.toNat < clear then 0#32
  else old i

/-- The core of the testbench, with the words in its instruction memory. -/
def singleCore (imem : BitVec 10 → Word) : Params where
  pcReset := 0x00000000#32
  imemIdxW := 10
  dmemIdxW := 12
  tohostAddr := 0x80001000#32
  uartAddr := 0xFFFF0000#32
  imem := writeMem words 256 imem

variable (imem : BitVec 10 → Word)

/-- `_write_mem` and `_reset`. -/
def bootSingle (s : Rtl.Top (singleCore words imem)) : Rtl.Top (singleCore words imem) :=
  (({ s with dmem := writeMem words 1024 s.dmem } : Rtl.Top (singleCore words imem)).edge
    true).edge true

/-- `lockstep` of `tb/program`, with what the tests before left in the memories. -/
def singleLockstep (py : Python) (src : String) (prior : ∀ p, Rtl.Top p) : Except Failure RV32I :=
  match assemble py src 0 none with
  | .error e => .error (.assembler e)
  | .ok words =>
    if words = [] then .error .nothing
    else (judge [] Top.haltCause Top.xregs
      (awaitHalt Top.clock Top.halted 5000 0 (bootSingle words imem (prior _)))
      (emu 200000 words)).map fun r => r.1

end Model
section Core
variable {words : List ℤ} {imem : BitVec 10 → Word} {isCode : ℕ → Bool} {n : ℕ} {c : Cpu}
  {e : Ending}

theorem writeMem_word {m clear : ℕ} {old : BitVec m → Word} {a : Word} (ha : a.toNat < 4 * 2 ^ m)
    (hlt : a.toNat / 4 < words.length) :
    writeMem words clear old (a.extractLsb' 2 m) = wordAt words (a.toNat / 4) := by
  rw [writeMem, toNat_wordIdx ha, if_pos hlt]

theorem writeMem_cleared {m clear : ℕ} {old : BitVec m → Word} {a : Word}
    (ha : a.toNat < 4 * 2 ^ m) (hlt : a.toNat / 4 < clear) :
    writeMem words clear old (a.extractLsb' 2 m) = wordAt words (a.toNat / 4) := by
  by_cases hw : a.toNat / 4 < words.length
  · exact writeMem_word ha hw
  · rw [writeMem, toNat_wordIdx ha, if_neg hw, if_pos hlt, wordAt_past (by omega)]

theorem bootSingle_eq (s : Rtl.Top (singleCore words imem)) :
    bootSingle words imem s = Top.reset (singleCore words imem) (writeMem words 1024 s.dmem) := by
  rw [bootSingle, Top.edge_rst, Top.edge_rst]
  rfl

/-- The machine that the core is for the words. -/
def singleMachine (words : List ℤ) (isCode : ℕ → Bool) (h : 4 * words.length ≤ 4 * 2 ^ 12) :
    Machine := imageMachine words isCode (4 * 2 ^ 12) 0x80001000 h

variable {h : 4 * words.length ≤ 4 * 2 ^ 12}

theorem hosts_single (hw : words.length ≤ 1024) :
    Hosts (singleMachine words isCode h) (singleCore words imem) where
  lo := rfl
  hi := rfl
  tohost := rfl
  mmio := by
    constructor
    · change 4 * 2 ^ 12 ≤ (0x80001000#32).toNat
      decide
    · change 4 * 2 ^ 12 ≤ (0xFFFF0000#32).toNat
      decide
  code q i hq := by
    obtain ⟨-, hlt, -, hd⟩ := imageCode_eq_some hq
    have hm : instrMemory (singleCore words imem) q = wordAt words (q.toNat / 4) :=
      writeMem_word (by omega) hlt
    rwa [hm]

/-- The words, with zeros up to the end of the cleared part and something after it. -/
def singleCpu (d : BitVec 12 → Word) : Cpu := { imageCpu [] with mem := byteOf d }

theorem sameInside_single {tohost : ℕ} {h' : 4 * words.length ≤ 4096} (old : BitVec 12 → Word) :
    Machine.SameInside (imageMachine words isCode 4096 tohost h') (imageCpu words)
      (singleCpu (writeMem words 1024 old)) where
  pc := rfl
  x := rfl
  mem a _ ha := by
    have hlt : a.toNat < 4096 := ha
    change byteOf _ a = _
    rw [byteOf, lane_eq_leByte, writeMem_cleared (by omega) (by omega)]
    rfl

theorem carries_single (hw : words.length ≤ 1024) (old : BitVec 12 → Word) :
    Carries (singleMachine words isCode h) (singleCpu (writeMem words 1024 old))
      (Top.reset (singleCore words imem) (writeMem words 1024 old)) := by
  refine carries_of (hosts_single hw) rfl (fun r => rfl) (fun a _ => rfl) fun q i hq => ?_
  obtain ⟨-, hlt, -, hd⟩ := imageCode_eq_some hq
  have hm : writeMem words 1024 old (q.extractLsb' 2 12) = wordAt words (q.toNat / 4) :=
    writeMem_word (by omega) hlt
  exact (congrArg decode hm).trans hd

/-- A program that keeps to the cleared part runs on the core as on a machine with zeros there. -/
theorem topFinishes_single {h' : 4 * words.length ≤ 4096}
    (hr : Steps (imageMachine words isCode 4096 0x80001000 h').Step n (imageCpu words) c)
    (he : (imageMachine words isCode 4096 0x80001000 h').Ends c e) (old : BitVec 12 → Word) :
    ∃ d : Cpu, d.x = c.x ∧ TopFinishes (singleMachine words isCode h) (singleCore words imem)
      (writeMem words 1024 old) d e n := by
  obtain ⟨d, hd, hs⟩ := (Machine.inside_simulates _).exact hr (sameInside_single old)
  have hd' : Steps (singleMachine words isCode h).Step n _ d :=
    hd.mono fun _ _ hs => step_larger (by norm_num) hs
  exact ⟨d, hs.x, topFinishes (hosts_single (by omega)) (carries_single (by omega) old) hd'
    (ends_larger (hs.ends he))⟩

end Core
section Judging
variable {M : Machine} {p : Params} {d : DMem p.dmemIdxW} {c : Cpu} {n rounds : ℕ} {cpu : RV32I}

/-- The test passes on a core that ends with the registers of the emulator. -/
theorem judge_of_finishes (h : TopFinishes M p d c .ecall n) (h0 : 0 < n) (hn : n ≤ rounds)
    (hregs : ∀ r, cpu.regs r = ((c.x r).toNat : ℤ)) :
    judge [] Top.haltCause Top.xregs (awaitHalt Top.clock Top.halted rounds 0 (.reset p d))
      (.ok (.reason .ecall) cpu) = .ok (cpu, 0 + n) := by
  rw [awaitHalt_of_firstAt h.first h0 hn]
  exact judge_eq_ok [] (by simp) h.cause (mismatches_nil (h.regs 0) hregs)

/-- It fails on a core that has halted before the first sample. -/
theorem judge_of_first (h : TopFinishes M p d c .ecall 0) (h0 : 0 < rounds) :
    judge [] Top.haltCause Top.xregs (awaitHalt Top.clock Top.halted rounds 0 (.reset p d))
      (.ok (.reason .ecall) cpu) = .error (.cause .none) := by
  have hnow : (Top.reset p d).haltNow = true := (firstAt_top_iff.mp h.first).1
  obtain ⟨hawait, hcause⟩ := await_first h0 rfl hnow
  have hne : (Top.reset p d).clock.haltCause ≠ .ecall := by
    rw [hcause]
    exact HaltCause.noConfusion
  rw [hawait, judge_cause hne, hcause]

end Judging
section Results
variable {py : Python} {src : String} {words : List ℤ} {n : ℕ} {c : Cpu}

theorem singleLockstep_of_words (ha : assemble py src 0 none = .ok words) (hne : words ≠ [])
    (imem : BitVec 10 → Word) (prior : ∀ p, Rtl.Top p) : singleLockstep imem py src prior =
      (judge [] Top.haltCause Top.xregs
        (awaitHalt Top.clock Top.halted 5000 0 (bootSingle words imem (prior _)))
        (emu 200000 words)).map fun r => r.1 := by
  unfold singleLockstep
  rw [ha]
  exact if_neg hne

/-- The program of `tb/program`, which keeps its data in the part that gets cleared. -/
def clearedProgram (py : Python) (src : String) : Program := .of py src 4096 0x80001000

/-- `lockstep` passes for a program that keeps to the cleared part, whatever the memories held
before. If its first line is the ECALL, then it fails: the core no longer shows the cause. -/
theorem singleLockstep_eq (ha : assemble py src 0 none = .ok words) (hw : words.length ≤ 1024)
    (hr : Steps (clearedProgram py src).Step n (imageCpu words) c)
    (he : (clearedProgram py src).Ends c .ecall) (hn : 2 * n ≤ 5000) (imem : BitVec 10 → Word)
    (prior : ∀ p, Rtl.Top p) :
    (n = 0 → singleLockstep imem py src prior = .error (.cause .none)) ∧
      (0 < n → ∃ cpu, singleLockstep imem py src prior = .ok cpu ∧
        ∀ r, cpu.regs r = ((c.x r).toNat : ℤ)) := by
  have hfit : 4 * words.length ≤ 4096 := by omega
  obtain ⟨m, hm, hm', hrun, hend⟩ := machine_run ha hfit (by norm_num) hr he
  obtain ⟨cpu, hemu, -, hregs⟩ := emu_of_run rfl (show 4096 ≤ 64 * 1024 by decide) hrun hend
    (show (m : ℤ) < 200000 by omega)
  have hdata : 4 * words.length ≤ 4 * 2 ^ 12 := by omega
  obtain ⟨d, hx, ht⟩ := topFinishes_single (h := hdata) hrun hend
    (prior (singleCore words imem)).dmem
  rw [singleLockstep_of_words ha (words_ne_nil hend), hemu, bootSingle_eq]
  constructor
  · rintro rfl
    obtain rfl : m = 0 := by omega
    exact congrArg (Except.map fun r => r.1) (judge_of_first ht (show 0 < 5000 by decide))
  · intro h0
    have hregs' : ∀ r, cpu.regs r = ((d.x r).toNat : ℤ) := fun r => by rw [hregs, hx]
    exact ⟨cpu, congrArg (Except.map fun r => r.1)
      (judge_of_finishes ht (by omega) (by omega) hregs'), hregs⟩

theorem singleLockstep_eq_MATVEC : ∃ cpu,
    singleLockstep (fun _ => 7#32) .plain MATVEC (fun p => .reset p fun _ => 7#32) = .ok cpu ∧
      cpu.regs 10#5 = 6 := by
  obtain ⟨c, hc, he, h10, -, -⟩ := run_MATVEC 4096 0x80001000 (by decide)
    (by decide) (by decide)
  have hlen : (wordsOf MATVEC).length ≤ 1024 := length_MATVEC.trans_le (by decide)
  obtain ⟨cpu, hp, hregs⟩ := (singleLockstep_eq shown_MATVEC.assembled hlen hc he (by decide)
    (fun _ => 7#32) fun p => .reset p fun _ => 7#32).2 (by decide)
  refine ⟨cpu, hp, ?_⟩
  rw [hregs, h10]
  rfl

end Results
end RiscForge.System
