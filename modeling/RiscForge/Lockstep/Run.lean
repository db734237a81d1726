import RiscForge.Lockstep.Step

/-! Whole runs of the emulator and `top`, instruction by instruction. -/
namespace RiscForge.Lockstep

open Lib Rtl Isa Refmodel

section Run
variable {p : Params} {s : ℕ → RV32I} {tr : ℕ → StepTrace} {t : Top p} {n : ℕ}

/-- The two memories of `top` hold the same image. -/
def SameImage (t : Top p) : Prop :=
  ∀ (i : BitVec p.imemIdxW) (j : BitVec p.dmemIdxW), i.toNat = j.toNat → p.imem i = t.dmem j

/-- A run of `n` instructions of the emulator that keeps to what the RTL offers, and stores to
no word that it fetches later. -/
structure WellBehaved (p : Params) (s : ℕ → RV32I) (tr : ℕ → StepTrace) (n : ℕ) : Prop where
  steps : ∀ k < n, step (s k) = .ok (tr k) (s (k + 1))
  ok : ∀ k ≤ n, StepOk p (s k)
  misses : ∀ j k, j < k → k ≤ n → StoreMisses (tr j) (s k).pc

/-- What holds of the two after `k` instructions. -/
structure InStep (s : ℕ → RV32I) (tr : ℕ → StepTrace) (t : Top p) (k : ℕ) : Prop where
  agree : Agree (s k) (run Top.clock t k)
  config : Config p (s k)
  running : (run Top.clock t k).haltedQ = false
  kept : ∀ q : ℕ, (∀ j < k, StoreMisses (tr j) q) →
    unpackFrom (s k).mem q 4 = unpackFrom (s 0).mem q 4

theorem haltCause_of_running {s' : RV32I} (h : HaltsTogether s' t) (hr : s'.halted = false) :
    t.haltCause = .none := by
  unfold HaltsTogether at h
  split at h
  case h_1 hc => exact hc
  case h_2 | h_3 | h_4 =>
    rw [hr] at h
    cases h.1
  case h_5 | h_6 => exact h.elim

/-- The word to be fetched is still that of the image. -/
theorem sameWord {k : ℕ} (hi : SameImage t) (h0 : Agree (s 0) t) (hr : WellBehaved p s tr n)
    (hk : k ≤ n) (h : InStep s tr t k) :
    SameWord (s k) (run Top.clock t k) := by
  intro hin
  have hpc := h.agree.pc
  have hmiss : ∀ j < k, StoreMisses (tr j) ((run Top.clock t k).pc.toNat : ℤ) := by
    intro j hj
    rw [← hpc]
    exact hr.misses j k hj hk
  have himem : (run Top.clock t k).pc.toNat < 4 * 2 ^ p.imemIdxW := by
    have := (hr.ok k hk).inImem
    rw [hpc] at this
    exact_mod_cast this
  have hdmem : (run Top.clock t k).pc.toNat < 4 * 2 ^ p.dmemIdxW := by
    obtain ⟨-, hle⟩ := hin
    rw [h.config.memBase, h.agree.mem.length] at hle
    omega
  have hal : (run Top.clock t k).pc.toNat % 4 = 0 := by
    have := (hr.ok k hk).aligned
    rw [hpc] at this
    exact_mod_cast this
  have hj := toNat_wordIdx (n := p.dmemIdxW) hdmem
  have hword := h0.mem.word ((run Top.clock t k).pc.extractLsb' 2 p.dmemIdxW)
  have himg := hi _ _ ((toNat_wordIdx (n := p.imemIdxW) himem).trans hj.symm)
  have hfour : 4 * ((run Top.clock t k).pc.toNat / 4) = (run Top.clock t k).pc.toNat := by omega
  rw [← himg, hj, hfour] at hword
  rw [h.kept _ hmiss, ← hword]
  rfl

theorem inStep_zero (hc : Config p (s 0)) (h0 : Agree (s 0) t) (hq : t.haltedQ = false) :
    InStep s tr t 0 := ⟨h0, hc, hq, fun _ _ => rfl⟩

/-- An instruction that both commit keeps the two in step. -/
theorem inStep_succ {k : ℕ} (ho : MmioOutside p) (hi : SameImage t) (h0 : Agree (s 0) t)
    (hr : WellBehaved p s tr n) (hk : k < n) (h : InStep s tr t k) :
    InStep s tr t (k + 1) := by
  have hw := sameWord hi h0 hr (by omega) h
  have hstep := hr.steps k hk
  cases stepOutcome h.config ho h.agree h.running (hr.ok k (by omega)) hw with
  | commits tr' s' hrun hagree hconfig hhalts hkept =>
    rw [hstep] at hrun
    cases hrun
    have hcause := haltCause_of_running hhalts (hr.ok (k + 1) (by omega)).running
    refine ⟨hagree, hconfig, ?_, ?_⟩
    · rw [run_succ, Top.clock_of_running h.running]
      simp [Top.haltNow, hcause]
    · intro q hq
      rw [hkept q (hq k (by omega)), h.kept q fun j hj => hq j (by omega)]
  | misaligned trap hrun =>
    rw [hstep] at hrun
    cases hrun
  | stops trap hrun =>
    rw [hstep] at hrun
    cases hrun

theorem inStep_of_wellBehaved (hc : Config p (s 0)) (ho : MmioOutside p) (hi : SameImage t)
    (h0 : Agree (s 0) t) (hq : t.haltedQ = false) (hr : WellBehaved p s tr n) :
    ∀ k ≤ n, InStep s tr t k := by
  intro k
  induction k with
  | zero =>
    intro _
    exact inStep_zero hc h0 hq
  | succ k ih =>
    intro hk
    exact inStep_succ ho hi h0 hr (by omega) (ih (by omega))

/-- After any number of instructions the two agree, and the next one has the same outcome. -/
theorem lockstep (hc : Config p (s 0)) (ho : MmioOutside p) (hi : SameImage t)
    (h0 : Agree (s 0) t) (hq : t.haltedQ = false) (hr : WellBehaved p s tr n) :
    Agree (s n) (run Top.clock t n) ∧
      (∀ tr' s', step (s n) = .ok tr' s' →
        Agree s' (run Top.clock t (n + 1)) ∧ HaltsTogether s' (run Top.clock t n)) ∧
      (∀ trap s', step (s n) = .error (.trap trap) s' →
        trap.kind = .misalignedLoad ∨ trap.kind = .misalignedStore →
        s' = s n ∧ (run Top.clock t n).haltCause = .misaligned ∧
          (run Top.clock t (n + 1)).dmem = (run Top.clock t n).dmem) := by
  have h := inStep_of_wellBehaved hc ho hi h0 hq hr n (by omega)
  have hw := sameWord hi h0 hr (by omega) h
  have hout := stepOutcome h.config ho h.agree h.running (hr.ok n (by omega)) hw
  refine ⟨h.agree, ?_, ?_⟩
  · intro tr' s' hs
    cases hout with
    | commits tr'' s'' hrun hagree hconfig hhalts hkept =>
      rw [hs] at hrun
      cases hrun
      exact ⟨hagree, hhalts⟩
    | misaligned trap hrun =>
      rw [hs] at hrun
      cases hrun
    | stops trap hrun =>
      rw [hs] at hrun
      cases hrun
  · intro trap s' hs hkind
    cases hout with
    | commits tr'' s'' hrun =>
      rw [hs] at hrun
      cases hrun
    | misaligned trap' hrun hkind' hcause hdmem =>
      rw [hs] at hrun
      cases hrun
      exact ⟨rfl, hcause, hdmem⟩
    | stops trap' hrun hkind' =>
      rw [hs] at hrun
      cases hrun
      rcases hkind with hk | hk <;> rw [hk] at hkind' <;> rcases hkind' with hk' | hk' <;> cases hk'

/-- `addi x1, x0, 5`, `sw x1, 12(x0)`, `ecall`, in memories of four words. -/
def storeImage : List Word := [0x00500093#32, 0x00102623#32, 0x00000073#32, 0#32]

def storeTop : Top (Params.ofImage 2 storeImage) :=
  Top.reset _ fun i => storeImage.getD i.toNat 0#32

def storeCpu : RV32I :=
  { RV32I.init 16 0 0x80001000 false with
    mem := [0x93#8, 0x00#8, 0x50#8, 0x00#8, 0x23#8, 0x26#8, 0x10#8, 0x00#8, 0x73#8, 0x00#8, 0x00#8,
      0x00#8, 0x00#8, 0x00#8, 0x00#8, 0x00#8] }

def returns (s : RV32I) : Bool :=
  match step s with
  | .ok _ _ => true
  | .error _ _ => false

/-- The state and the trace after an instruction that returns. -/
def stepped (s : RV32I) : RV32I :=
  match step s with
  | .ok _ s' => s'
  | .error _ s' => s'

def steppedTrace (s : RV32I) : StepTrace :=
  match step s with
  | .ok tr _ => tr
  | .error _ s' => ⟨s'.pc, 0, none, none⟩

theorem step_eq_stepped {s : RV32I} (h : returns s = true) :
    step s = .ok (steppedTrace s) (stepped s) := by
  unfold returns at h
  unfold steppedTrace stepped
  split at h
  case h_1 hs => rw [hs]
  case h_2 => cases h

theorem stepOk_of_returns {s : RV32I} {i : Insn} (hr : returns s = true) (hh : s.halted = false)
    (ha : s.pc % 4 = 0) (hp : s.pc < 4 * 2 ^ p.imemIdxW) (hd : decode (instAt p s) = some i)
    (hx : ¬ Excluded (instAt p s))
    (hm : ∀ a n, i.access (RV32I.x s) = some (a, n) → a.toNat < 4 * 2 ^ p.dmemIdxW) :
    StepOk p s where
  running := hh
  aligned := ha
  inImem := hp
  emuLegal := by
    rintro ⟨tr, s', hs, -⟩
    rw [step_eq_stepped hr] at hs
    cases hs
  rtlLegal := decoder_of_decode hd
  system := hx
  load := by
    intro k rd rs1 imm hl
    rw [hd] at hl
    cases hl
    exact hm _ _ rfl
  store := by
    intro k rs1 rs2 imm hl
    rw [hd] at hl
    cases hl
    exact Or.inl (hm _ _ rfl)

theorem storeCpu_ok {k : ℕ} (h : k < 3) :
    StepOk (Params.ofImage 2 storeImage) (run stepped storeCpu k) := by
  rcases show k = 0 ∨ k = 1 ∨ k = 2 by omega with rfl | rfl | rfl
  · refine stepOk_of_returns (i := .opImm .add 1 0 5) ?_ rfl ?_ ?_ ?_ ?_ ?_ <;> try decide +kernel
    rintro _ _ ⟨⟩
  · refine stepOk_of_returns (i := .store .sw 0 1 12) ?_ rfl ?_ ?_ ?_ ?_ ?_ <;> try decide +kernel
    rintro _ _ ⟨⟩
    decide +kernel
  · refine stepOk_of_returns (i := .ecall) ?_ rfl ?_ ?_ ?_ ?_ ?_ <;> try decide +kernel
    rintro _ _ ⟨⟩

theorem lockstep_storeCpu :
    Agree (run stepped storeCpu 2) (run Top.clock storeTop 2) ∧
      (∀ tr' s', step (run stepped storeCpu 2) = .ok tr' s' →
        Agree s' (run Top.clock storeTop 3) ∧ HaltsTogether s' (run Top.clock storeTop 2)) ∧
      (∀ trap s', step (run stepped storeCpu 2) = .error (.trap trap) s' →
        trap.kind = .misalignedLoad ∨ trap.kind = .misalignedStore →
        s' = run stepped storeCpu 2 ∧ (run Top.clock storeTop 2).haltCause = .misaligned ∧
          (run Top.clock storeTop 3).dmem = (run Top.clock storeTop 2).dmem) := by
  have hr : WellBehaved (Params.ofImage 2 storeImage) (run stepped storeCpu)
      (fun k => steppedTrace (run stepped storeCpu k)) 2 := by
    refine ⟨?_, ?_, ?_⟩
    · intro k hk
      exact step_eq_stepped
        (by rcases show k = 0 ∨ k = 1 by omega with rfl | rfl <;> decide +kernel)
    · intro k hk
      exact storeCpu_ok (by omega)
    · intro j k hjk hk a v size hs
      have h0 : (steppedTrace (run stepped storeCpu 0)).memWrite = none := by decide +kernel
      have h1 : (steppedTrace (run stepped storeCpu 1)).memWrite = some (12, 5, 4) := by
        decide +kernel
      have hpc : (run stepped storeCpu 2).pc = 8 := by decide +kernel
      rcases show j = 0 ∨ j = 1 ∧ k = 2 by omega with rfl | ⟨rfl, rfl⟩
      · rw [h0] at hs
        cases hs
      · rw [h1] at hs
        cases hs
        omega
  refine lockstep (s := run stepped storeCpu) (t := storeTop) ⟨rfl, rfl, rfl⟩
    ⟨by decide, by decide⟩ ?_ ⟨?_, rfl, rfl, ?_⟩ rfl hr
  · intro i j hij
    exact congrArg (fun k => storeImage.getD k 0#32) hij
  · intro r hr
    simp only [storeTop, Top.reset, XRegs.get]
    split <;> rfl
  · decide +kernel

end Run
end RiscForge.Lockstep
