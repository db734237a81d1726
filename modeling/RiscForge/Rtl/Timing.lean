import RiscForge.Rtl.PipelineRun

/-! The cycle at which each instruction enters and leaves ID, and so reaches WB. -/
namespace RiscForge.Rtl

open Lib

section Schedule
variable {p : Params}

/-- The instruction that runs from `c` must wait for the one that runs from `a`, immediately
before it: a load, or any producer of an operand that ID itself compares or jumps through. -/
def operandStall (a c : Top p) : Bool :=
  a.ctrl.regWrite && rdIdx a.inst ≠ 0#5 &&
    (readsRs1 (opcode c.inst) && rdIdx a.inst = rs1Idx c.inst ||
      readsRs2 (opcode c.inst) && rdIdx a.inst = rs2Idx c.inst) &&
    (a.ctrl.memRead || c.ctrl.condBranch || c.ctrl.isJalr)

/-- Instruction `k` waits one cycle in ID for its predecessor. -/
def stallsAt (t : ℕ → Top p) (k : ℕ) : Bool :=
  k ≠ 0 && !(t (k - 1)).branchTaken && operandStall (t (k - 1)) (t k)

def takenAt (t : ℕ → Top p) (k : ℕ) : Bool := (t k).branchTaken

/-- The number of indices below `k` at which `f` holds. -/
def tally (f : ℕ → Bool) (k : ℕ) : ℕ := Nat.count (fun j => f j = true) k

theorem tally_zero (f : ℕ → Bool) : tally f 0 = 0 := rfl

theorem tally_succ (f : ℕ → Bool) (k : ℕ) : tally f (k + 1) = tally f k + (f k).toNat := by
  rw [tally, Nat.count_succ]
  cases f k <;> simp [tally]

theorem tally_congr {f g : ℕ → Bool} {k : ℕ} (h : ∀ j < k, f j = g j) :
    tally f k = tally g k := by
  induction k with
  | zero => rfl
  | succ k ih =>
    rw [tally_succ, tally_succ, ih (fun j hj => h j (Nat.lt_succ_of_lt hj)),
      h k (Nat.lt_succ_self k)]

variable (t : ℕ → Top p)

/-- The first cycle of instruction `k` in ID. -/
def enterId (k : ℕ) : ℕ := k + 1 + tally (takenAt t) k + tally (stallsAt t) k

/-- Its last cycle there. -/
def leaveId (k : ℕ) : ℕ := enterId t k + (stallsAt t k).toNat

theorem enterId_succ (k : ℕ) : enterId t (k + 1) = leaveId t k + 1 + (takenAt t k).toNat := by
  simp only [enterId, leaveId, tally_succ]
  omega

theorem enterId_le_leaveId (k : ℕ) : enterId t k ≤ leaveId t k := Nat.le_add_right _ _

theorem leaveId_lt_enterId {j k : ℕ} (h : j < k) : leaveId t j < enterId t k := by
  induction k, h using Nat.le_induction with
  | base => rw [enterId_succ]; omega
  | succ k _ ih =>
    have hk := enterId_le_leaveId t k
    rw [enterId_succ]
    omega

end Schedule

section Timed
variable {p : Params} {t : ℕ → Top p} {s : TopPipeline p} {g : Slots} {n : ℕ}

/-- The slots are filled as the schedule says. -/
structure Timed (t : ℕ → Top p) (g : Slots) (n : ℕ) : Prop where
  id : g.id = true →
    (n = enterId t g.kId ∧ (g.ex = true ↔ g.kId ≠ 0 ∧ takenAt t (g.kId - 1) = false)) ∨
      (n = enterId t g.kId + 1 ∧ stallsAt t g.kId = true ∧ g.ex = false)
  idBubble : g.id = false →
    n + 1 = enterId t g.kId ∧ (g.kId = 0 ∨ takenAt t (g.kId - 1) = true)
  ex : g.ex = true → n = leaveId t g.kEx + 1
  mem : g.mem = true → n = leaveId t g.kMem + 2
  wb : g.wb = true → n = leaveId t g.base + 3

theorem timed_reset (t : ℕ → Top p) : Timed t ⟨0, false, false, false, false⟩ 0 := by
  constructor <;> simp [Slots.kId, Slots.kEx, Slots.kMem, enterId, tally_zero]

/-- A bubble in EX holds nothing back. -/
theorem Sim.stall_of_exBubble (h : Sim t s g) (hx : g.ex = false) : s.stall = false := by
  have hb := h.exBubble hx
  have hl : s.loadUseStall = false := by
    simp [TopPipeline.loadUseStall, hazardUnit, hb.memRead]
  have hbr : s.branchStall = false := by
    rcases hb.noWrite with hn | hn <;> simp [TopPipeline.branchStall, hn]
  rw [TopPipeline.stall, hl, hbr]
  rfl

/-- The two stall conditions together, on the instruction pair in EX and ID. -/
theorem Sim.stall_eq (h : Sim t s g) (hi : g.id = true) (hx : g.ex = true) :
    s.stall = operandStall (t g.kEx) (t g.kId) := by
  have hb := h.ex hx
  unfold TopPipeline.stall TopPipeline.loadUseStall TopPipeline.branchStall hazardUnit operandStall
    TopPipeline.idCtrlReadsRs1 TopPipeline.idCtrlReadsRs2
  rw [hb.ctrl, hb.rdIdx, h.idCtrl_eq hi, h.idInst_eq hi]
  have hcond := fun hc => (decoder_condBranch (t g.kId).inst hc).1
  have hjalr := decoder_isJalr (t g.kId).inst
  have hload := fun hm => (decoder_memRead (t g.kEx).inst hm).2.1
  change ∀ _ : (t g.kId).ctrl.condBranch = true, _ at hcond
  change (t g.kId).ctrl.isJalr = true → _ at hjalr
  change ∀ _ : (t g.kEx).ctrl.memRead = true, (t g.kEx).ctrl.regWrite = true at hload
  have hxor : (t g.kId).ctrl.condBranch = true → (t g.kId).ctrl.isJalr = true → False := by
    intro hc hj
    have := (hcond hc).symm.trans (hjalr hj)
    cases this
  cases hc : (t g.kId).ctrl.condBranch <;> cases hj : (t g.kId).ctrl.isJalr <;>
    cases hm : (t g.kEx).ctrl.memRead <;> simp_all [readsRs1, readsRs2]

/-- Whether the instruction in ID stalls now: only in its first cycle there. -/
theorem Timed.stall_eq (hg : Timed t g n) (h : Sim t s g) (hi : g.id = true) :
    (s.stall = true → n = enterId t g.kId ∧ stallsAt t g.kId = true) ∧
      (s.stall = false → n = leaveId t g.kId) := by
  rcases hg.id hi with ⟨hn, hx⟩ | ⟨hn, hst, hx⟩
  · cases he : g.ex with
    | true =>
      obtain ⟨hk, ht⟩ := hx.mp he
      have hke : g.kEx = g.kId - 1 := by simp [Slots.kId, he]
      have hs : s.stall = stallsAt t g.kId := by
        rw [h.stall_eq hi he, hke, stallsAt]
        change (t (g.kId - 1)).branchTaken = false at ht
        simp [hk, ht]
      rw [hs, leaveId, ← hn]
      cases stallsAt t g.kId <;> simp
    | false =>
      have hs := h.stall_of_exBubble he
      have hst : stallsAt t g.kId = false := by
        by_contra hc
        simp only [Bool.not_eq_false, stallsAt, Bool.and_eq_true] at hc
        have := hx.mpr ⟨by simpa using hc.1.1, by simpa [takenAt] using hc.1.2⟩
        simp [he] at this
      simp [hs, leaveId, hst, ← hn]
  · have hs := h.stall_of_exBubble hx
    simp [hs, leaveId, hst, ← hn]

theorem Timed.clock (hg : Timed t g n) (h : Sim t s g) (ht : Execution t)
    (hh : s.halted = false) : Timed t (g.next s.stall s.idRedirect) (n + 1) := by
  have hmem : g.mem = true → n + 1 = leaveId t g.kMem + 3 := fun hm => by rw [hg.mem hm]
  have hex : g.ex = true → n + 1 = leaveId t g.kEx + 2 := fun hx => by rw [hg.ex hx]
  cases hi : g.id with
  | false =>
    obtain ⟨hs, hr⟩ := h.id_of_bubble hi
    obtain ⟨hn, hk⟩ := hg.idBubble hi
    have hne : ¬ (g.kId ≠ 0 ∧ takenAt t (g.kId - 1) = false) := by
      rintro ⟨h0, hf⟩
      rcases hk with hk | hk
      · exact h0 hk
      · simp [hf] at hk
    constructor <;> simp_all [Slots.next_kId]
  | true =>
    cases hs : s.stall with
    | true =>
      obtain ⟨hn, hst⟩ := (hg.stall_eq h hi).1 hs
      constructor <;> simp_all [Slots.next_kId]
    | false =>
      have hn := (hg.stall_eq h hi).2 hs
      have hr : s.idRedirect = takenAt t g.kId := h.idRedirect_eq ht hh hi hs
      have he := enterId_succ t g.kId
      constructor <;> cases htk : takenAt t g.kId <;> simp_all [Slots.next_kId]

/-- At the last cycle of instruction `k` in ID, that instruction is there and moves on. -/
theorem Timed.at_leaveId {k : ℕ} (hg : Timed t g (leaveId t k)) (h : Sim t s g) :
    g.id = true ∧ g.kId = k ∧ s.stall = false := by
  have hk := enterId_le_leaveId t k
  cases hi : g.id with
  | false =>
    exfalso
    obtain ⟨hn, ht⟩ := hg.idBubble hi
    rcases lt_trichotomy k g.kId with hlt | heq | hgt
    · rcases ht with ht | ht
      · omega
      · have hpred := leaveId_lt_enterId t hlt
        have hs := enterId_succ t (g.kId - 1)
        rw [show g.kId - 1 + 1 = g.kId by omega, ht] at hs
        rcases Nat.lt_or_ge k (g.kId - 1) with hlt' | hge
        · have := leaveId_lt_enterId t hlt'
          have := enterId_le_leaveId t (g.kId - 1)
          simp only [Bool.toNat_true] at hs
          omega
        · have hek : k = g.kId - 1 := by omega
          rw [← hek] at hs
          simp only [Bool.toNat_true] at hs
          omega
    · rw [← heq] at hn
      omega
    · have := leaveId_lt_enterId t hgt
      have := enterId_le_leaveId t g.kId
      omega
  | true =>
    have hle : leaveId t k ≤ leaveId t g.kId ∧ enterId t g.kId ≤ leaveId t k := by
      rcases hg.id hi with ⟨hn, _⟩ | ⟨hn, hst, _⟩
      · exact ⟨by rw [hn]; exact enterId_le_leaveId t _, hn.ge⟩
      · exact ⟨by rw [hn, leaveId, hst]; rfl, by omega⟩
    have hkk : g.kId = k := by
      rcases lt_trichotomy k g.kId with hlt | heq | hgt
      · have := leaveId_lt_enterId t hlt
        omega
      · exact heq.symm
      · have := leaveId_lt_enterId t hgt
        omega
    refine ⟨rfl, hkk, ?_⟩
    by_contra hs
    simp only [Bool.not_eq_false] at hs
    obtain ⟨hn, hst⟩ := (hg.stall_eq h hi).1 hs
    rw [hkk] at hn hst
    rw [leaveId, hst] at hn
    simp at hn

end Timed

section Run
variable {p : Params} {d : DMem p.dmemIdxW} {n k : ℕ}

theorem timed_run (h : RunningBefore p d n) : Timed (program p d) (slots p d n) n := by
  induction n with
  | zero => exact timed_reset _
  | succ n ih =>
    have hn := h.mono (Nat.le_succ n)
    exact (ih hn).clock (sim_run hn) program_execution (h n (Nat.lt_succ_self n))

/-- An instruction is in WB three cycles after its last cycle in ID. -/
theorem wb_at (h : RunningBefore p d (leaveId (program p d) k + 3)) :
    (slots p d (leaveId (program p d) k + 3)).wb = true ∧
      (slots p d (leaveId (program p d) k + 3)).base = k := by
  have h0 := h.mono (show leaveId (program p d) k ≤ _ by omega)
  obtain ⟨hi, hk, hs⟩ := (timed_run h0).at_leaveId (sim_run h0)
  simp [slots, hi, hs, Slots.next_kMem, hk]

/-- An instruction in WB is there at its scheduled cycle. -/
theorem wb_time (h : RunningBefore p d n) (hw : (slots p d n).wb = true) :
    n = leaveId (program p d) (slots p d n).base + 3 := (timed_run h).wb hw

end Run
end RiscForge.Rtl
