import RiscForge.Rtl.CycleLaw

/-! How far the pipeline gets in a number of cycles: at least one instruction in two. -/
namespace RiscForge.Rtl

open Lib

section Timing
variable {p : Params} {t : ℕ → Top p} {k : ℕ}

/-- An instruction behind a taken transfer does not wait: the flush has taken its time. -/
theorem takenAt_add_stallsAt (t : ℕ → Top p) (k : ℕ) :
    (takenAt t k).toNat + (stallsAt t (k + 1)).toNat ≤ 1 := by
  unfold takenAt stallsAt
  rw [Nat.add_sub_cancel]
  cases (t k).branchTaken with
  | true => simp
  | false =>
    have := Bool.toNat_le (operandStall (t k) (t (k + 1)))
    simpa using this

theorem leaveId_succ_le (t : ℕ → Top p) (k : ℕ) : leaveId t (k + 1) ≤ leaveId t k + 2 := by
  have h := takenAt_add_stallsAt t k
  have he := enterId_succ t k
  unfold leaveId at he ⊢
  omega

theorem leaveId_le (t : ℕ → Top p) (k : ℕ) : leaveId t k ≤ 2 * k + 1 := by
  induction k with
  | zero =>
    have h0 : stallsAt t 0 = false := rfl
    simp [leaveId, enterId, tally_zero, h0]
  | succ k ih =>
    have := leaveId_succ_le t k
    omega

theorem le_leaveId (t : ℕ → Top p) (k : ℕ) : k + 1 ≤ leaveId t k := by
  have := enterId_le_leaveId t k
  unfold enterId at this
  omega

end Timing

section Progress
variable {p : Params} {d : DMem p.dmemIdxW} {k m n : ℕ}

/-- An instruction that no halt precedes reaches WB in two cycles an instruction. -/
theorem exists_committed_le (h : ∀ k < m, (program p d k).haltNow = false) :
    ∃ n ≤ 2 * m + 4, RunningBefore p d n ∧ m ≤ (slots p d n).base := by
  have hle := leaveId_le (program p d) m
  rcases running_or_firstHalt (p := p) (d := d) (leaveId (program p d) m + 3) with hr | hr
  · exact ⟨_, by omega, hr, (wb_at hr).2.ge⟩
  · obtain ⟨n, hn, hrun, hh⟩ := hr
    refine ⟨n, by omega, hrun, ?_⟩
    by_contra hlt
    have hhalt := (haltsAt_of_halted hrun hh).1.1
    rw [h _ (by omega)] at hhalt
    cases hhalt

/-- What `top` has reported in `m` cycles before it halts, the pipeline has reported after
`2 * m + 4`; and where `top` halts at cycle `H`, the pipeline does at one from `H + 4` to
`2 * H + 4`. -/
structure KeepsUp (u : TopPipeline p) (v : Top p) : Prop where
  regWrites : ∀ m, (∀ k < m, (run Top.clock v k).halted = false) →
    trace Top.clock Top.regWrites v m <+:
      trace TopPipeline.clock TopPipeline.regWrites u (2 * m + 4)
  stores : ∀ m, (∀ k < m, (run Top.clock v k).halted = false) →
    trace Top.clock Top.stores v m <+: trace TopPipeline.clock TopPipeline.stores u (2 * m + 4)
  halts : ∀ H, FirstAt Top.clock (fun s => s.halted = true) v H →
    ∃ n, H + 4 ≤ n ∧ n ≤ 2 * H + 4 ∧ FirstAt TopPipeline.clock (fun s => s.halted = true) u n

/-- The pipeline keeps up with `top` at half its speed, whatever the program. -/
theorem pipeline_keeps_up (u : TopPipeline p) (v : Top p) (hd : u.dmem = v.dmem) :
    KeepsUp (u.edge true) (v.edge true) := by
  rw [u.edge_rst, v.edge_rst, hd]
  constructor
  · intro m hm
    have hh := running_of_not_halted hm
    obtain ⟨n, hn, hrun, hb⟩ := exists_committed_le hh
    rw [top_trace_eq (fun k hk => hh k (by omega))]
    exact (trace_mono hb).trans (regWrites_trace_eq hrun ▸ trace_mono hn)
  · intro m hm
    have hh := running_of_not_halted hm
    obtain ⟨n, hn, hrun, hb⟩ := exists_committed_le hh
    rw [top_trace_eq (fun k hk => hh k (by omega))]
    exact (trace_mono (hb.trans slots_base_le)).trans (stores_trace_eq hrun ▸ trace_mono hn)
  · intro H hH
    have hk := firstAt_top_iff.mp hH
    have hlo := le_leaveId (program p v.dmem) H
    have hhi := leaveId_le (program p v.dmem) H
    exact ⟨_, by omega, by omega, firstAt_pipeline_iff.mpr ⟨H, hk, rfl⟩⟩

theorem pipeline_keeps_up_storeCore :
    KeepsUp ((TopPipeline.reset storeCore fun _ => 0#32).edge true)
      ((Top.reset storeCore fun _ => 0#32).edge true) :=
  pipeline_keeps_up _ _ rfl

end Progress
end RiscForge.Rtl
