import RiscForge.Refmodel.Reports
import RiscForge.Rtl.Units

/-! The writes that the emulator's trace reports, and those that the RTL's control bundle asks for. -/
namespace RiscForge.Lockstep

open Lib Rtl Refmodel

section Control
variable {w : Word}

/-- The instruction groups that write `rd`, and the one that writes the memory. -/
def writesRd : Opcode → Bool
  | .lui | .auipc | .jal | .jalr | .load | .imm | .reg => true
  | _ => false

theorem decoder_writes {o : Opcode} (ho : opcode w = some o) (hl : (decoder w).illegal = false) :
    (decoder w).regWrite = writesRd o ∧ ((decoder w).memWrite = true ↔ o = .store) := by
  cases o with
  | lui | auipc | jal | jalr | fence => simp [decoder, ho, nopCtrl, writesRd]
  | system => simp [decoder, ho, nopCtrl, writesRd, apply_ite]
  | branch =>
    simp only [decoder, ho, decodeBranch] at hl ⊢
    split <;> simp [nopCtrl, writesRd]
  | load =>
    simp only [decoder, ho, decodeLoad] at hl ⊢
    split at hl <;> simp_all [nopCtrl, writesRd]
  | store =>
    simp only [decoder, ho, decodeStore] at hl ⊢
    split at hl <;> simp_all [nopCtrl, writesRd]
  | imm =>
    simp only [decoder, ho, decodeImm] at hl ⊢
    split <;> simp [nopCtrl, writesRd]
  | reg =>
    simp only [decoder, ho, decodeReg] at hl ⊢
    split <;> simp [nopCtrl, writesRd]

end Control

section Reported
variable {s s' : RV32I} {tr : StepTrace} {w : Word}

/-- The trace reports a write exactly when the hardware performs one. -/
structure ReportsWrites (tr : StepTrace) (w : Word) : Prop where
  rd : tr.rdWrite.isSome = true ↔ (decoder w).regWrite = true ∧ rdIdx w ≠ 0#5
  mem : tr.memWrite.isSome = true ↔ (decoder w).memWrite = true

theorem tracesRd_iff (o : Opcode) :
    tracesRd (some o) = true ↔ writesRd o = true ∨ o = .system := by
  cases o <;> simp [tracesRd, writesRd]

theorem reports_writes_iff (h : step s = .ok tr s') (hw : tr.inst = w.toNat)
    (hl : (decoder w).illegal = false) :
    ReportsWrites tr w ↔ ¬ (opcode w = some .system ∧ rdIdx w ≠ 0#5) := by
  obtain ⟨t, next, hs⟩ := step_eq_ok h
  have hc := execute_changes hs.execute
  have hop := opcode_eq w
  have hrd : rdField tr.inst ≠ 0 ↔ rdIdx w ≠ 0#5 := by
    rw [hw, rdField_eq, Ne, Ne, ← BitVec.toNat_inj, Nat.cast_eq_zero]
    rfl
  have hsome : tr.rdWrite.isSome = true ↔ rdIdx w ≠ 0#5 ∧ tracesRd (opcode w) = true := by
    rw [hs.rdWrite, ← hrd, ← hop, ← hw]
    split_ifs with hr <;> simp [hr]
  have hmem : tr.memWrite.isSome = true ↔ opcode w = some .store := by
    rw [hc.reports, hw, hop]
  cases ho : opcode w with
  | none =>
    rw [decoder, ho] at hl
    cases hl
  | some o =>
    obtain ⟨h1, h2⟩ := decoder_writes ho hl
    rw [ho, Option.some.injEq] at hmem
    rw [ho, tracesRd_iff] at hsome
    have hm : tr.memWrite.isSome = true ↔ (decoder w).memWrite = true := by rw [hmem, h2]
    rw [Option.some.injEq]
    constructor
    · rintro ⟨hrd, -⟩ ⟨rfl, hne⟩
      have hx := (hrd.mp (hsome.mpr ⟨hne, .inr rfl⟩)).1
      rw [h1] at hx
      cases hx
    · intro hn
      refine ⟨?_, hm⟩
      rw [hsome, h1]
      constructor
      · rintro ⟨hne, hr | rfl⟩
        · exact ⟨hr, hne⟩
        · exact (hn ⟨rfl, hne⟩).elim
      · rintro ⟨hr, hne⟩
        exact ⟨hne, .inl hr⟩

theorem reports_writes_iff_storeCpu : ∃ tr s', step storeCpu = .ok tr s' ∧
    (ReportsWrites tr 0x00202423#32 ↔
      ¬ (opcode 0x00202423#32 = some .system ∧ rdIdx 0x00202423#32 ≠ 0#5)) := by
  have hr : (resultOf step storeCpu).map StepTrace.inst = some 0x00202423 := by decide +kernel
  obtain ⟨tr, ht, hi⟩ := Option.map_eq_some_iff.mp hr
  obtain ⟨s', h⟩ := resultOf_eq_some.mp ht
  exact ⟨tr, s', h, reports_writes_iff h hi (by decide)⟩

/-- An ECALL word with `rd` set to `x1`. -/
def ecallCpu : RV32I := { RV32I.init 4 0 0x1000 false with mem := [0xF3, 0x00, 0x00, 0x00] }

/-- The emulator reports a write of `x1`, which the hardware does not perform. -/
theorem ecallCpu_reports : (decoder 0x000000F3#32).illegal = false ∧
    ∃ tr s', step ecallCpu = .ok tr s' ∧ tr.inst = (0x000000F3#32).toNat ∧
      tr.rdWrite = some (1, 0) ∧ ¬ ReportsWrites tr 0x000000F3#32 := by
  refine ⟨by decide, ?_⟩
  have hr : (resultOf step ecallCpu).map (fun tr => (tr.inst, tr.rdWrite)) =
      some (0xF3, some (1, 0)) := by decide +kernel
  obtain ⟨tr, ht, hi⟩ := Option.map_eq_some_iff.mp hr
  obtain ⟨s', h⟩ := resultOf_eq_some.mp ht
  obtain ⟨hinst, hrd⟩ := Prod.mk.inj hi
  refine ⟨tr, s', h, hinst, hrd, fun hr => ?_⟩
  have hw := (hr.rd.mp (by rw [hrd]; rfl)).1
  revert hw
  decide

end Reported
end RiscForge.Lockstep
