import RiscForge.Lib.Align
import RiscForge.Refmodel.Reports

/-! What an executed instruction can do to the whole state, and where it goes next. -/
namespace RiscForge.Refmodel

open Lib Rtl

section Words
variable {v : ℤ}

/-- An unsigned number of 32 bits. -/
def IsWord (v : ℤ) : Prop := 0 ≤ v ∧ v < 2 ^ 32

theorem isWord_zero : IsWord 0 := ⟨le_rfl, by norm_num⟩

theorem isWord_u32 (x : ℤ) : IsWord (u32 x) := by
  rw [u32_emod]
  exact ⟨Int.emod_nonneg x (by norm_num), Int.emod_lt_of_pos x (by norm_num)⟩

theorem u32_of_isWord (h : IsWord v) : u32 v = v := by
  rw [u32_emod]
  exact Int.emod_eq_of_lt h.1 h.2

theorem u32_mod_four (x : ℤ) : u32 x % 4 = x % 4 := by
  rw [u32_emod]
  omega

theorem and_three_int (x : ℤ) : x &&& 0x3 = x % 4 := and_mask_emod x (w := 2)

/-- The vector of a trap in direct mode is a multiple of 4. -/
theorem u32_clear_mode (x : ℤ) : u32 (x &&& ~~~0x3) % 4 = 0 := by
  rw [u32_mod_four, show x &&& ~~~(0x3 : ℤ) = x - x % 4 from and_not_mask x 2]
  omega

end Words

section Instructions
variable (s : RV32I) (inst : ℤ)

/-- A SYSTEM word without a CSR operation, told by `funct12`. -/
def IsSystem (f12 : ℤ) : Prop :=
  IntEnum.ofValue (opcodeField inst) = some Opcode.system ∧ funct3Field inst = 0 ∧
    funct12Field inst = f12

/-- ECALL or EBREAK. -/
def IsTrapCall : Prop := IsSystem inst f12Ecall ∨ IsSystem inst f12Ebreak

/-- The source of a CSR instruction: its immediate or a register. -/
def csrSource : ℤ :=
  if funct3Field inst &&& 0b100 ≠ 0 then rs1Field inst else s.r (rs1Field inst)

/-- A CSR instruction that writes `csr`: set and clear do not if their source is zero. -/
def WritesCsr (csr : ℤ) : Prop :=
  IntEnum.ofValue (opcodeField inst) = some Opcode.system ∧ funct3Field inst ≠ 0 ∧
    funct3Field inst ≠ 0b100 ∧ funct12Field inst = csr ∧
      (funct3Field inst &&& 0b011 = 0b01 ∨ csrSource s inst ≠ 0)

end Instructions

/-- Everything that executing `inst` at `pc` may change, from `s` to `t`, and the pc after it. -/
structure Frame (pc inst : ℤ) (s t : RV32I) (next : ℤ) : Prop where
  regs : t.regs = s.regs ∨ ∃ i v, i ≠ 0#5 ∧ t.regs = Function.update s.regs i (u32 v)
  memLength : t.mem.length = s.mem.length
  csrs : ∀ csr, t.csrs csr = s.csrs csr ∨
    (∃ v, t.csrs csr = some (u32 v)) ∧ (WritesCsr s inst csr ∨ IsTrapCall inst)
  halts : (t.halted = s.halted ∧ t.haltReason = s.haltReason ∧ t.tohostValue = s.tohostValue) ∨
    (t.halted = true ∧ t.haltReason.isSome = true)
  samePc : t.pc = s.pc
  sameSteps : t.steps = s.steps
  word : IsWord next
  aligned : pc % 4 = 0 → ¬ IsSystem inst f12Mret → next % 4 = 0

section Methods
variable {s s' : RV32I} {pc inst next v : ℤ}

theorem rdField_ne_zero (h : rdField inst ≠ 0) : BitVec.ofInt 5 (rdField inst) ≠ 0#5 := by
  have hr : rdField inst = ((BitVec.ofInt 5 (inst >>> 7)).toNat : ℤ) := and_mask _ (w := 5)
  rw [hr, ofInt_toNat]
  intro h0
  rw [hr, h0] at h
  exact h rfl

/-- An instruction that changes nothing, or one register. -/
theorem frame_refl (hw : IsWord next) (ha : pc % 4 = 0 → ¬ IsSystem inst f12Mret → next % 4 = 0) :
    Frame pc inst s s next where
  regs := .inl rfl
  memLength := rfl
  csrs _ := .inl rfl
  halts := .inl ⟨rfl, rfl, rfl⟩
  samePc := rfl
  sameSteps := rfl
  word := hw
  aligned := ha

theorem Frame.wr {t : RV32I} (h : Frame pc inst s t next) (hr : t.regs = s.regs) :
    Frame pc inst s (t.wr (rdField inst) v) next := by
  by_cases h0 : rdField inst = 0
  · rwa [RV32I.wr, if_neg (not_not.mpr h0)]
  · rw [RV32I.wr, if_pos h0]
    exact { h with regs := .inr ⟨_, v, rdField_ne_zero h0, congrArg (Function.update · _ _) hr⟩ }

/-- The pc after an instruction that does not jump. -/
theorem nextPc_aligned (h : pc % 4 = 0) : u32 (pc + 4) % 4 = 0 := by
  rw [u32_mod_four]
  omega

theorem jumpTarget_eq_ok {what : String} {target : ℤ} (h : jumpTarget what target pc s = .ok v s') :
    v = target ∧ target % 4 = 0 ∧ s' = s := by
  unfold jumpTarget at h
  split at h
  case isTrue => cases h
  case isFalse ha =>
    cases h
    rw [← and_three_int]
    exact ⟨rfl, not_not.mp ha, rfl⟩

/-- The CSRs after a trap from `pc`. -/
def RV32I.trapCsrs (s : RV32I) (pc cause : ℤ) : ℤ → Option ℤ :=
  Function.update (Function.update s.csrs csrMepc (some (u32 pc))) csrMcause (some (u32 cause))

/-- The vector of a trap in direct mode. -/
def RV32I.trapVector (s : RV32I) : ℤ := u32 ((s.csrs csrMtvec).getD 0 &&& ~~~0x3)

theorem takeTrap_run (cause : ℤ) :
    takeTrap pc cause s = .ok s.trapVector { s with csrs := s.trapCsrs pc cause } := rfl

theorem RV32I.trapCsrs_mepc (s : RV32I) (pc cause : ℤ) :
    s.trapCsrs pc cause csrMepc = some (u32 pc) := by
  rw [RV32I.trapCsrs, Function.update_of_ne (by decide), Function.update_self]

theorem RV32I.trapCsrs_mcause (s : RV32I) (pc cause : ℤ) :
    s.trapCsrs pc cause csrMcause = some (u32 cause) :=
  Function.update_self ..

theorem RV32I.trapCsrs_of_ne (s : RV32I) (pc cause : ℤ) {csr : ℤ} (h1 : csr ≠ csrMepc)
    (h2 : csr ≠ csrMcause) :
    s.trapCsrs pc cause csr = s.csrs csr := by
  rw [RV32I.trapCsrs, Function.update_of_ne h2, Function.update_of_ne h1]

theorem frame_takeTrap {cause : ℤ} (hc : IsTrapCall inst) (h : takeTrap pc cause s = .ok next s') :
    Frame pc inst s s' next := by
  rw [takeTrap_run] at h
  cases h
  have hf : Frame pc inst s s s.trapVector := frame_refl (isWord_u32 _) fun _ _ => u32_clear_mode _
  refine { hf with csrs := fun csr => ?_ }
  by_cases h1 : csr = csrMepc
  · subst h1
    exact .inr ⟨⟨pc, s.trapCsrs_mepc pc cause⟩, .inr hc⟩
  · by_cases h2 : csr = csrMcause
    · subst h2
      exact .inr ⟨⟨cause, s.trapCsrs_mcause pc cause⟩, .inr hc⟩
    · exact .inl (s.trapCsrs_of_ne pc cause h1 h2)

theorem frame_halt {r : HaltReason} (ha : pc % 4 = 0 → u32 (pc + 4) % 4 = 0) :
    Frame pc inst s { s with halted := true, haltReason := some r } (u32 (pc + 4)) :=
  have hf : Frame pc inst s s (u32 (pc + 4)) := frame_refl (isWord_u32 _) fun h _ => ha h
  { hf with halts := .inr ⟨rfl, rfl⟩ }

theorem frame_system (ho : IntEnum.ofValue (opcodeField inst) = some Opcode.system)
    (h3 : funct3Field inst = 0)
    (h : system (funct12Field inst) pc (u32 (pc + 4)) s = .ok next s') :
    Frame pc inst s s' next := by
  simp only [system, get_bind] at h
  split at h
  case isTrue he =>
    split at h
    · exact frame_takeTrap (.inl ⟨ho, h3, he⟩) h
    · cases h
      exact frame_halt nextPc_aligned
  case isFalse he =>
    split at h
    case isTrue hb =>
      split at h
      · exact frame_takeTrap (.inr ⟨ho, h3, hb⟩) h
      · cases h
        exact frame_halt nextPc_aligned
    case isFalse hb =>
      split at h
      case isTrue hm =>
        cases h
        exact frame_refl (isWord_u32 _) fun _ hn => (hn ⟨ho, h3, hm⟩).elim
      case isFalse hm =>
        split at h
        · cases h
          exact frame_refl (isWord_u32 _) fun ha _ => nextPc_aligned ha
        · cases h

/-- What a CSR instruction leaves before it writes its register. -/
theorem frame_updateCsr {w : ℤ} (hw : WritesCsr s inst (funct12Field inst)) :
    Frame pc inst s { s with csrs := Function.update s.csrs (funct12Field inst) (some (u32 w)) }
      (u32 (pc + 4)) := by
  have hf : Frame pc inst s s (u32 (pc + 4)) :=
    frame_refl (isWord_u32 _) fun ha _ => nextPc_aligned ha
  refine { hf with csrs := fun csr => ?_ }
  by_cases hc : csr = funct12Field inst
  · subst hc
    have hv : Function.update s.csrs (funct12Field inst) (some (u32 w)) (funct12Field inst) =
        some (u32 w) := Function.update_self ..
    exact .inr ⟨⟨w, hv⟩, .inl hw⟩
  · exact .inl (Function.update_of_ne hc _ _)

theorem frame_zicsr (ho : IntEnum.ofValue (opcodeField inst) = some Opcode.system)
    (h0 : funct3Field inst ≠ 0) (h4 : funct3Field inst ≠ 0b100) {u : Unit}
    (h : zicsr (funct12Field inst) (funct3Field inst) (rs1Field inst) (rdField inst) s = .ok u s') :
    Frame pc inst s s' (u32 (pc + 4)) := by
  have hsame : Frame pc inst s s (u32 (pc + 4)) :=
    frame_refl (isWord_u32 _) fun ha _ => nextPc_aligned ha
  simp only [zicsr, get_bind] at h
  have hsrc : (if funct3Field inst &&& 0b100 ≠ 0 then rs1Field inst else s.r (rs1Field inst)) =
      csrSource s inst := rfl
  rw [hsrc] at h
  split at h
  case isTrue h1 =>
    cases h
    exact (frame_updateCsr ⟨ho, h0, h4, rfl, .inl h1⟩).wr rfl
  case isFalse h1 =>
    split at h
    case isTrue hn =>
      have hw : WritesCsr s inst (funct12Field inst) := ⟨ho, h0, h4, rfl, .inr hn⟩
      split at h
      · cases h
        exact (frame_updateCsr hw).wr rfl
      · split at h
        · cases h
          exact (frame_updateCsr hw).wr rfl
        · cases h
          exact hsame.wr rfl
    case isFalse hn =>
      cases h
      exact hsame.wr rfl

theorem frame_store {addr size : ℤ} {u : Unit} (h : store addr v size s = .ok u s') :
    Frame pc inst s s' (u32 (pc + 4)) := by
  have hf : Frame pc inst s s (u32 (pc + 4)) :=
    frame_refl (isWord_u32 _) fun ha _ => nextPc_aligned ha
  simp only [store, get_bind] at h
  split at h
  · cases h
    exact { hf with halts := .inr ⟨rfl, rfl⟩ }
  · split at h
    · cases h
    · obtain ⟨i, t, hi, h⟩ := run_bind_ok.mp h
      obtain ⟨-, -, rfl⟩ := memIndex_eq_ok hi
      split at h
      · cases h
        exact { hf with memLength := length_packInto .. }
      · split at h <;> cases h
        · exact { hf with memLength := length_packInto .. }
        · exact { hf with memLength := length_packInto .. }

/-- A method that only checks, followed by the write of a register and a jump to a checked pc. -/
theorem frame_checked {α : Type} {x : Emu α} {f g : α → ℤ} {mw : Option (ℤ × ℤ × ℤ)}
    (hx : Checks x)
    (hg : ∀ a, x s = .ok a s → IsWord (g a) ∧ (pc % 4 = 0 → g a % 4 = 0))
    (h : (x >>= fun a => wr (rdField inst) (f a) >>= fun _ => pure (g a, none)) s =
      .ok (next, mw) s') : Frame pc inst s s' next := by
  obtain ⟨a, t, ha, hw⟩ := run_bind_ok.mp h
  obtain rfl := hx.state_eq ha
  cases hw
  obtain ⟨h1, h2⟩ := hg a ha
  exact (frame_refl h1 fun h _ => h2 h).wr rfl

theorem nextPc_checked : IsWord (u32 (pc + 4)) ∧ (pc % 4 = 0 → u32 (pc + 4) % 4 = 0) :=
  ⟨isWord_u32 _, nextPc_aligned⟩

theorem jumpTarget_checked {what : String} {target : ℤ}
    (h : jumpTarget what (u32 target) pc s = .ok v s) : IsWord v ∧ (pc % 4 = 0 → v % 4 = 0) := by
  obtain ⟨rfl, h4, -⟩ := jumpTarget_eq_ok h
  exact ⟨isWord_u32 _, fun _ => h4⟩

theorem execute_frame {mw : Option (ℤ × ℤ × ℤ)} (h : execute pc inst s = .ok (next, mw) s') :
    Frame pc inst s s' next := by
  have hnext : Frame pc inst s s (u32 (pc + 4)) :=
    frame_refl (isWord_u32 _) fun ha _ => nextPc_aligned ha
  simp only [execute, get_bind] at h
  generalize ho : (IntEnum.ofValue (opcodeField inst) : Option Opcode) = op at h
  cases op with
  | none => cases h
  | some o =>
    cases o with
    | lui | auipc =>
      cases h
      exact hnext.wr rfl
    | jal => exact frame_checked (checks_jumpTarget _ _ _) (fun _ ha => jumpTarget_checked ha) h
    | jalr => exact frame_checked (checks_jumpTarget _ _ _) (fun _ ha => jumpTarget_checked ha) h
    | branch =>
      obtain ⟨taken, t, ht, hb⟩ := run_bind_ok.mp h
      obtain rfl := (checks_branchTaken _ _ _ _).state_eq ht
      split at hb
      · obtain ⟨target, t', ht', hp⟩ := run_bind_ok.mp hb
        obtain rfl := (checks_jumpTarget _ _ _).state_eq ht'
        cases hp
        obtain ⟨h1, h2⟩ := jumpTarget_checked ht'
        exact frame_refl h1 fun ha _ => h2 ha
      · cases hb
        exact hnext
    | load => exact frame_checked (checks_loadValue _ _ _) (fun _ _ => nextPc_checked) h
    | store =>
      obtain ⟨size, t, ht, hb⟩ := run_bind_ok.mp h
      obtain rfl := (checks_storeSize _ _).state_eq ht
      obtain ⟨u, t', ht', hp⟩ := run_bind_ok.mp hb
      cases hp
      exact frame_store ht'
    | imm => exact frame_checked (checks_aluImm _ _ _ _ _) (fun _ _ => nextPc_checked) h
    | reg => exact frame_checked (checks_aluReg _ _ _ _ _) (fun _ _ => nextPc_checked) h
    | fence =>
      cases h
      exact hnext
    | system =>
      simp only at h
      split at h
      case isTrue h3 =>
        obtain ⟨target, t, ht, hb⟩ := run_bind_ok.mp h
        cases hb
        exact frame_system ho h3 ht
      case isFalse h3 =>
        split at h
        case isTrue => cases h
        case isFalse h4 =>
          obtain ⟨u, t, ht, hb⟩ := run_bind_ok.mp h
          cases hb
          exact frame_zicsr ho h3 h4 ht

end Methods
end RiscForge.Refmodel
