import RiscForge.Refmodel.Access

/-! One step of the emulator is the manual's effect of the decoded instruction. -/
namespace RiscForge.Refmodel

open Lib Rtl Isa

section Arithmetic
variable {s : RV32I} {pc : ℤ} (a b : Word)

theorem u32_toNat : u32 (a.toNat : ℤ) = (a.toNat : ℤ) := by rw [u32_eq, ofInt_toNat]

theorem u32_toInt : u32 a.toInt = (a.toNat : ℤ) := by rw [u32_eq, BitVec.ofInt_toInt]

theorem s32_toNat : s32 (a.toNat : ℤ) = a.toInt := by rw [s32_eq, ofInt_toNat]

theorem s32_toInt : s32 a.toInt = a.toInt := by rw [s32_eq, BitVec.ofInt_toInt]

theorem u32_add : u32 ((a.toNat : ℤ) + (b.toNat : ℤ)) = ((a + b).toNat : ℤ) := by
  rw [u32_eq, BitVec.ofInt_add, ofInt_toNat, ofInt_toNat]

theorem u32_add_toInt : u32 ((a.toNat : ℤ) + b.toInt) = ((a + b).toNat : ℤ) := by
  rw [u32_eq, BitVec.ofInt_add, ofInt_toNat, BitVec.ofInt_toInt]

theorem u32_sub : u32 ((a.toNat : ℤ) - (b.toNat : ℤ)) = ((a - b).toNat : ℤ) := by
  rw [u32_eq, ofInt_sub, ofInt_toNat, ofInt_toNat]

theorem u32_add_four : u32 ((a.toNat : ℤ) + 4) = ((a + 4#32).toNat : ℤ) := u32_add a 4#32

theorem toInt_eq_emod : ∃ k : ℤ, b.toInt = (b.toNat : ℤ) + 32 * k := by
  rw [BitVec.toInt_eq_toNat_cond]
  split
  · exact ⟨0, by omega⟩
  · exact ⟨-2 ^ 27, by omega⟩

/-- The shift amount, of a register or of an immediate. -/
theorem shamt_toNat : ((b.toNat : ℤ) &&& 0x1F).toNat = b.toNat % 32 := by
  have h : (b.toNat : ℤ) &&& 0x1F = ((b.toNat % 2 ^ 5 : ℕ) : ℤ) := and_mask_natCast _ 5
  rw [h]
  rfl

theorem shamt_toInt : (b.toInt &&& 0x1F).toNat = b.toNat % 32 := by
  have h : b.toInt &&& 0x1F = ((BitVec.ofInt 5 b.toInt).toNat : ℤ) := and_mask _ (w := 5)
  obtain ⟨k, hk⟩ := toInt_eq_emod b
  rw [h, BitVec.toNat_ofInt, hk]
  omega

theorem ite_toNat {p : Prop} [Decidable p] :
    (if p then (1 : ℤ) else 0) = ((if p then 1#32 else 0#32 : Word).toNat : ℤ) := by
  split <;> rfl

theorem sra_eq (n : ℕ) : u32 (s32 (a.toNat : ℤ) >>> n) = ((a.sshiftRight n).toNat : ℤ) := by
  rw [s32_toNat, u32_eq]
  rfl

theorem srl_eq (n : ℕ) : u32 (a.toNat : ℤ) >>> n = ((a >>> n).toNat : ℤ) := by
  rw [u32_toNat, natCast_shiftRight, BitVec.toNat_ushiftRight]

theorem sll_eq (n : ℕ) : u32 ((a.toNat : ℤ) <<< n) = ((a <<< n).toNat : ℤ) := by
  rw [u32_eq, ofInt_shiftLeft, ofInt_toNat]

theorem branchTaken_run {f3 : BitVec 3} {c : F3Branch} (hc : BitEnum.ofBits f3 = some c) :
    branchTaken f3.toNat a.toNat b.toNat pc s = .ok (branchCond a b c) s := by
  rw [← IntEnum.ofValue_toNat] at hc
  cases c <;>
    simp [branchTaken, hc, branchCond, s32_toNat, u32_toNat, BitVec.toNat_inj]

theorem funct7_eq_iff (f7 g : BitVec 7) : ((f7.toNat : ℤ) = (g.toNat : ℤ)) ↔ f7 = g := by
  rw [Nat.cast_inj, BitVec.toNat_inj]

theorem aluReg_run {f3 : BitVec 3} {f7 : BitVec 7} {f : F3Op} {o : Op}
    (hf : BitEnum.ofBits f3 = some f) (ho : decodeOp f f7 = some o) :
    aluReg f3.toNat f7.toNat a.toNat b.toNat pc s = .ok ((o.eval a b).toNat : ℤ) s := by
  rw [← IntEnum.ofValue_toNat] at hf
  cases f with
  | addSub =>
    simp only [decodeOp] at ho
    split at ho
    case isTrue h0 =>
      cases ho
      simp only [aluReg, hf, h0, u32_add]
      rfl
    case isFalse h0 =>
      split at ho
      case isTrue h1 =>
        cases ho
        simp only [aluReg, hf, h1, u32_sub]
        rfl
      case isFalse h1 => cases ho
  | sr =>
    simp only [decodeOp] at ho
    split at ho
    case isTrue h0 =>
      cases ho
      simp only [aluReg, hf, h0, srl_eq, shamt_toNat]
      rfl
    case isFalse h0 =>
      split at ho
      case isTrue h1 =>
        cases ho
        simp only [aluReg, hf, h1, sra_eq, shamt_toNat]
        rfl
      case isFalse h1 => cases ho
  | sll =>
    cases ho
    simp only [aluReg, hf, sll_eq, shamt_toNat]
    rfl
  | slt =>
    cases ho
    simp only [aluReg, hf, s32_toNat, ite_toNat]
    rfl
  | sltu =>
    cases ho
    simp only [aluReg, hf, u32_toNat, ite_toNat, Nat.cast_lt]
    rfl
  | xor =>
    cases ho
    simp only [aluReg, hf, u32_eq, ofInt_xor, ofInt_toNat]
    rfl
  | or =>
    cases ho
    simp only [aluReg, hf, u32_eq, ofInt_or, ofInt_toNat]
    rfl
  | and =>
    cases ho
    simp only [aluReg, hf, u32_eq, ofInt_and, ofInt_toNat]
    rfl

theorem aluImm_run {f3 : BitVec 3} {w : Word} {f : F3Op} {o : Op}
    (hf : BitEnum.ofBits f3 = some f) (ho : decodeOpImm f (funct7 w) = some o) :
    aluImm f3.toNat a.toNat b.toInt w.toNat pc s = .ok ((o.eval a b).toNat : ℤ) s := by
  rw [← IntEnum.ofValue_toNat] at hf
  cases f with
  | addSub =>
    cases ho
    simp only [aluImm, hf, u32_add_toInt]
    rfl
  | sr =>
    simp only [decodeOpImm, decodeOp, reduceCtorEq, if_false] at ho
    split at ho
    case isTrue h0 =>
      cases ho
      simp only [aluImm, hf, funct7Field_eq, h0, srl_eq, shamt_toInt]
      rfl
    case isFalse h0 =>
      split at ho
      case isTrue h1 =>
        cases ho
        simp only [aluImm, hf, funct7Field_eq, h1, sra_eq, shamt_toInt]
        rfl
      case isFalse h1 => cases ho
  | sll =>
    cases ho
    simp only [aluImm, hf, sll_eq, shamt_toInt]
    rfl
  | slt =>
    cases ho
    simp only [aluImm, hf, s32_toNat, s32_toInt, ite_toNat]
    rfl
  | sltu =>
    cases ho
    simp only [aluImm, hf, u32_toNat, u32_toInt, ite_toNat, Nat.cast_lt]
    rfl
  | xor =>
    cases ho
    simp only [aluImm, hf, u32_eq, ofInt_xor, ofInt_toNat, BitVec.ofInt_toInt]
    rfl
  | or =>
    cases ho
    simp only [aluImm, hf, u32_eq, ofInt_or, ofInt_toNat, BitVec.ofInt_toInt]
    rfl
  | and =>
    cases ho
    simp only [aluImm, hf, u32_eq, ofInt_and, ofInt_toNat, BitVec.ofInt_toInt]
    rfl

end Arithmetic
section State
variable {s : RV32I} {pc : Word} {x : BitVec 5 → Word}

/-- The emulator is at `pc` with the register values `x`. -/
structure Holds (s : RV32I) (pc : Word) (x : BitVec 5 → Word) : Prop where
  pc : s.pc = pc.toNat
  zero : x 0#5 = 0#32
  regs : ∀ i, i ≠ 0#5 → s.regs i = ((x i).toNat : ℤ)

theorem Holds.r (h : Holds s pc x) (i : BitVec 5) : s.r i.toNat = ((x i).toNat : ℤ) := by
  by_cases hi : i = 0#5
  · simp [RV32I.r, hi, h.zero]
  · have hne : (i.toNat : ℤ) ≠ 0 := by
      intro h0
      exact hi (BitVec.eq_of_toNat_eq (by simpa using h0))
    rw [RV32I.r, if_neg hne, ofInt_toNat, h.regs i hi]

/-- The register file after a write of `v` to `rd`. -/
def RV32I.regsWith (s : RV32I) (rd : BitVec 5) (v : Word) : BitVec 5 → ℤ :=
  if rd = 0#5 then s.regs else Function.update s.regs rd (v.toNat : ℤ)

theorem wr_eq (rd : BitVec 5) (v : Word) :
    s.wr rd.toNat v.toNat = { s with regs := s.regsWith rd v } := by
  by_cases hi : rd = 0#5
  · subst hi
    simp [RV32I.wr, RV32I.regsWith]
  · have hne : (rd.toNat : ℤ) ≠ 0 := by
      intro h0
      exact hi (BitVec.eq_of_toNat_eq (by simpa using h0))
    rw [RV32I.wr, if_pos hne, ofInt_toNat, u32_toNat, RV32I.regsWith, if_neg hi]

/-- The registers and the memory after an effect. -/
def RV32I.write (s : RV32I) (e : Effect) : RV32I :=
  { s with
    regs := match e.rd with
      | some (rd, v) => s.regsWith rd v
      | none => s.regs
    mem := match e.store with
      | some (a, k, v) => s.storeMem a v (Isa.storeSize k)
      | none => s.mem }

section Write
variable {s : RV32I} {e : Effect}

theorem RV32I.write_regs_none (h : e.rd = none) : (s.write e).regs = s.regs := by
  simp only [RV32I.write, h]

theorem RV32I.write_regs_some {rd : BitVec 5} {v : Word} (h : e.rd = some (rd, v)) :
    (s.write e).regs = s.regsWith rd v := by
  simp only [RV32I.write, h]

theorem RV32I.write_mem_none (h : e.store = none) : (s.write e).mem = s.mem := by
  simp only [RV32I.write, h]

theorem RV32I.write_mem_some {a v : Word} {k : F3Store} (h : e.store = some (a, k, v)) :
    (s.write e).mem = s.storeMem a v (Isa.storeSize k) := by
  simp only [RV32I.write, h]

end Write

/-- The state after an instruction with the effect `e`: nothing else changes. -/
def RV32I.apply (s : RV32I) (e : Effect) : RV32I :=
  { s.write e with pc := e.nextPc.toNat, steps := s.steps + 1 }

/-- How the trace reports the store of an effect. -/
def memWriteOf (e : Effect) : Option (ℤ × ℤ × ℤ) :=
  e.store.map fun w => ((w.1.toNat : ℤ), (w.2.2.toNat : ℤ), (Isa.storeSize w.2.1 : ℤ))

end State

section Execute
variable {s : RV32I} {pc w : Word} {x : BitVec 5 → Word} {i : Insn}

theorem jumpTarget_ok {what : String} {p : ℤ} {t : Word} (h : t.toNat % 4 = 0) :
    jumpTarget what t.toNat p s = .ok (t.toNat : ℤ) s := by
  rw [jumpTarget, and_three, if_neg (by omega)]
  rfl

theorem jumpTarget_error (what : String) (p : ℤ) {t : Word} (h : t.toNat % 4 ≠ 0) :
    ∃ d, jumpTarget what t.toNat p s = .error (.trap ⟨.misalignedFetch, p, d⟩) s := by
  rw [jumpTarget, and_three, if_pos (by omega)]
  exact ⟨_, rfl⟩

theorem jalrTarget_eq (a b : Word) :
    u32 ((a.toNat : ℤ) + b.toInt &&& ~~~1) = (((a + b) &&& ~~~1#32).toNat : ℤ) := by
  rw [u32_eq, ofInt_and, BitVec.ofInt_add, ofInt_toNat, BitVec.ofInt_toInt]
  rfl

/-- The conditions under which an instruction completes: an aligned jump target, and an aligned
access inside the memory that is not a store to `tohost`. -/
structure Completes (s : RV32I) (pc : Word) (x : BitVec 5 → Word) (i : Insn) : Prop where
  target : ∀ t, i.target pc x = some t → t.toNat % 4 = 0
  aligned : ∀ a n, i.access x = some (a, n) → a.toNat % n = 0
  inMem : ∀ a n, i.access x = some (a, n) → InMem s a.toNat n
  notTohost : ∀ a k v, i.stored x = some (a, k, v) → (a.toNat : ℤ) ≠ s.tohostAddr

theorem ofValue_funct3 {α : Type} [BitEnum α 3] [IntEnum α] {f3 : BitVec 3} {a : α}
    (hk : BitEnum.ofBits f3 = some a) : IntEnum.ofValue (f3.toNat : ℤ) = some a := by
  rw [IntEnum.ofValue_toNat, hk]

/-- A decoded store, down to the call of `store`. -/
theorem execute_store {k : F3Store} (h : Holds s pc x) (ho : opcode w = some .store)
    (hk : BitEnum.ofBits (funct3 w) = some k) :
    execute pc.toNat w.toNat s = (do
      store (x (rs1Idx w) + Rtl.immS w).toNat (x (rs2Idx w)).toNat (Isa.storeSize k)
      return (((pc + 4#32).toNat : ℤ), some (((x (rs1Idx w) + Rtl.immS w).toNat : ℤ),
        ((x (rs2Idx w)).toNat : ℤ), (Isa.storeSize k : ℤ))) : Emu _) s := by
  have hop := opcode_eq w
  rw [ho] at hop
  simp only [execute, get_bind, hop, funct3Field_eq, rs1Field_eq, rs2Field_eq, h.r, immS_eq,
    u32_add_four, u32_add_toInt, u32_toNat]
  rw [bind_ok (storeSize_run (ofValue_funct3 hk))]

/-- Executing a decoded instruction that completes has the manual's effect. -/
theorem execute_ok (h : Holds s pc x) (hd : decode w = some i)
    (hc : Completes s pc x i) (he : i ≠ .ecall) (hb : i ≠ .ebreak) :
    execute pc.toNat w.toNat s =
      .ok (((i.effect pc x s.byte).nextPc.toNat : ℤ),
        memWriteOf (i.effect pc x s.byte)) (s.write (i.effect pc x s.byte)) := by
  have hop := opcode_eq w
  cases decodes_of_decode hd with
  | lui ho =>
    rw [ho] at hop
    simp only [execute, get_bind, hop, rdField_eq, immU_eq, u32_add_four]
    rw [bind_ok wr_run, wr_eq]
    rfl
  | auipc ho =>
    rw [ho] at hop
    simp only [execute, get_bind, hop, rdField_eq, immU_eq, u32_add_four, u32_add]
    rw [bind_ok wr_run, wr_eq]
    rfl
  | jal ho =>
    rw [ho] at hop
    simp only [execute, get_bind, hop, rdField_eq, immJ_eq, u32_add_four, u32_add_toInt]
    rw [bind_ok (jumpTarget_ok (hc.target _ rfl)), bind_ok wr_run, wr_eq]
    rfl
  | jalr ho =>
    rw [ho] at hop
    simp only [execute, get_bind, hop, rdField_eq, rs1Field_eq, h.r, immI_eq, u32_add_four,
      jalrTarget_eq]
    rw [bind_ok (jumpTarget_ok (hc.target _ rfl)), bind_ok wr_run, wr_eq]
    rfl
  | @branch c ho hk =>
    rw [ho] at hop
    simp only [execute, get_bind, hop, funct3Field_eq, rs1Field_eq, rs2Field_eq, h.r, immB_eq,
      u32_add_four, u32_add_toInt]
    rw [bind_ok (branchTaken_run _ _ hk)]
    cases ht : branchCond (x (rs1Idx w)) (x (rs2Idx w)) c with
    | true =>
      have htarget := hc.target (pc + Rtl.immB w) (by simp [Insn.target, ht])
      rw [if_pos rfl, bind_ok (jumpTarget_ok htarget)]
      simp [Insn.effect, Insn.target, ht, memWriteOf, RV32I.write, Insn.result, Insn.stored]
    | false =>
      rw [if_neg (by simp)]
      simp [Insn.effect, Insn.target, ht, memWriteOf, RV32I.write, Insn.result, Insn.stored]
  | @load k ho hk =>
    rw [ho] at hop
    simp only [execute, get_bind, hop, funct3Field_eq, rs1Field_eq, rdField_eq, h.r, immI_eq,
      u32_add_four, u32_add_toInt]
    have hl := load_ok (s := s) k (hc.aligned _ _ rfl) (hc.inMem _ _ rfl)
    rw [← loadValue_run pc.toNat (ofValue_funct3 hk)] at hl
    rw [bind_ok hl, bind_ok wr_run, wr_eq]
    rfl
  | @store k ho hk =>
    rw [execute_store h ho hk, bind_ok (store_ok (storeSize_cases k)
      (hc.notTohost _ _ _ rfl) (hc.aligned _ _ rfl) (hc.inMem _ _ rfl))]
    rfl
  | opImm ho hk hop' =>
    rw [ho] at hop
    simp only [execute, get_bind, hop, funct3Field_eq, rs1Field_eq, rdField_eq, h.r, immI_eq,
      u32_add_four]
    rw [bind_ok (aluImm_run _ _ hk hop'), bind_ok wr_run, wr_eq]
    rfl
  | op ho hk hop' =>
    rw [ho] at hop
    simp only [execute, get_bind, hop, funct3Field_eq, funct7Field_eq, rs1Field_eq, rs2Field_eq,
      rdField_eq, h.r, u32_add_four]
    rw [bind_ok (aluReg_run _ _ hk hop'), bind_ok wr_run, wr_eq]
    rfl
  | fence ho =>
    rw [ho] at hop
    simp only [execute, get_bind, hop, u32_add_four]
    rfl
  | ecall => exact (he rfl).elim
  | ebreak => exact (hb rfl).elim

end Execute

section Step
variable {s : RV32I} {pc w : Word} {x : BitVec 5 → Word} {i : Insn}

/-- The memory holds the word `w` at the aligned address `pc`. -/
structure Fetches (s : RV32I) (pc w : Word) : Prop where
  aligned : pc.toNat % 4 = 0
  inMem : InMem s pc.toNat 4
  word : unpackFrom s.mem (pc.toNat - s.memBase).toNat 4 = w.toNat

theorem Fetches.run (hf : Fetches s pc w) : fetch pc.toNat s = .ok (w.toNat : ℤ) s := by
  rw [fetch_ok hf.aligned hf.inMem, hf.word]

/-- What the trace of a step says about the instruction `i` at `pc`. -/
structure Traced (tr : StepTrace) (pc w : Word) (memWrite : Option (ℤ × ℤ × ℤ)) : Prop where
  pc : tr.pc = pc.toNat
  inst : tr.inst = w.toNat
  memWrite : tr.memWrite = memWrite

theorem step_of_execute (s' : RV32I) {next : Word} {mw : Option (ℤ × ℤ × ℤ)}
    (hh : s.halted = false) (hp : s.pc = pc.toNat) (hf : Fetches s pc w)
    (hx : execute pc.toNat w.toNat s = .ok ((next.toNat : ℤ), mw) s') :
    ∃ tr, step s = .ok tr { s' with pc := next.toNat, steps := s'.steps + 1 } ∧
      Traced tr pc w mw := by
  simp only [step, get_bind, hh, Bool.false_eq_true, if_false, hp]
  rw [bind_ok hf.run, bind_ok hx]
  exact ⟨_, rfl, rfl, rfl, rfl⟩

theorem step_of_execute_error {e : Raised} (hh : s.halted = false) (hp : s.pc = pc.toNat)
    (hf : Fetches s pc w) (hx : execute pc.toNat w.toNat s = .error e s) :
    step s = .error e s := by
  simp only [step, get_bind, hh, Bool.false_eq_true, if_false, hp]
  rw [bind_ok hf.run, bind_error hx]

theorem step_of_fetch_error {e : Raised} (hh : s.halted = false)
    (hx : fetch s.pc s = .error e s) : step s = .error e s := by
  simp only [step, get_bind, hh, Bool.false_eq_true, if_false]
  rw [bind_error hx]

/-- A step of a decoded instruction that completes has exactly the manual's effect. -/
theorem step_ok (hh : s.halted = false) (h : Holds s pc x) (hf : Fetches s pc w)
    (hd : decode w = some i) (hc : Completes s pc x i) (he : i ≠ .ecall) (hb : i ≠ .ebreak) :
    ∃ tr, step s = .ok tr (s.apply (i.effect pc x s.byte)) ∧
      Traced tr pc w (memWriteOf (i.effect pc x s.byte)) :=
  step_of_execute _ hh h.pc hf (execute_ok h hd hc he hb)

/-- The state after ECALL or EBREAK halted the emulator. -/
def RV32I.haltWith (s : RV32I) (pc : Word) (r : HaltReason) : RV32I :=
  { s with halted := true, haltReason := some r, pc := (pc + 4#32).toNat, steps := s.steps + 1 }

theorem execute_system (ho : opcode w = some .system) (h3 : funct3 w = 0#3) {s' : RV32I} {t : ℤ}
    (hx : system (funct12 w).toNat pc.toNat ((pc + 4#32).toNat : ℤ) s = .ok t s') :
    execute pc.toNat w.toNat s = .ok (t, none) s' := by
  have hop := opcode_eq w
  rw [ho] at hop
  simp only [execute, get_bind, hop, funct3Field_eq, funct12Field_eq, u32_add_four, h3]
  rw [if_pos (by rfl), bind_ok hx]
  rfl

theorem step_ecall (hh : s.halted = false) (hp : s.pc = pc.toNat) (hf : Fetches s pc w)
    (hd : decode w = some .ecall) (ht : s.trapOnEcall = false) :
    ∃ tr, step s = .ok tr (s.haltWith pc .ecall) ∧ Traced tr pc w none := by
  cases decodes_of_decode hd with
  | ecall ho h3 h12 =>
    refine step_of_execute { s with halted := true, haltReason := some .ecall } hh hp hf
      (execute_system ho h3 ?_)
    simp only [system, get_bind, h12, ht]
    rfl

theorem step_ebreak (hh : s.halted = false) (hp : s.pc = pc.toNat) (hf : Fetches s pc w)
    (hd : decode w = some .ebreak) (ht : s.trapOnEcall = false) :
    ∃ tr, step s = .ok tr (s.haltWith pc .ebreak) ∧ Traced tr pc w none := by
  cases decodes_of_decode hd with
  | ebreak ho h3 h12 =>
    refine step_of_execute { s with halted := true, haltReason := some .ebreak } hh hp hf
      (execute_system ho h3 ?_)
    simp only [system, get_bind, h12, ht]
    rfl

/-- The state after a store of `v` to `tohost`. -/
def RV32I.tohost (s : RV32I) (pc v : Word) : RV32I :=
  { s with
    tohostValue := some (v.toNat : ℤ)
    halted := true
    haltReason := some (if v = 1#32 then .tohostPass else .tohostFail)
    pc := (pc + 4#32).toNat
    steps := s.steps + 1 }

theorem step_tohost (hh : s.halted = false) (h : Holds s pc x) (hf : Fetches s pc w)
    (hd : decode w = some i) {a : Word} {k : F3Store} {v : Word}
    (hs : i.stored x = some (a, k, v)) (ht : (a.toNat : ℤ) = s.tohostAddr) :
    ∃ tr, step s = .ok tr (s.tohost pc v) ∧
      Traced tr pc w (memWriteOf (i.effect pc x s.byte)) := by
  cases decodes_of_decode hd with
  | @store k' ho hk =>
    cases hs
    refine step_of_execute { s with
      tohostValue := some ((x (rs2Idx w)).toNat : ℤ)
      halted := true
      haltReason := some (if x (rs2Idx w) = 1#32 then .tohostPass else .tohostFail) } hh h.pc hf ?_
    rw [execute_store h ho hk, bind_ok (store_tohost ht)]
    rfl
  | _ => cases hs

/-- A misaligned load raises, and the state stays as it was. -/
theorem step_misaligned_load (hh : s.halted = false) (h : Holds s pc x) (hf : Fetches s pc w)
    {k : F3Load} {rd rs1 : BitVec 5} {imm : Word} (hd : decode w = some (.load k rd rs1 imm))
    (hm : (x rs1 + imm).toNat % loadSize k ≠ 0) :
    ∃ d, step s = .error (.trap ⟨.misalignedLoad, pc.toNat, d⟩) s := by
  cases decodes_of_decode hd with
  | load ho hk =>
    obtain ⟨d, hl⟩ := load_misaligned (s := s) (loadSize_cases k) hm (loadSigned k)
    have hop := opcode_eq w
    rw [ho] at hop
    rw [← loadValue_run pc.toNat (ofValue_funct3 hk), h.pc] at hl
    refine ⟨d, step_of_execute_error hh h.pc hf ?_⟩
    simp only [execute, get_bind, hop, funct3Field_eq, rs1Field_eq, h.r, immI_eq, u32_add_toInt]
    exact bind_error hl

theorem step_misaligned_store (hh : s.halted = false) (h : Holds s pc x) (hf : Fetches s pc w)
    {k : F3Store} {rs1 rs2 : BitVec 5} {imm : Word}
    (hd : decode w = some (.store k rs1 rs2 imm))
    (ht : ((x rs1 + imm).toNat : ℤ) ≠ s.tohostAddr)
    (hm : (x rs1 + imm).toNat % Isa.storeSize k ≠ 0) :
    ∃ d, step s = .error (.trap ⟨.misalignedStore, pc.toNat, d⟩) s := by
  cases decodes_of_decode hd with
  | store ho hk =>
    obtain ⟨d, hl⟩ := store_misaligned (s := s) (v := x (rs2Idx w)) (storeSize_cases k) ht hm
    rw [h.pc] at hl
    refine ⟨d, step_of_execute_error hh h.pc hf ?_⟩
    rw [execute_store h ho hk]
    exact bind_error hl

/-- A transfer to a misaligned target raises before anything is written. -/
theorem step_misaligned_target (hh : s.halted = false) (h : Holds s pc x) (hf : Fetches s pc w)
    (hd : decode w = some i) {t : Word} (ht : i.target pc x = some t) (hm : t.toNat % 4 ≠ 0) :
    ∃ d, step s = .error (.trap ⟨.misalignedFetch, pc.toNat, d⟩) s := by
  have hop := opcode_eq w
  cases decodes_of_decode hd with
  | jal ho =>
    cases ht
    rw [ho] at hop
    obtain ⟨d, hj⟩ := jumpTarget_error (s := s) "JAL" pc.toNat hm
    refine ⟨d, step_of_execute_error hh h.pc hf ?_⟩
    simp only [execute, get_bind, hop, immJ_eq, u32_add_toInt]
    exact bind_error hj
  | jalr ho =>
    cases ht
    rw [ho] at hop
    obtain ⟨d, hj⟩ := jumpTarget_error (s := s) "JALR" pc.toNat hm
    refine ⟨d, step_of_execute_error hh h.pc hf ?_⟩
    simp only [execute, get_bind, hop, rs1Field_eq, h.r, immI_eq, jalrTarget_eq]
    exact bind_error hj
  | @branch c ho hk =>
    rw [ho] at hop
    simp only [Insn.target, Option.ite_none_right_eq_some, Option.some.injEq] at ht
    obtain ⟨hc, rfl⟩ := ht
    obtain ⟨d, hj⟩ := jumpTarget_error (s := s) "BR" pc.toNat hm
    refine ⟨d, step_of_execute_error hh h.pc hf ?_⟩
    simp only [execute, get_bind, hop, funct3Field_eq, rs1Field_eq, rs2Field_eq, h.r, immB_eq,
      u32_add_toInt]
    rw [bind_ok (branchTaken_run _ _ hk), hc, if_pos rfl]
    exact bind_error hj
  | _ => cases ht

end Step

section AnyRegisters
variable {s : RV32I} {pc w a : Word}

/-- The state after an instruction that only writes `v` to `rd` and goes on at `next`. -/
def RV32I.goOn (s : RV32I) (rd : BitVec 5) (v next : Word) : RV32I :=
  { s with regs := s.regsWith rd v, pc := next.toNat, steps := s.steps + 1 }

theorem RV32I.r_zero : s.r 0 = ((0#32).toNat : ℤ) := by simp [RV32I.r]

theorem RV32I.goOn_r {rd : BitVec 5} {v next : Word} (h : rd ≠ 0#5) :
    (s.goOn rd v next).r rd.toNat = v.toNat := by
  have hne : (rd.toNat : ℤ) ≠ 0 := by
    intro h0
    exact h (BitVec.eq_of_toNat_eq (by simpa using h0))
  rw [RV32I.r, if_neg hne, ofInt_toNat, RV32I.goOn, RV32I.regsWith, if_neg h]
  exact Function.update_self ..

theorem Fetches.goOn {rd : BitVec 5} {v next : Word} (h : Fetches s pc w) :
    Fetches (s.goOn rd v next) pc w := ⟨h.aligned, h.inMem, h.word⟩

/-- These instructions read at most one register, so the other registers may hold anything. -/
theorem step_lui (hh : s.halted = false) (hp : s.pc = pc.toNat) (hf : Fetches s pc w)
    (ho : Rtl.opcode w = some .lui) :
    ∃ tr, step s = .ok tr (s.goOn (rdIdx w) (Rtl.immU w) (pc + 4#32)) := by
  have hop := opcode_eq w
  rw [ho] at hop
  have hx : execute pc.toNat w.toNat s = .ok (((pc + 4#32).toNat : ℤ), none)
      { s with regs := s.regsWith (rdIdx w) (Rtl.immU w) } := by
    simp only [execute, get_bind, hop, rdField_eq, immU_eq, u32_add_four]
    rw [bind_ok wr_run, wr_eq]
    rfl
  obtain ⟨tr, ht, -⟩ := step_of_execute _ hh hp hf hx
  exact ⟨tr, ht⟩

theorem step_auipc (hh : s.halted = false) (hp : s.pc = pc.toNat) (hf : Fetches s pc w)
    (ho : Rtl.opcode w = some .auipc) :
    ∃ tr, step s = .ok tr (s.goOn (rdIdx w) (pc + Rtl.immU w) (pc + 4#32)) := by
  have hop := opcode_eq w
  rw [ho] at hop
  have hx : execute pc.toNat w.toNat s = .ok (((pc + 4#32).toNat : ℤ), none)
      { s with regs := s.regsWith (rdIdx w) (pc + Rtl.immU w) } := by
    simp only [execute, get_bind, hop, rdField_eq, immU_eq, u32_add_four, u32_add]
    rw [bind_ok wr_run, wr_eq]
    rfl
  obtain ⟨tr, ht, -⟩ := step_of_execute _ hh hp hf hx
  exact ⟨tr, ht⟩

theorem step_addi (hh : s.halted = false) (hp : s.pc = pc.toNat) (hf : Fetches s pc w)
    (ho : Rtl.opcode w = some .imm) (h3 : funct3 w = 0#3) (hr : s.r (rs1Idx w).toNat = a.toNat) :
    ∃ tr, step s = .ok tr (s.goOn (rdIdx w) (a + Rtl.immI w) (pc + 4#32)) := by
  have hop := opcode_eq w
  rw [ho] at hop
  have hk : BitEnum.ofBits (funct3 w) = some F3Op.addSub := by
    rw [h3]
    rfl
  have hx : execute pc.toNat w.toNat s = .ok (((pc + 4#32).toNat : ℤ), none)
      { s with regs := s.regsWith (rdIdx w) (a + Rtl.immI w) } := by
    simp only [execute, get_bind, hop, funct3Field_eq, rs1Field_eq, rdField_eq, hr, immI_eq,
      u32_add_four]
    rw [bind_ok (aluImm_run a (Rtl.immI w) (o := .add) hk rfl), bind_ok wr_run]
    change EStateM.Result.ok _ (s.wr (rdIdx w).toNat (a + Rtl.immI w).toNat) = _
    rw [wr_eq]
  obtain ⟨tr, ht, -⟩ := step_of_execute _ hh hp hf hx
  exact ⟨tr, ht⟩

theorem step_jalr (hh : s.halted = false) (hp : s.pc = pc.toNat) (hf : Fetches s pc w)
    (ho : Rtl.opcode w = some .jalr) (hr : s.r (rs1Idx w).toNat = a.toNat) {t : Word}
    (ht : (a + Rtl.immI w) &&& ~~~1#32 = t) (h4 : t.toNat % 4 = 0) :
    ∃ tr, step s = .ok tr (s.goOn (rdIdx w) (pc + 4#32) t) := by
  have hop := opcode_eq w
  rw [ho] at hop
  have hx : execute pc.toNat w.toNat s = .ok ((t.toNat : ℤ), none)
      { s with regs := s.regsWith (rdIdx w) (pc + 4#32) } := by
    simp only [execute, get_bind, hop, rdField_eq, rs1Field_eq, hr, immI_eq, u32_add_four,
      jalrTarget_eq, ht]
    rw [bind_ok (jumpTarget_ok h4), bind_ok wr_run, wr_eq]
    rfl
  obtain ⟨tr, ht, -⟩ := step_of_execute _ hh hp hf hx
  exact ⟨tr, ht⟩

end AnyRegisters
end RiscForge.Refmodel
