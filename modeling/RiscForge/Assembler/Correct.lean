import RiscForge.Assembler.Meaning

/-! Executing the word of an accepted line has the effect of the statement it is read as. -/
namespace RiscForge.Assembler

open Lib Rtl Refmodel Isa

section Decoded
variable (rs2 rs1 rd : BitVec 5) (i12 : BitVec 12)

theorem ofInt_value {α : Type} {n : ℕ} [BitEnum α n] [IntEnum α] (a : α) :
    BitVec.ofInt n (IntEnum.value a) = BitEnum.bits a := by
  rw [IntEnum.value_eq_bits, ofInt_toNat]

theorem decode_reg {f3 : F3Op} {f7 : BitVec 7} {o : Op} (h : decodeOp f3 f7 = some o) :
    decode (rWord f7 rs2 rs1 (BitEnum.bits f3) rd (.ofInt 7 (opcodeOf .reg))) =
      some (.op o rd rs1 rs2) := by
  have hd := decode_of_decodes (.op (w := rWord f7 rs2 rs1 (BitEnum.bits f3) rd
    (.ofInt 7 (opcodeOf .reg))) (by rw [Rtl.opcode, opcode_rWord]; rfl)
    (by rw [funct3_rWord, BitEnum.ofBits_bits]) (by rw [funct7_rWord, h]))
  rwa [rdIdx_rWord, rs1Idx_rWord, rs2Idx_rWord] at hd

theorem decode_imm {f3 : F3Op} {o : Op} (h : decodeOpImm f3 (i12.extractLsb' 5 7) = some o) :
    decode (iWord rs1 (BitEnum.bits f3) rd (.ofInt 7 (opcodeOf .imm)) i12) =
      some (.opImm o rd rs1 (i12.signExtend 32)) := by
  have hd := decode_of_decodes (.opImm (w := iWord rs1 (BitEnum.bits f3) rd
    (.ofInt 7 (opcodeOf .imm)) i12) (opcode_iWord_of ..)
    (by rw [funct3_iWord, BitEnum.ofBits_bits]) (by rw [iWord, funct7_rWord, h]))
  rwa [immI_iWord, rdIdx_iWord, rs1Idx_iWord] at hd

/-- The shifts keep `funct7` and the amount where the other immediates have one number. -/
theorem rWord_eq_iWord {f7 : BitVec 7} {f3 : BitVec 3} {opc : BitVec 7} :
    rWord f7 rs2 rs1 f3 rd opc = iWord rs1 f3 rd opc (f7 ++ rs2) := by
  rw [iWord, BitVec.extractLsb'_append_eq_left, BitVec.extractLsb'_append_eq_right]

theorem decode_shift {f3 : F3Op} {f7 : BitVec 7} {o : Op} (h : decodeOpImm f3 f7 = some o) :
    decode (rWord f7 rs2 rs1 (BitEnum.bits f3) rd (.ofInt 7 (opcodeOf .imm))) =
      some (.opImm o rd rs1 ((f7 ++ rs2).signExtend 32)) := by
  rw [rWord_eq_iWord]
  apply decode_imm
  rw [BitVec.extractLsb'_append_eq_left, h]

theorem decode_load (k : F3Load) :
    decode (iWord rs1 (BitEnum.bits k) rd (.ofInt 7 (opcodeOf .load)) i12) =
      some (.load k rd rs1 (i12.signExtend 32)) := by
  have hd := decode_of_decodes (.load (w := iWord rs1 (BitEnum.bits k) rd
    (.ofInt 7 (opcodeOf .load)) i12) (k := k) (opcode_iWord_of ..)
    (by rw [funct3_iWord, BitEnum.ofBits_bits]))
  rwa [immI_iWord, rdIdx_iWord, rs1Idx_iWord] at hd

theorem decode_jalr :
    decode (iWord rs1 0#3 rd (.ofInt 7 (opcodeOf .jalr)) i12) =
      some (.jalr rd rs1 (i12.signExtend 32)) := by
  have hd := decode_of_decodes (.jalr (w := iWord rs1 0#3 rd (.ofInt 7 (opcodeOf .jalr)) i12)
    (opcode_iWord_of ..))
  rwa [immI_iWord, rdIdx_iWord, rs1Idx_iWord] at hd

theorem decode_store (k : F3Store) :
    decode (sWord rs2 rs1 (BitEnum.bits k) (.ofInt 7 (opcodeOf .store)) i12) =
      some (.store k rs1 rs2 (i12.signExtend 32)) := by
  have hd := decode_of_decodes (.store (w := sWord rs2 rs1 (BitEnum.bits k)
    (.ofInt 7 (opcodeOf .store)) i12) (k := k)
    (by rw [sWord, Rtl.opcode, opcode_rWord]; rfl)
    (by rw [sWord, funct3_rWord, BitEnum.ofBits_bits]))
  rw [immS_sWord] at hd
  rwa [sWord, rs1Idx_rWord, rs2Idx_rWord, ← sWord] at hd

variable {v : ℤ}

theorem signExtend_ofInt {n : ℕ} (h : -2 ^ n ≤ v ∧ v < 2 ^ n) :
    (BitVec.ofInt (n + 1) v).signExtend 32 = BitVec.ofInt 32 v := by
  rw [BitVec.signExtend, toInt_ofInt_of_range h]

theorem decode_branch (c : F3Branch) (h : -2 ^ 12 ≤ v ∧ v < 2 ^ 12) (he : v % 2 = 0) :
    decode (bWord rs2 rs1 (BitEnum.bits c) (.ofInt 7 (opcodeOf .branch)) (.ofInt 13 v)) =
      some (.branch c rs1 rs2 (.ofInt 32 v)) := by
  have hd := decode_of_decodes (.branch (w := bWord rs2 rs1 (BitEnum.bits c)
    (.ofInt 7 (opcodeOf .branch)) (.ofInt 13 v)) (c := c)
    (by rw [bWord, Rtl.opcode, opcode_rWord]; rfl)
    (by rw [bWord, funct3_rWord, BitEnum.ofBits_bits]))
  rw [immB_bWord, drop_bit, he, sub_zero, signExtend_ofInt h] at hd
  rwa [bWord, rs1Idx_rWord, rs2Idx_rWord, ← bWord] at hd

theorem decode_jal (h : -2 ^ 20 ≤ v ∧ v < 2 ^ 20) (he : v % 2 = 0) :
    decode (jWord rd (.ofInt 7 (opcodeOf .jal)) (.ofInt 21 v)) = some (.jal rd (.ofInt 32 v)) := by
  have hd := decode_of_decodes (.jal (w := jWord rd (.ofInt 7 (opcodeOf .jal)) (.ofInt 21 v))
    (opcode_uWord_of ..))
  rw [immJ_jWord, drop_bit, he, sub_zero, signExtend_ofInt h] at hd
  rwa [jWord, rdIdx_uWord, ← jWord] at hd

theorem decode_lui : decode (uWord (.ofInt 20 v) rd (.ofInt 7 (opcodeOf .lui))) =
    some (.lui rd (.ofInt 32 (v * 2 ^ 12))) := by
  have hd := decode_of_decodes (.lui (w := uWord (.ofInt 20 v) rd (.ofInt 7 (opcodeOf .lui)))
    (opcode_uWord_of ..))
  rwa [immU_uWord, rdIdx_uWord, ofInt_append_zeros] at hd

theorem decode_auipc : decode (uWord (.ofInt 20 v) rd (.ofInt 7 (opcodeOf .auipc))) =
    some (.auipc rd (.ofInt 32 (v * 2 ^ 12))) := by
  have hd := decode_of_decodes (.auipc (w := uWord (.ofInt 20 v) rd (.ofInt 7 (opcodeOf .auipc)))
    (opcode_uWord_of ..))
  rwa [immU_uWord, rdIdx_uWord, ofInt_append_zeros] at hd

end Decoded

section Execution
variable {s : RV32I} {pc : Word} {x : BitVec 5 → Word} {st : Stmt} {i : Insn} {e e' : Effect}

/-- The targets of the statement are aligned, and its access is aligned, inside the memory and not
a store to `tohost`. -/
structure Proceeds (s : RV32I) (pc : Word) (x : BitVec 5 → Word) (st : Stmt) : Prop where
  label : ∀ target, st.label = some target → target % 4 = 0
  target : (st.effect pc x s.byte).nextPc.toNat % 4 = 0
  aligned : ∀ a n, st.access x = some (a, n) → a.toNat % n = 0
  inMem : ∀ a n, st.access x = some (a, n) → InMem s a.toNat n
  notTohost : ∀ a k v, (st.effect pc x s.byte).store = some (a, k, v) →
    (a.toNat : ℤ) ≠ s.tohostAddr

theorem apply_same (h : e.Same e') : s.apply e = s.apply e' := by
  have hw : s.write e = s.write e' := by
    rcases h.rd with hr | ⟨hr, v, hv⟩
    · simp only [RV32I.write, hr, h.store]
    · simp only [RV32I.write, hr, hv, h.store, RV32I.regsWith, if_true]
  rw [RV32I.apply, RV32I.apply, hw, h.nextPc]

/-- The instruction does what the statement says. -/
structure Implements (i : Insn) (st : Stmt) (pc : Word) (x : BitVec 5 → Word)
    (m : Word → BitVec 8) : Prop where
  same : (i.effect pc x m).Same (st.effect pc x m)
  access : i.access x = st.access x
  ne_ecall : i ≠ .ecall
  ne_ebreak : i ≠ .ebreak

theorem implements_insn (h0 : x 0#5 = 0#32) (m : Word → BitVec 8) :
    Implements (st.insn pc) st pc x m where
  same := Stmt.insn_same h0
  access := by cases st <;> rfl
  ne_ecall := by cases st <;> exact Insn.noConfusion
  ne_ebreak := by cases st <;> exact Insn.noConfusion

/-- A shift only looks at the low five bits of its second operand. -/
theorem implements_shift {o : Op} (ho : o = .sll ∨ o = .srl ∨ o = .sra) {rd rs1 : BitVec 5}
    {imm : ℤ} {b : Word} (hb : b.toNat % 32 = (BitVec.ofInt 32 imm).toNat % 32)
    (m : Word → BitVec 8) :
    Implements (.opImm o rd rs1 b) (.opImm o rd rs1 imm) pc x m where
  same := by
    refine ⟨rfl, rfl, .inl ?_⟩
    have he : o.eval (x rs1) b = o.eval (x rs1) (.ofInt 32 imm) := by
      rcases ho with rfl | rfl | rfl <;> simp only [Op.eval, hb]
    simp only [Insn.effect, Insn.result, he]
    rfl
  access := rfl
  ne_ecall := Insn.noConfusion
  ne_ebreak := Insn.noConfusion

theorem completes_of (hi : Implements i st pc x s.byte) (hp : Proceeds s pc x st) :
    Completes s pc x i where
  target t ht := by
    have hn : (i.effect pc x s.byte).nextPc = t := by rw [Insn.effect, ht]; rfl
    rw [← hn, hi.same.nextPc]
    exact hp.target
  aligned a n h := hp.aligned a n (hi.access ▸ h)
  inMem a n h := hp.inMem a n (hi.access ▸ h)
  notTohost a k v h := hp.notTohost a k v (hi.same.store ▸ h)

variable {ln : Line} {w : Word}

theorem AtLine.fetchesWord (h : AtLine s ln pc [(w.toNat : ℤ)]) : Fetches s pc w := by
  have hf := h.fetches 0 _ rfl
  rwa [ofInt_toNat, Nat.mul_zero, BitVec.add_zero] at hf

theorem step_of_implements (h : AtLine s ln pc [(w.toNat : ℤ)]) (hx : Holds s pc x)
    (hd : decode w = some i) (hi : Implements i st pc x s.byte) (hp : Proceeds s pc x st) :
    ∃ tr, step s = .ok tr (s.apply (st.effect pc x s.byte)) := by
  obtain ⟨tr, ht, -⟩ := step_ok h.running hx h.fetchesWord hd (completes_of hi hp) hi.ne_ecall
    hi.ne_ebreak
  exact ⟨tr, by rw [ht, apply_same hi.same]⟩

end Execution

section Meaning
variable {py : Python} {syms : Syms} {ln : Line} {op : String} {out : List ℤ}

/-- One step at the line has the effect of the statement. -/
def Runs (ln : Line) (out : List ℤ) (st : Stmt) : Prop :=
  ∀ s pc x, AtLine s ln pc out → Holds s pc x → Proceeds s pc x st →
    ∃ tr, step s = .ok tr (s.apply (st.effect pc x s.byte))

/-- The one word of the line decodes to an instruction that does what the statement says. -/
def Stands (ln : Line) (out : List ℤ) (st : Stmt) : Prop :=
  ∃ w : Word, out = [(w.toNat : ℤ)] ∧ ∀ pc : Word, ln.pc = pc.toNat → pc.toNat % 4 = 0 →
    (∀ target, st.label = some target → target % 4 = 0) →
    ∃ i, decode w = some i ∧ ∀ x m, x 0#5 = 0#32 → Implements i st pc x m

theorem Stands.runs {st : Stmt} (h : Stands ln out st) : Runs ln out st := by
  obtain ⟨w, rfl, h⟩ := h
  intro s pc x hl hx hp
  obtain ⟨i, hd, hi⟩ := h pc hl.line hl.fetchesWord.aligned hp.label
  exact step_of_implements hl hx hd (hi x _ hx.zero) hp

theorem stands_of_decode {w : Word} {st : Stmt}
    (h : ∀ pc : Word, ln.pc = pc.toNat → pc.toNat % 4 = 0 →
      (∀ target, st.label = some target → target % 4 = 0) → decode w = some (st.insn pc)) :
    Stands ln [(w.toNat : ℤ)] st := by
  refine ⟨w, rfl, fun pc hl h4 ht => ⟨st.insn pc, h pc hl h4 ht, fun _ m h0 => ?_⟩⟩
  exact implements_insn h0 m

/-- The mnemonics of one word. -/
def oneWord : List String :=
  ["add", "sub", "sll", "slt", "sltu", "xor", "srl", "sra", "or", "and", "addi", "slti", "sltiu",
    "xori", "ori", "andi", "slli", "srli", "srai", "lb", "lh", "lw", "lbu", "lhu", "sb", "sh", "sw",
    "beq", "bne", "blt", "bge", "bltu", "bgeu", "jal", "jalr", "lui", "auipc", "nop", "mv", "not",
    "neg", "j", "jr", "ret", "beqz", "bnez"]

theorem encodeLine_instruction (hop : ln.op = some op)
    (hd : op ∉ [".text", ".data", ".align", ".word", ".byte"]) :
    encodeLine py syms ln = encodeInstruction py syms ln op := by
  simp only [List.mem_cons, List.not_mem_nil, or_false, not_or] at hd
  unfold encodeLine
  split <;> simp_all

theorem oneWord_not_directive :
    ∀ op ∈ oneWord, op ∉ [".text", ".data", ".align", ".word", ".byte"] := by decide

theorem register_of_reg {k : ℕ} {r : ℤ} (h : ln.reg py k = .ok r) :
    ln.Register py k (BitVec.ofInt 5 r) := names_of_parseReg h

/-- The line means a statement and its words do what that says. -/
def Means (py : Python) (syms : Syms) (ln : Line) (op : String) (out : List ℤ) : Prop :=
  ∃ st, Reads py syms ln op st ∧ Runs ln out st

/-- The line means a statement and its word stands for that. -/
def Denotes (py : Python) (syms : Syms) (ln : Line) (op : String) (out : List ℤ) : Prop :=
  ∃ st, Reads py syms ln op st ∧ Stands ln out st

theorem Denotes.means (h : Denotes py syms ln op out) : Means py syms ln op out := by
  obtain ⟨st, hr, hs⟩ := h
  exact ⟨st, hr, hs.runs⟩

theorem rTable_op {f3 : F3Op} {f7 : ℤ} (h : rTable op = some (f3, f7)) :
    ∃ o, op = opMnemonic o ∧ decodeOp f3 (.ofInt 7 f7) = some o := by
  unfold rTable at h
  split at h <;> cases h <;> exact ⟨_, rfl, rfl⟩

theorem denotes_reg {f3 : F3Op} {f7 : ℤ} (ho : rTable op = some (f3, f7))
    (h : encodeR py ln op f3 f7 = .ok out) : Denotes py syms ln op out := by
  obtain ⟨hn, rd, h0, rs1, h1, rs2, h2, rfl⟩ := encodeR_eq_ok.mp h
  obtain ⟨o, rfl, hd⟩ := rTable_op ho
  refine ⟨.op o _ _ _, .op hn (register_of_reg h0) (register_of_reg h1) (register_of_reg h2), ?_⟩
  rw [rType_eq, ofInt_value]
  exact stands_of_decode fun _ _ _ _ => decode_reg _ _ _ hd

theorem iAluTable_op {f3 : F3Op} (h : iAluTable op = some f3) :
    ∃ o, immMnemonic o = some op ∧ ∀ f7, decodeOpImm f3 f7 = some o := by
  unfold iAluTable at h
  split at h <;> cases h
  · exact ⟨.add, rfl, fun _ => rfl⟩
  · exact ⟨.slt, rfl, fun _ => rfl⟩
  · exact ⟨.sltu, rfl, fun _ => rfl⟩
  · exact ⟨.xor, rfl, fun _ => rfl⟩
  · exact ⟨.or, rfl, fun _ => rfl⟩
  · exact ⟨.and, rfl, fun _ => rfl⟩

theorem denotes_imm {f3 : F3Op} (ho : iAluTable op = some f3)
    (h : encodeIAlu py syms ln op f3 = .ok out) : Denotes py syms ln op out := by
  obtain ⟨hn, rd, h0, rs1, h1, imm, h2, hr, rfl⟩ := encodeIAlu_eq_ok.mp h
  obtain ⟨o, hm, hd⟩ := iAluTable_op ho
  refine ⟨.opImm o _ _ imm, .opImm hm hn (register_of_reg h0) (register_of_reg h1) h2, ?_⟩
  rw [iType_eq, ofInt_value, ofInt_toNat]
  apply stands_of_decode
  intro pc _ _ _
  rw [decode_imm _ _ _ (hd _), signExtend_ofInt hr]
  rfl

/-- Whatever `funct7` is, the amount is in the low five bits. -/
theorem shamt_mod (f7 : BitVec 7) {sh : ℤ} (h : Field 5 sh) :
    ((f7 ++ BitVec.ofInt 5 sh).signExtend 32).toNat % 32 = (BitVec.ofInt 32 sh).toNat % 32 := by
  have hsh := h.toNat
  have hlt : (f7 ++ BitVec.ofInt 5 sh).toNat = f7.toNat * 32 + (BitVec.ofInt 5 sh).toNat := by
    rw [BitVec.toNat_append, ← Nat.shiftLeft_add_eq_or_of_lt (BitVec.isLt _), Nat.shiftLeft_eq]
  have h32 : (BitVec.ofInt 32 sh).toNat = (BitVec.ofInt 5 sh).toNat := by
    rw [BitVec.toNat_ofInt]
    have := h.1
    have := h.2
    omega
  rw [BitVec.toNat_signExtend, BitVec.toNat_setWidth, hlt, h32]
  have := f7.isLt
  split <;> omega

theorem denotes_shift (ho : op = "slli" ∨ op = "srli" ∨ op = "srai")
    (h : encodeShift py syms ln op = .ok out) : Denotes py syms ln op out := by
  obtain ⟨hn, rd, h0, rs1, h1, sh, h2, hr, rfl⟩ := encodeShift_eq_ok.mp h
  have hsh : Field 5 sh := hr
  have hx : ∃ o, immMnemonic o = some op ∧ (o = .sll ∨ o = .srl ∨ o = .sra) ∧
      decodeOpImm (if op = "slli" then F3Op.sll else .sr)
        (.ofInt 7 (if op = "srai" then Refmodel.f7Alt else f7Default)) = some o := by
    rcases ho with rfl | rfl | rfl
    · exact ⟨.sll, rfl, by simp, rfl⟩
    · exact ⟨.srl, rfl, by simp, rfl⟩
    · exact ⟨.sra, rfl, by simp, rfl⟩
  obtain ⟨o, hm, hs, hd⟩ := hx
  refine ⟨.opImm o _ _ sh, .opImm hm hn (register_of_reg h0) (register_of_reg h1) h2, ?_⟩
  rw [rType_eq, ofInt_value]
  refine ⟨_, rfl, fun pc _ _ _ => ⟨_, decode_shift _ _ _ hd, fun _ m _ => ?_⟩⟩
  exact implements_shift hs (shamt_mod _ hsh) m

theorem denotes_load {f3 : F3Load} (ho : loadTable op = some f3)
    (h : encodeLoad py syms ln op f3 = .ok out) : Denotes py syms ln op out := by
  obtain ⟨hn, rd, h0, imm, h1, rs1, h2, hr, rfl⟩ := encodeLoad_eq_ok.mp h
  have hm : op = loadMnemonic f3 := by
    unfold loadTable at ho
    split at ho <;> cases ho <;> rfl
  subst hm
  refine ⟨.load f3 _ imm _, .load hn (register_of_reg h0) h1 (register_of_reg h2), ?_⟩
  rw [iType_eq, ofInt_value, ofInt_toNat]
  apply stands_of_decode
  intro pc _ _ _
  rw [decode_load, signExtend_ofInt hr]
  rfl

theorem denotes_store {f3 : F3Store} (ho : storeTable op = some f3)
    (h : encodeStore py syms ln op f3 = .ok out) : Denotes py syms ln op out := by
  obtain ⟨hn, rs2, h0, imm, h1, rs1, h2, hr, rfl⟩ := encodeStore_eq_ok.mp h
  have hm : op = storeMnemonic f3 := by
    unfold storeTable at ho
    split at ho <;> cases ho <;> rfl
  subst hm
  refine ⟨.store f3 _ imm _, .store hn (register_of_reg h0) h1 (register_of_reg h2), ?_⟩
  rw [sType_eq, ofInt_value, ofInt_toNat]
  apply stands_of_decode
  intro pc _ _ _
  rw [decode_store, signExtend_ofInt hr]
  rfl

/-- The offset of an aligned target. -/
theorem offset_even {pc : Word} {target : ℤ} (hl : ln.pc = pc.toNat) (h4 : pc.toNat % 4 = 0)
    (ht : target % 4 = 0) : (target - ln.pc) % 2 = 0 := by omega

theorem offset_word {pc : Word} {target : ℤ} (hl : ln.pc = pc.toNat) :
    BitVec.ofInt 32 (target - ln.pc) = BitVec.ofInt 32 target - pc := by
  rw [hl, ofInt_sub, ofInt_toNat]

theorem denotes_branch {f3 : F3Branch} (ho : branchTable op = some f3)
    (h : encodeBranch py syms ln op f3 = .ok out) : Denotes py syms ln op out := by
  obtain ⟨hn, rs1, h0, rs2, h1, target, h2, hr, rfl⟩ := encodeBranch_eq_ok.mp h
  have hm : op = branchMnemonic f3 := by
    unfold branchTable at ho
    split at ho <;> cases ho <;> rfl
  subst hm
  refine ⟨.branch f3 _ _ target, .branch hn (register_of_reg h0) (register_of_reg h1) h2, ?_⟩
  rw [bType_eq, ofInt_value, ofInt_toNat]
  apply stands_of_decode
  intro pc hl h4 ht
  rw [decode_branch _ _ _ ⟨hr.lower, hr.upper⟩ (offset_even hl h4 (ht target rfl)), offset_word hl]
  rfl

theorem denotes_branchZero {f3 : F3Branch} {st : BitVec 5 → ℤ → Stmt}
    (hst : ∀ rs target pc, (st rs target).insn pc = .branch f3 rs 0#5 (.ofInt 32 target - pc))
    (hl : ∀ rs target, (st rs target).label = some target)
    (hm : ∀ rs target, ln.args.length = 2 → ln.Register py 0 rs →
      ln.value py syms 1 = .ok target → Reads py syms ln op (st rs target))
    (h : encodeBranchZero py syms ln op f3 = .ok out) : Denotes py syms ln op out := by
  obtain ⟨hn, rs1, h0, target, h1, hr, rfl⟩ := encodeBranchZero_eq_ok.mp h
  refine ⟨st _ target, hm _ _ hn (register_of_reg h0) h1, ?_⟩
  rw [bType_eq, ofInt_value, ofInt_toNat]
  apply stands_of_decode
  intro pc hpc h4 ht
  rw [hst, ← offset_word hpc]
  exact decode_branch _ _ _ ⟨hr.lower, hr.upper⟩ (offset_even hpc h4 (ht target (hl _ _)))

theorem denotes_jal (h : encodeJal py syms ln = .ok out) : Denotes py syms ln "jal" out := by
  obtain ⟨rd, target, ho, hr, rfl⟩ := encodeJal_eq_ok.mp h
  have hreads : Reads py syms ln "jal" (.jal (.ofInt 5 rd) target) := by
    rcases jalOperands_eq_ok.mp ho with ⟨hn, rfl, h0⟩ | ⟨hn, h0, h1⟩
    · exact .jalRa hn h0
    · exact .jal hn (register_of_reg h0) h1
  refine ⟨_, hreads, ?_⟩
  rw [jType_eq, ofInt_toNat]
  apply stands_of_decode
  intro pc hl h4 ht
  rw [decode_jal _ ⟨hr.lower, hr.upper⟩ (offset_even hl h4 (ht target rfl)), offset_word hl]
  rfl

theorem denotes_j (h : encodeJ py syms ln "j" = .ok out) : Denotes py syms ln "j" out := by
  obtain ⟨hn, target, h0, hr, rfl⟩ := encodeJ_eq_ok.mp h
  refine ⟨_, .j hn h0, ?_⟩
  rw [jType_eq, ofInt_toNat]
  apply stands_of_decode
  intro pc hl h4 ht
  have hd := decode_jal (.ofInt 5 0) ⟨hr.lower, hr.upper⟩ (offset_even hl h4 (ht target rfl))
  rw [offset_word hl] at hd
  exact hd

theorem denotes_jalr (h : encodeJalr py syms ln = .ok out) : Denotes py syms ln "jalr" out := by
  obtain ⟨rd, rs1, imm, ho, hr, rfl⟩ := encodeJalr_eq_ok.mp h
  have hreads : Reads py syms ln "jalr" (.jalr (.ofInt 5 rd) (.ofInt 5 rs1) imm) := by
    rcases jalrOperands_eq_ok.mp ho with ⟨hn, rfl, h0, rfl⟩ | ⟨hn, h0, hor⟩
    · exact .jalrRa hn (register_of_reg h0)
    · rcases orElse_eq_ok.mp hor with hp | ⟨⟨e, he⟩, hp⟩
      · obtain ⟨h1, h2⟩ := rs1Imm_eq_ok.mp hp
        exact .jalr hn (register_of_reg h0) (register_of_reg h1) h2
      · obtain ⟨h1, h2⟩ := immRs1_eq_ok.mp hp
        refine .jalrDisp hn (register_of_reg h0) h1 (register_of_reg h2) fun r v hr hv => ?_
        rw [rs1Imm_eq_ok.mpr ⟨hr, hv⟩] at he
        cases he
  refine ⟨_, hreads, ?_⟩
  rw [iType_eq, ofInt_toNat]
  apply stands_of_decode
  intro pc _ _ _
  have hd := decode_jalr (.ofInt 5 rs1) (.ofInt 5 rd) (.ofInt 12 imm)
  rw [signExtend_ofInt hr] at hd
  exact hd

theorem denotes_upper (ho : op = "lui" ∨ op = "auipc")
    (h : encodeUpper py syms ln op = .ok out) : Denotes py syms ln op out := by
  obtain ⟨hn, rd, h0, v, h1, hr, rfl⟩ := encodeUpper_eq_ok.mp h
  have hv : BitVec.ofInt 20 (v &&& 0xFFFFF) = BitVec.ofInt 20 v := ofInt_and_mask v
  rw [uType_eq, hv]
  rcases ho with rfl | rfl
  · refine ⟨.lui _ v, .lui hn (register_of_reg h0) h1, ?_⟩
    exact stands_of_decode fun _ _ _ _ => decode_lui _
  · refine ⟨.auipc _ v, .auipc hn (register_of_reg h0) h1, ?_⟩
    exact stands_of_decode fun _ _ _ _ => decode_auipc _

/-- The pseudo-instructions that are an ADDI or a XORI with a fixed operand. -/
theorem stands_opImm {f3 : F3Op} {o : Op} {rd rs1 imm : ℤ} {st : Stmt} (hr : -2 ^ 11 ≤ imm ∧ imm < 2 ^ 11)
    (ho : ∀ f7, decodeOpImm f3 f7 = some o)
    (hst : ∀ pc, st.insn pc = .opImm o (.ofInt 5 rd) (.ofInt 5 rs1) (.ofInt 32 imm)) :
    Stands ln [iType (opcodeOf .imm) rd (IntEnum.value f3) rs1 imm] st := by
  rw [iType_eq, ofInt_value]
  apply stands_of_decode
  intro pc _ _ _
  rw [decode_imm _ _ _ (ho _), signExtend_ofInt hr, hst]

theorem denotes_mv (h : encodeMove py ln "mv" .addSub 0 = .ok out) : Denotes py syms ln "mv" out := by
  obtain ⟨hn, rd, h0, rs, h1, rfl⟩ := encodeMove_eq_ok.mp h
  exact ⟨_, .mv hn (register_of_reg h0) (register_of_reg h1),
    stands_opImm (o := .add) (by omega) (fun _ => rfl) fun _ => rfl⟩

theorem denotes_not (h : encodeMove py ln "not" .xor (-1 &&& 0xFFF) = .ok out) :
    Denotes py syms ln "not" out := by
  obtain ⟨hn, rd, h0, rs, h1, rfl⟩ := encodeMove_eq_ok.mp h
  refine ⟨_, .not hn (register_of_reg h0) (register_of_reg h1), ?_⟩
  have himm : BitVec.ofInt 12 (-1 &&& 0xFFF) = BitVec.ofInt 12 (-1) := ofInt_and_mask (-1)
  rw [iType_eq, himm, ← iType_eq]
  exact stands_opImm (o := .xor) (by omega) (fun _ => rfl) fun _ => rfl

theorem denotes_neg (h : encodeNeg py ln "neg" = .ok out) : Denotes py syms ln "neg" out := by
  obtain ⟨hn, rd, h0, rs, h1, rfl⟩ := encodeNeg_eq_ok.mp h
  refine ⟨_, .neg hn (register_of_reg h0) (register_of_reg h1), ?_⟩
  rw [rType_eq, ofInt_value]
  exact stands_of_decode fun _ _ _ _ => decode_reg _ _ _ rfl

theorem denotes_nop : Denotes py syms ln "nop" [nop] :=
  ⟨_, .nop, stands_opImm (o := .add) (by omega) (fun _ => rfl) fun _ => rfl⟩

/-- JR and RET are JALR with no link and no offset. -/
theorem stands_jalr {rs1 : ℤ} {st : Stmt}
    (hst : ∀ pc, st.insn pc = .jalr 0#5 (.ofInt 5 rs1) 0#32) :
    Stands ln [iType (opcodeOf .jalr) 0 0 rs1 0] st := by
  rw [iType_eq]
  apply stands_of_decode
  intro pc _ _ _
  rw [hst]
  exact decode_jalr (.ofInt 5 rs1) 0#5 0#12

theorem denotes_jr (h : encodeJr py ln "jr" = .ok out) : Denotes py syms ln "jr" out := by
  obtain ⟨hn, rs1, h0, rfl⟩ := encodeJr_eq_ok.mp h
  exact ⟨_, .jr hn (register_of_reg h0), stands_jalr fun _ => rfl⟩

theorem denotes_ret (h : encodeRet ln = .ok out) : Denotes py syms ln "ret" out := by
  obtain ⟨hn, rfl⟩ := encodeRet_eq_ok.mp h
  exact ⟨_, .ret hn, stands_jalr fun _ => rfl⟩

theorem denotes_of_accepted (ho : op ∈ oneWord) (h : Accepted py syms ln out op) :
    Denotes py syms ln op out := by
  cases h with
  | reg ht h => exact denotes_reg ht h
  | imm ht h => exact denotes_imm ht h
  | load ht h => exact denotes_load ht h
  | store ht h => exact denotes_store ht h
  | branch ht h => exact denotes_branch ht h
  | shift ht h => exact denotes_shift ht h
  | jal h => exact denotes_jal h
  | jalr h => exact denotes_jalr h
  | upper ht h => exact denotes_upper ht h
  | nop h => exact h ▸ denotes_nop
  | mv h => exact denotes_mv h
  | not h => exact denotes_not h
  | neg h => exact denotes_neg h
  | j h => exact denotes_j h
  | jr h => exact denotes_jr h
  | ret h => exact denotes_ret h
  | beqz h =>
    exact denotes_branchZero (fun _ _ _ => rfl) (fun _ _ => rfl) (fun _ _ => Reads.beqz) h
  | bnez h =>
    exact denotes_branchZero (fun _ _ _ => rfl) (fun _ _ => rfl) (fun _ _ => Reads.bnez) h
  | fence | fenceI | ecall | ebreak | li | la | call => exact absurd ho (by decide)

theorem means_of_accepted (ho : op ∈ oneWord) (h : Accepted py syms ln out op) :
    Means py syms ln op out := (denotes_of_accepted ho h).means

/-- The word of an accepted line does what the manual says of the line. -/
theorem accepted_means (hop : ln.op = some op) (ho : op ∈ oneWord)
    (h : encodeLine py syms ln = .ok out) : ∃ st, Reads py syms ln op st ∧
      ∀ s pc x, AtLine s ln pc out → Holds s pc x → Proceeds s pc x st →
        ∃ tr, step s = .ok tr (s.apply (st.effect pc x s.byte)) := by
  rw [encodeLine_instruction hop (oneWord_not_directive op ho)] at h
  exact means_of_accepted ho (encodeInstruction_accepted h)

/-- A backward branch to a label. -/
def loopLine : Line := ⟨3, "beqz a0, loop", none, some "beqz", ["a0", "loop"], .text, 8, 4⟩

theorem accepted_means_loopLine : ∃ st, Reads .plain [("loop", 0)] loopLine "beqz" st ∧
    ∀ s pc x, AtLine s loopLine pc [0xFE050CE3] → Holds s pc x → Proceeds s pc x st →
      ∃ tr, step s = .ok tr (s.apply (st.effect pc x s.byte)) :=
  accepted_means rfl (by decide) (by decide +kernel)

end Meaning
end RiscForge.Assembler
