import RiscForge.Assembler.Program
import RiscForge.Lib.Steps

/-! A machine that holds the words of a program's lines runs the program line by line. -/
namespace RiscForge.System

open Lib Rtl Refmodel Isa Assembler

/-- The machine's code at `pc` are the words of a line. -/
def Resides (M : Machine) (pc : Word) (out : List ℤ) : Prop :=
  ∀ k w, out[k]? = some w → M.code (pc + BitVec.ofNat 32 (4 * k)) = decode (.ofInt 32 w)

/-- The machine has the words of each line where the line is, and no other code. -/
structure Compiled (P : Program) (M : Machine) : Prop where
  lo : M.lo = 0
  hi : M.hi = P.hi
  tohost : M.tohost = P.tohost
  words : ∀ pc ln stmt, P.At pc ln stmt → ∃ out,
    encodeLine P.py P.syms ln = .ok out ∧ Resides M pc out
  code : ∀ q, (M.code q).isSome = true → ∃ ln ∈ P.lines, ln.isInstruction = true ∧
    ln.pc ≤ q.toNat ∧ q.toNat + 4 ≤ ln.pc + ln.size

section Permits
variable {P : Program} {M : Machine} {c : Cpu} {st : Stmt} {i : Insn}

/-- An instruction that neither jumps nor accesses the memory may always execute. -/
theorem permits_plain (ht : i.target c.pc c.x = none) (ha : i.access c.x = none)
    (hs : i.stored c.x = none) : M.Permits c i where
  target t h := by
    rw [ht] at h
    cases h
  aligned a n h := by
    rw [ha] at h
    cases h
  inside a n h := by
    rw [ha] at h
    cases h
  notTohost a k v h := by
    rw [hs] at h
    cases h
  notCode a k v h := by
    rw [hs] at h
    cases h

theorem Compiled.permits (h : Compiled P M) (hp : P.Permits c (.one st))
    (hi : Implements i st c.pc c.x c.mem) : M.Permits c i where
  target t ht := by
    have hn : (i.effect c.pc c.x c.mem).nextPc = t := by
      rw [Insn.effect, ht]
      rfl
    rw [← hn, hi.same.nextPc]
    exact hp.target
  aligned a n ha := hp.aligned a n (hi.access.symm.trans ha)
  inside a n ha := by
    rw [h.lo, h.hi]
    exact ⟨Nat.zero_le _, hp.inside a n (hi.access.symm.trans ha)⟩
  notTohost a k v hs := by
    rw [h.tohost]
    exact hp.notTohost a k v (hi.same.store.symm.trans hs)
  notCode a k v hs q hq := by
    obtain ⟨ln, hl, hln, hlo, hhi⟩ := h.code q hq
    have hm := hp.notCode a k v (hi.same.store.symm.trans hs) ln hl hln
    omega

end Permits

section Words
variable {M : Machine} {c : Cpu} {rd : BitVec 5} {u v : Word} {i j : Insn}

/-- Two instructions, of which the first one leaves `u` in `rd`. -/
theorem steps_two (hi : M.code c.pc = some i) (hj : M.code (c.pc + 4#32) = some j)
    (hie : i ≠ .ecall) (hib : i ≠ .ebreak) (hje : j ≠ .ecall) (hjb : j ≠ .ebreak)
    (hp : M.Permits c i) (he : i.effect c.pc c.x c.mem = .writes c.pc rd u)
    (hq : M.Permits (c.after (.writes c.pc rd u)) j) :
    Steps M.Step 2 c ((c.after (.writes c.pc rd u)).after
      (j.effect (c.pc + 4#32) (setReg c.x rd u) c.mem)) := by
  have h₁ : M.Step c (c.after (.writes c.pc rd u)) := by
    rw [← he]
    exact .exec hi hie hib hp
  refine .head h₁ (.one ?_)
  exact .exec hj hje hjb hq

/-- A value in `rd`, and an ADDI to `rd` that makes it `v`. -/
theorem steps_addi {imm : Word} (hi : M.code c.pc = some i)
    (hj : M.code (c.pc + 4#32) = some (.opImm .add rd rd imm)) (hie : i ≠ .ecall)
    (hib : i ≠ .ebreak) (hp : M.Permits c i)
    (he : i.effect c.pc c.x c.mem = .writes c.pc rd u) (hv : u + imm = v) :
    Steps M.Step 2 c (c.after { Effect.writes c.pc rd v with nextPc := c.pc + 8#32 }) := by
  have hs := steps_two hi hj hie hib Insn.noConfusion Insn.noConfusion hp he
    (permits_plain rfl rfl rfl)
  have hx : setReg (setReg c.x rd u) rd (setReg c.x rd u rd + imm) = setReg c.x rd v := by
    by_cases h0 : rd = 0#5
    · rw [h0, setReg_zero, setReg_zero, setReg_zero]
    · rw [setReg_self h0, hv, setReg_setReg]
  have hpc : c.pc + 4#32 + 4#32 = c.pc + 8#32 := by
    rw [BitVec.add_assoc]
    rfl
  exact hs.cast (Cpu.ext' hpc hx rfl)

theorem steps_li_short {w : Word} (hi : M.code c.pc = some (.opImm .add rd 0#5 v))
    (hj : M.code (c.pc + 4#32) = some (.opImm .add 0#5 0#5 w)) :
    Steps M.Step 2 c (c.after { Effect.writes c.pc rd v with nextPc := c.pc + 8#32 }) := by
  have he : (Insn.opImm .add rd 0#5 v).effect c.pc c.x c.mem = .writes c.pc rd v := by
    simp only [Insn.effect, Insn.target, Insn.result, Insn.stored, Op.eval, c.zero,
      BitVec.zero_add]
    rfl
  have hs := steps_two hi hj Insn.noConfusion Insn.noConfusion Insn.noConfusion Insn.noConfusion
    (permits_plain rfl rfl rfl) he (permits_plain rfl rfl rfl)
  have hpc : c.pc + 4#32 + 4#32 = c.pc + 8#32 := by
    rw [BitVec.add_assoc]
    rfl
  have hx : setReg (setReg c.x rd v) 0#5 (setReg c.x rd v 0#5 + w) = setReg c.x rd v := setReg_zero
  exact hs.cast (Cpu.ext' hpc hx rfl)

/-- AUIPC and JALR to an aligned target. -/
theorem steps_call {imm lo target : Word} (hi : M.code c.pc = some (.auipc 1#5 imm))
    (hj : M.code (c.pc + 4#32) = some (.jalr 1#5 1#5 lo)) (ht : c.pc + imm + lo = target)
    (h4 : target.toNat % 4 = 0) : Steps M.Step 2 c
      (c.after { Effect.writes c.pc 1#5 (c.pc + 8#32) with nextPc := target }) := by
  have h1 : setReg c.x 1#5 (c.pc + imm) 1#5 = c.pc + imm := setReg_self (by decide)
  have hclear := and_not_one h4
  have hs := steps_two (u := c.pc + imm) hi hj Insn.noConfusion Insn.noConfusion
    Insn.noConfusion Insn.noConfusion (permits_plain rfl rfl rfl) rfl ?_
  · refine hs.cast (Cpu.ext' ?_ ?_ rfl)
    · change (setReg c.x 1#5 (c.pc + imm) 1#5 + lo) &&& ~~~1#32 = target
      rw [h1, ht, hclear]
    · change setReg (setReg c.x 1#5 (c.pc + imm)) 1#5 (c.pc + 4#32 + 4#32) = _
      rw [setReg_setReg, BitVec.add_assoc]
      rfl
  · refine ⟨?_, ?_, ?_, ?_, ?_⟩
    · rintro t ⟨⟩
      change ((setReg c.x 1#5 (c.pc + imm) 1#5 + lo) &&& ~~~1#32).toNat % 4 = 0
      rw [h1, ht, hclear, h4]
    · rintro a n ⟨⟩
    · rintro a n ⟨⟩
    · rintro a k v ⟨⟩
    · rintro a k v ⟨⟩

end Words
section Decoded
variable (rd rs1 imm : ℤ)

theorem decode_addi :
    decode (.ofInt 32 (iType (opcodeOf .imm) rd (IntEnum.value F3Op.addSub) rs1 imm)) =
      some (.opImm .add (.ofInt 5 rd) (.ofInt 5 rs1) ((BitVec.ofInt 12 imm).signExtend 32)) := by
  rw [iType_eq, ofInt_toNat, ofInt_value]
  exact decode_imm _ _ _ rfl

theorem decode_jalr_word : decode (.ofInt 32 (iType (opcodeOf .jalr) rd 0 rs1 imm)) =
    some (.jalr (.ofInt 5 rd) (.ofInt 5 rs1) ((BitVec.ofInt 12 imm).signExtend 32)) := by
  rw [iType_eq, ofInt_toNat]
  exact decode_jalr _ _ _

theorem decode_lui_word : decode (.ofInt 32 (uType (opcodeOf .lui) rd imm)) =
    some (.lui (.ofInt 5 rd) (BitVec.ofInt 20 imm ++ 0#12)) := by
  rw [uType_eq, ofInt_toNat, decode_lui, ofInt_append_zeros]

theorem decode_auipc_word : decode (.ofInt 32 (uType (opcodeOf .auipc) rd imm)) =
    some (.auipc (.ofInt 5 rd) (BitVec.ofInt 20 imm ++ 0#12)) := by
  rw [uType_eq, ofInt_toNat, decode_auipc, ofInt_append_zeros]

end Decoded

section Lines
variable {P : Program} {M : Machine} {c : Cpu} {ln : Line} {stmt : Statement} {st : Stmt}
  {out : List ℤ} {op : String}

theorem Resides.first {pc : Word} {w : ℤ} (h : Resides M pc (w :: out)) :
    M.code pc = decode (.ofInt 32 w) := by
  have hw := h 0 w rfl
  rwa [Nat.mul_zero, BitVec.add_zero] at hw

theorem Resides.second {pc : Word} {v w : ℤ} (h : Resides M pc (v :: w :: out)) :
    M.code (pc + 4#32) = decode (.ofInt 32 w) := h 1 w rfl

/-- The line of a base instruction is one instruction that does what the statement says. -/
theorem Compiled.implements (h : Compiled P M) (hat : P.At c.pc ln (.one st))
    (hl : ∀ target, st.label = some target → target % 4 = 0) :
    ∃ i, M.code c.pc = some i ∧ Implements i st c.pc c.x c.mem := by
  obtain ⟨out, he, hres⟩ := h.words _ _ _ hat
  obtain ⟨op, hop, hs⟩ := hat.spells
  cases hs with
  | one hr hc =>
    rw [encodeLine_instruction hop (oneWord_not_directive op hr.mem_oneWord)] at he
    obtain ⟨st', hr', w, rfl, hw⟩ :=
      denotes_of_accepted hr.mem_oneWord (encodeInstruction_accepted he)
    obtain rfl := reads_unique hc hr hr'
    obtain ⟨i, hd, hi⟩ := hw c.pc hat.line hat.aligned hl
    refine ⟨i, ?_, hi _ _ c.zero⟩
    rw [hres.first, ofInt_toNat, hd]

theorem after_implements {i : Insn} (hi : Implements i st c.pc c.x c.mem) :
    c.after (i.effect c.pc c.x c.mem) = c.after (st.effect c.pc c.x c.mem) :=
  Cpu.after_same hi.same.rd hi.same.nextPc hi.same.store

theorem Compiled.exec_one (h : Compiled P M) (hat : P.At c.pc ln (.one st))
    (hp : P.Permits c (.one st)) : M.Step c (c.after (st.effect c.pc c.x c.mem)) := by
  obtain ⟨i, hd, hi⟩ := h.implements hat hp.label
  rw [← after_implements hi]
  exact .exec hd hi.ne_ecall hi.ne_ebreak (h.permits hp hi)

variable {rd : BitVec 5} {v target : ℤ}

theorem Compiled.exec_li (h : Compiled P M) (hat : P.At c.pc ln (.li rd v)) :
    Steps M.Step 2 c (c.after ((Statement.li rd v).effect c.pc c.x c.mem)) := by
  obtain ⟨out, he, hres⟩ := h.words _ _ _ hat
  obtain ⟨op, hop, hs⟩ := hat.spells
  cases hs with
  | li ho h0 h1 =>
    subst ho
    simp only [encodeLine, hop] at he
    obtain ⟨-, r, hr, v', hv, rfl⟩ := encodeLi_eq_ok.mp he
    obtain rfl := ln.value_unique h1 hv
    obtain rfl := ln.register_unique h0 (register_of_reg hr)
    unfold liWords at hres
    simp only at hres
    split at hres
    case isTrue hv =>
      have himm : BitVec.ofInt 12 (v &&& 0xFFF) = BitVec.ofInt 12 v := ofInt_and_mask v
      have h₁ := hres.first
      rw [decode_addi, himm, signExtend_ofInt hv] at h₁
      have h₂ := hres.second
      rw [nop, decode_addi] at h₂
      exact steps_li_short h₁ h₂
    case isFalse =>
      have h₁ := hres.first
      have h₂ := hres.second
      rw [and_word] at h₁ h₂
      rw [decode_lui_word] at h₁
      rw [decode_addi] at h₂
      exact steps_addi h₁ h₂ Insn.noConfusion Insn.noConfusion (permits_plain rfl rfl rfl) rfl
        (hi20_lo12 _)

theorem Compiled.exec_la (h : Compiled P M) (hat : P.At c.pc ln (.la rd target)) :
    Steps M.Step 2 c (c.after ((Statement.la rd target).effect c.pc c.x c.mem)) := by
  obtain ⟨out, he, hres⟩ := h.words _ _ _ hat
  obtain ⟨op, hop, hs⟩ := hat.spells
  cases hs with
  | la ho h0 h1 =>
    subst ho
    simp only [encodeLine, hop] at he
    obtain ⟨-, r, hr, v', hv, rfl⟩ := encodeLa_eq_ok.mp he
    obtain rfl := ln.value_unique h1 hv
    obtain rfl := ln.register_unique h0 (register_of_reg hr)
    have h₁ := hres.first
    have h₂ := hres.second
    rw [and_word] at h₁ h₂
    rw [decode_auipc_word] at h₁
    rw [decode_addi] at h₂
    refine steps_addi h₁ h₂ Insn.noConfusion Insn.noConfusion (permits_plain rfl rfl rfl) rfl ?_
    rw [BitVec.add_assoc, hi20_lo12, hat.line, pc_add_offset]

theorem Compiled.exec_call (h : Compiled P M) (hat : P.At c.pc ln (.call target))
    (h4 : target % 4 = 0) :
    Steps M.Step 2 c (c.after ((Statement.call target).effect c.pc c.x c.mem)) := by
  obtain ⟨out, he, hres⟩ := h.words _ _ _ hat
  obtain ⟨op, hop, hs⟩ := hat.spells
  cases hs with
  | call ho h0 =>
    subst ho
    simp only [encodeLine, hop] at he
    obtain ⟨-, v', hv, rfl⟩ := encodeCall_eq_ok.mp he
    obtain rfl := ln.value_unique h0 hv
    have h₁ := hres.first
    have h₂ := hres.second
    rw [and_word] at h₁ h₂
    rw [decode_auipc_word] at h₁
    rw [decode_jalr_word] at h₂
    refine steps_call h₁ h₂ ?_ ?_
    · rw [BitVec.add_assoc, hi20_lo12, hat.line, pc_add_offset]
    · rw [BitVec.toNat_ofInt]
      omega

theorem decode_fence : decode (.ofInt 32 (iType (opcodeOf .fence) 0 0 0 0b000011111111)) =
    some .fence := by decide +kernel

theorem decode_fenceI : decode (.ofInt 32 (iType (opcodeOf .fence) 0 1 0 0)) = some .fence := by
  decide +kernel

theorem decode_ecall :
    decode (.ofInt 32 (iType (opcodeOf .system) 0 0 0 Refmodel.f12Ecall)) = some .ecall := by
  decide +kernel

theorem decode_ebreak :
    decode (.ofInt 32 (iType (opcodeOf .system) 0 0 0 Refmodel.f12Ebreak)) = some .ebreak := by
  decide +kernel

theorem Compiled.code_fence (h : Compiled P M) (hat : P.At c.pc ln .fence) :
    M.code c.pc = some .fence := by
  obtain ⟨out, he, hres⟩ := h.words _ _ _ hat
  obtain ⟨op, hop, hs⟩ := hat.spells
  cases hs with
  | fence ho =>
    rcases ho with rfl | rfl
    · simp only [encodeLine, hop] at he
      cases he
      rw [hres.first, decode_fence]
    · simp only [encodeLine, hop] at he
      cases he
      rw [hres.first, decode_fenceI]

theorem Compiled.code_ecall (h : Compiled P M) (hat : P.At c.pc ln .ecall) :
    M.code c.pc = some .ecall := by
  obtain ⟨out, he, hres⟩ := h.words _ _ _ hat
  obtain ⟨op, hop, hs⟩ := hat.spells
  cases hs with
  | ecall ho =>
    subst ho
    simp only [encodeLine, hop] at he
    cases he
    rw [hres.first, decode_ecall]

theorem Compiled.code_ebreak (h : Compiled P M) (hat : P.At c.pc ln .ebreak) :
    M.code c.pc = some .ebreak := by
  obtain ⟨out, he, hres⟩ := h.words _ _ _ hat
  obtain ⟨op, hop, hs⟩ := hat.spells
  cases hs with
  | ebreak ho =>
    subst ho
    simp only [encodeLine, hop] at he
    cases he
    rw [hres.first, decode_ebreak]

/-- One line is one or two instructions of the machine. -/
theorem Compiled.simulates (h : Compiled P M) : Simulates P.Step M.Step Eq 2 := by
  rintro c c' _ hs rfl
  cases hs with
  | @exec ln stmt hat he hb hp =>
    cases stmt with
    | one st => exact ⟨1, _, Nat.one_pos, one_le_two, .one (h.exec_one hat hp), rfl⟩
    | li => exact ⟨2, _, Nat.two_pos, le_rfl, h.exec_li hat, rfl⟩
    | la => exact ⟨2, _, Nat.two_pos, le_rfl, h.exec_la hat, rfl⟩
    | call => exact ⟨2, _, Nat.two_pos, le_rfl, h.exec_call hat (hp.label _ rfl), rfl⟩
    | fence =>
      have hs : M.Step c (c.after (Insn.fence.effect c.pc c.x c.mem)) :=
        .exec (h.code_fence hat) Insn.noConfusion Insn.noConfusion (permits_plain rfl rfl rfl)
      exact ⟨1, _, Nat.one_pos, one_le_two, .one hs, rfl⟩
    | ecall => exact (he rfl).elim
    | ebreak => exact (hb rfl).elim

theorem label_of_stores {a w : Word} {k : F3Store}
    (hs : (st.effect c.pc c.x c.mem).store = some (a, k, w)) : st.label = none := by
  cases st with
  | store => rfl
  | _ => cases hs

/-- A program and its machine end alike. -/
theorem Compiled.ends (h : Compiled P M) {e : Ending} (he : P.Ends c e) : M.Ends c e := by
  cases he with
  | ecall hat => exact .ecall (h.code_ecall hat)
  | ebreak hat => exact .ebreak (h.code_ebreak hat)
  | tohost hat hs ht =>
    obtain ⟨i, hd, hi⟩ := h.implements hat (by rw [label_of_stores hs]; rintro t ⟨⟩)
    exact .tohost hd (hi.same.store.trans hs) (ht.trans h.tohost.symm)

end Lines
end RiscForge.System
