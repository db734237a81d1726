import RiscForge.Assembler.Transfer
import RiscForge.Refmodel.StepSpec

/-! The pseudo-instructions of two words, executed by the emulator. -/
namespace RiscForge.Assembler

open Lib Rtl Refmodel

section Registers
variable {py : Python} {ln : Line} {tok src : String} {lineno : ℕ} {r : ℤ}

theorem regAliases_field (h : regAliases tok = some r) : Field 5 r := by
  unfold regAliases at h
  split at h <;> cases h <;> exact ⟨by decide, by decide⟩

theorem parseReg_field (h : parseReg py tok lineno src = .ok r) : Field 5 r := by
  unfold parseReg at h
  simp only at h
  split at h
  case h_1 ha =>
    cases h
    exact regAliases_field ha
  case h_2 =>
    split at h
    case h_1 =>
      split at h
      case h_1 =>
        split at h
        case isTrue hr =>
          cases h
          exact ⟨hr.1, by omega⟩
        case isFalse => exact (asmError_ne_ok h).elim
      case h_2 => cases h
    case h_2 => exact (asmError_ne_ok h).elim

theorem Line.reg_field {k : ℕ} (h : ln.reg py k = .ok r) : Field 5 r := parseReg_field h

end Registers

section Words
variable (rd : BitVec 5) (f3 : BitVec 3) (rs1 : BitVec 5) (i12 : BitVec 12) (top : BitVec 20)

theorem opcode_uWord_of (o : Opcode) :
    Rtl.opcode (uWord top rd (.ofInt 7 (opcodeOf o))) = some o := by
  rw [Rtl.opcode, opcode_uWord]
  cases o <;> rfl

theorem opcode_iWord_of (o : Opcode) :
    Rtl.opcode (iWord rs1 f3 rd (.ofInt 7 (opcodeOf o)) i12) = some o := by
  rw [iWord, Rtl.opcode, opcode_rWord]
  cases o <;> rfl

end Words

section Effect
variable {py : Python} {syms : Syms} {ln : Line} {s : RV32I} {pc : Word} {out : List ℤ}

/-- The emulator is about to execute the words of a line, which are in its memory. -/
structure AtLine (s : RV32I) (ln : Line) (pc : Word) (out : List ℤ) : Prop where
  running : s.halted = false
  emuPc : s.pc = pc.toNat
  line : ln.pc = pc.toNat
  fetches : ∀ k w, out[k]? = some w →
    Fetches s (pc + BitVec.ofNat 32 (4 * k)) (BitVec.ofInt 32 w)

/-- Two steps lead from `s` to `s'`. -/
def TwoSteps (s s' : RV32I) : Prop :=
  ∃ tr₁ s₁ tr₂, step s = .ok tr₁ s₁ ∧ step s₁ = .ok tr₂ s'

/-- `s` with `v` in register `rd` and the pc at `next`, two steps later. -/
def leaves (s : RV32I) (rd : ℤ) (v next : Word) : RV32I :=
  { s with
    regs := Function.update s.regs (BitVec.ofInt 5 rd) v.toNat
    pc := next.toNat
    steps := s.steps + 2 }

/-- LI, LA and CALL are accepted whatever their operand stands for, and what their two words do:
nothing else changes in the emulator. -/
structure TwoWordEffect (py : Python) (syms : Syms) (ln : Line) : Prop where
  takesLi : ∀ rd v, ln.op = some "li" → ln.args.length = 2 → ln.reg py 0 = .ok rd →
    ln.value py syms 1 = .ok v → ∃ out, encodeLine py syms ln = .ok out
  li : ∀ out, ln.op = some "li" → encodeLine py syms ln = .ok out → out.length = 2 ∧
    ∃ rd v, ln.reg py 0 = .ok rd ∧ ln.value py syms 1 = .ok v ∧
      ∀ s pc, AtLine s ln pc out → rd ≠ 0 →
        TwoSteps s (leaves s rd (BitVec.ofInt 32 v) (pc + 8#32))
  takesLa : ∀ rd target, ln.op = some "la" → ln.args.length = 2 → ln.reg py 0 = .ok rd →
    ln.value py syms 1 = .ok target → ∃ out, encodeLine py syms ln = .ok out
  la : ∀ out, ln.op = some "la" → encodeLine py syms ln = .ok out → out.length = 2 ∧
    ∃ rd target, ln.reg py 0 = .ok rd ∧ ln.value py syms 1 = .ok target ∧
      ∀ s pc, AtLine s ln pc out → rd ≠ 0 →
        TwoSteps s (leaves s rd (BitVec.ofInt 32 target) (pc + 8#32))
  takesCall : ∀ target, ln.op = some "call" → ln.args.length = 1 →
    ln.value py syms 0 = .ok target → ∃ out, encodeLine py syms ln = .ok out
  call : ∀ out, ln.op = some "call" → encodeLine py syms ln = .ok out → out.length = 2 ∧
    ∃ target, ln.value py syms 0 = .ok target ∧
      ∀ s pc, AtLine s ln pc out → target % 4 = 0 →
        TwoSteps s (leaves s 1 (pc + 8#32) (BitVec.ofInt 32 target))

theorem ofInt_ne_zero {rd : ℤ} (h : Field 5 rd) (h0 : rd ≠ 0) : BitVec.ofInt 5 rd ≠ 0#5 := by
  intro he
  have ht := h.toNat
  rw [he] at ht
  exact h0 ht.symm

theorem goOn_goOn {rd : ℤ} {u v p next : Word} (h : BitVec.ofInt 5 rd ≠ 0#5) :
    (s.goOn (.ofInt 5 rd) u p).goOn (.ofInt 5 rd) v next = leaves s rd v next := by
  simp only [RV32I.goOn, RV32I.regsWith, if_neg h, Function.update_idem, leaves]

theorem goOn_nop {rd : ℤ} {u v p next : Word} (h : BitVec.ofInt 5 rd ≠ 0#5) :
    (s.goOn (.ofInt 5 rd) u p).goOn 0#5 v next = leaves s rd u next := by
  simp only [RV32I.goOn, RV32I.regsWith, if_neg h, if_true, leaves]

theorem AtLine.first {w₁ w₂ : Word} (h : AtLine s ln pc [(w₁.toNat : ℤ), (w₂.toNat : ℤ)]) :
    Fetches s pc w₁ := by
  have hf := h.fetches 0 _ rfl
  rwa [ofInt_toNat, Nat.mul_zero, BitVec.add_zero] at hf

theorem AtLine.second {w₁ w₂ : Word} (h : AtLine s ln pc [(w₁.toNat : ℤ), (w₂.toNat : ℤ)]) :
    Fetches s (pc + 4#32) w₂ := by
  have hf := h.fetches 1 _ rfl
  rwa [ofInt_toNat] at hf

end Effect

section Words
variable {s : RV32I} {pc a : Word} {rd rs1 : BitVec 5} {top : BitVec 20} {i12 : BitVec 12}

theorem step_lui_word (hh : s.halted = false) (hp : s.pc = pc.toNat)
    (hf : Fetches s pc (uWord top rd (.ofInt 7 (opcodeOf .lui)))) :
    ∃ tr, step s = .ok tr (s.goOn rd (top ++ 0#12) (pc + 4#32)) := by
  have h := step_lui hh hp hf (opcode_uWord_of rd top .lui)
  rwa [rdIdx_uWord, immU_uWord] at h

theorem step_auipc_word (hh : s.halted = false) (hp : s.pc = pc.toNat)
    (hf : Fetches s pc (uWord top rd (.ofInt 7 (opcodeOf .auipc)))) :
    ∃ tr, step s = .ok tr (s.goOn rd (pc + (top ++ 0#12)) (pc + 4#32)) := by
  have h := step_auipc hh hp hf (opcode_uWord_of rd top .auipc)
  rwa [rdIdx_uWord, immU_uWord] at h

theorem step_addi_word (hh : s.halted = false) (hp : s.pc = pc.toNat)
    (hf : Fetches s pc (iWord rs1 0#3 rd (.ofInt 7 (opcodeOf .imm)) i12))
    (hr : s.r rs1.toNat = a.toNat) :
    ∃ tr, step s = .ok tr (s.goOn rd (a + i12.signExtend 32) (pc + 4#32)) := by
  have h := step_addi (a := a) hh hp hf (opcode_iWord_of ..) (funct3_iWord ..)
    (by rw [rs1Idx_iWord, hr])
  rwa [rdIdx_iWord, immI_iWord] at h

theorem step_jalr_word {t : Word} (hh : s.halted = false) (hp : s.pc = pc.toNat)
    (hf : Fetches s pc (iWord rs1 0#3 rd (.ofInt 7 (opcodeOf .jalr)) i12))
    (hr : s.r rs1.toNat = a.toNat) (ht : (a + i12.signExtend 32) &&& ~~~1#32 = t)
    (h4 : t.toNat % 4 = 0) : ∃ tr, step s = .ok tr (s.goOn rd (pc + 4#32) t) := by
  have h := step_jalr (a := a) hh hp hf (opcode_iWord_of ..) (by rw [rs1Idx_iWord, hr])
    (by rw [immI_iWord, ht]) h4
  rwa [rdIdx_iWord] at h

end Words

section Effects
variable {py : Python} {syms : Syms} {ln : Line} {s : RV32I} {pc : Word} {rd : ℤ}

/-- The pc and the distance from it make the target. -/
theorem pc_add_offset (target : ℤ) :
    pc + BitVec.ofInt 32 (target - (pc.toNat : ℤ)) = BitVec.ofInt 32 target := by
  rw [ofInt_sub, ofInt_toNat, BitVec.add_comm, BitVec.sub_add_cancel]

/-- ADDI from `x0`, and NOP. -/
theorem li_short {v : ℤ} (hv : -2 ^ 11 ≤ v ∧ v < 2 ^ 11) (h0 : BitVec.ofInt 5 rd ≠ 0#5)
    (h : AtLine s ln pc [iType (opcodeOf .imm) rd (IntEnum.value F3Op.addSub) 0 (v &&& 0xFFF),
      nop]) : TwoSteps s (leaves s rd (BitVec.ofInt 32 v) (pc + 8#32)) := by
  have himm : BitVec.ofInt 12 (v &&& 0xFFF) = BitVec.ofInt 12 v := ofInt_and_mask v
  have hval : (BitVec.ofInt 12 v).signExtend 32 = BitVec.ofInt 32 v := by
    rw [BitVec.signExtend, toInt_ofInt_of_range hv]
  rw [nop, iType_eq, iType_eq, himm] at h
  obtain ⟨tr₁, h₁⟩ := step_addi_word (a := 0#32) h.running h.emuPc h.first RV32I.r_zero
  rw [BitVec.zero_add, hval] at h₁
  obtain ⟨tr₂, h₂⟩ := step_addi_word (a := 0#32) (s := s.goOn (.ofInt 5 rd) (.ofInt 32 v)
    (pc + 4#32)) h.running rfl h.second.goOn RV32I.r_zero
  refine ⟨tr₁, _, tr₂, h₁, ?_⟩
  rw [h₂]
  change EStateM.Result.ok _ (RV32I.goOn _ 0#5 _ _) = _
  rw [goOn_nop h0, BitVec.add_assoc]
  rfl

/-- LUI and ADDI. -/
theorem li_long {v : ℤ} (h0 : BitVec.ofInt 5 rd ≠ 0#5)
    (h : AtLine s ln pc [uType (opcodeOf .lui) rd (hi20 (v &&& 0xFFFFFFFF)),
      iType (opcodeOf .imm) rd (IntEnum.value F3Op.addSub) rd ((v &&& 0xFFFFFFFF) &&& 0xFFF)]) :
    TwoSteps s (leaves s rd (BitVec.ofInt 32 v) (pc + 8#32)) := by
  rw [and_word, uType_eq, iType_eq] at h
  obtain ⟨tr₁, h₁⟩ := step_lui_word h.running h.emuPc h.first
  obtain ⟨tr₂, h₂⟩ := step_addi_word (s := s.goOn ..) h.running rfl h.second.goOn
    (RV32I.goOn_r h0)
  refine ⟨tr₁, _, tr₂, h₁, ?_⟩
  rw [h₂, goOn_goOn h0, hi20_lo12, BitVec.add_assoc]
  rfl

/-- AUIPC and ADDI. -/
theorem la_effect {target : ℤ} (h0 : BitVec.ofInt 5 rd ≠ 0#5)
    (h : AtLine s ln pc [uType (opcodeOf .auipc) rd (hi20 (target - ln.pc &&& 0xFFFFFFFF)),
      iType (opcodeOf .imm) rd (IntEnum.value F3Op.addSub) rd
        ((target - ln.pc &&& 0xFFFFFFFF) &&& 0xFFF)]) :
    TwoSteps s (leaves s rd (BitVec.ofInt 32 target) (pc + 8#32)) := by
  rw [and_word, uType_eq, iType_eq] at h
  obtain ⟨tr₁, h₁⟩ := step_auipc_word h.running h.emuPc h.first
  obtain ⟨tr₂, h₂⟩ := step_addi_word (s := s.goOn ..) h.running rfl h.second.goOn
    (RV32I.goOn_r h0)
  refine ⟨tr₁, _, tr₂, h₁, ?_⟩
  rw [h₂, goOn_goOn h0, BitVec.add_assoc, hi20_lo12, h.line, pc_add_offset, BitVec.add_assoc]
  rfl

/-- AUIPC and JALR. -/
theorem call_effect {target : ℤ} (h4 : target % 4 = 0)
    (h : AtLine s ln pc [uType (opcodeOf .auipc) 1 (hi20 (target - ln.pc &&& 0xFFFFFFFF)),
      iType (opcodeOf .jalr) 1 0 1 ((target - ln.pc &&& 0xFFFFFFFF) &&& 0xFFF)]) :
    TwoSteps s (leaves s 1 (pc + 8#32) (BitVec.ofInt 32 target)) := by
  rw [and_word, uType_eq, iType_eq] at h
  have h0 : BitVec.ofInt 5 1 ≠ 0#5 := by decide
  have hsum := hi20_lo12 (BitVec.ofInt 32 (target - ln.pc))
  have ht : BitVec.ofInt 32 target &&& ~~~1#32 = BitVec.ofInt 32 target := by
    have hc : target &&& ~~~1 = target := by
      rw [clear_bit0]
      omega
    rw [show ~~~1#32 = BitVec.ofInt 32 (~~~1) from rfl, ← ofInt_and, hc]
  have ht4 : (BitVec.ofInt 32 target).toNat % 4 = 0 := by
    rw [BitVec.toNat_ofInt]
    omega
  obtain ⟨tr₁, h₁⟩ := step_auipc_word h.running h.emuPc h.first
  obtain ⟨tr₂, h₂⟩ := step_jalr_word (s := s.goOn ..) (t := BitVec.ofInt 32 target) h.running rfl
    h.second.goOn (RV32I.goOn_r h0)
    (by rw [BitVec.add_assoc, hsum, h.line, pc_add_offset, ht]) ht4
  refine ⟨tr₁, _, tr₂, h₁, ?_⟩
  rw [h₂, goOn_goOn h0, BitVec.add_assoc]
  rfl

theorem two_word_effect (py : Python) (syms : Syms) (ln : Line) : TwoWordEffect py syms ln where
  takesLi rd v hop hl hr hv := by
    simp only [encodeLine, hop]
    exact ⟨_, encodeLi_eq_ok.mpr ⟨hl, rd, hr, v, hv, rfl⟩⟩
  li out hop he := by
    simp only [encodeLine, hop] at he
    obtain ⟨-, rd, hr, v, hv, rfl⟩ := encodeLi_eq_ok.mp he
    refine ⟨by unfold liWords; simp only; split <;> rfl, rd, v, hr, hv, fun s pc hs hne => ?_⟩
    have h0 := ofInt_ne_zero (Line.reg_field hr) hne
    simp only [liWords] at hs
    split at hs
    case isTrue hv => exact li_short hv h0 hs
    case isFalse => exact li_long h0 hs
  takesLa rd target hop hl hr ht := by
    simp only [encodeLine, hop]
    exact ⟨_, encodeLa_eq_ok.mpr ⟨hl, rd, hr, target, ht, rfl⟩⟩
  la out hop he := by
    simp only [encodeLine, hop] at he
    obtain ⟨-, rd, hr, target, ht, rfl⟩ := encodeLa_eq_ok.mp he
    exact ⟨rfl, rd, target, hr, ht, fun s pc hs hne =>
      la_effect (ofInt_ne_zero (Line.reg_field hr) hne) hs⟩
  takesCall target hop hl ht := by
    simp only [encodeLine, hop]
    exact ⟨_, encodeCall_eq_ok.mpr ⟨hl, target, ht, rfl⟩⟩
  call out hop he := by
    simp only [encodeLine, hop] at he
    obtain ⟨-, target, ht, rfl⟩ := encodeCall_eq_ok.mp he
    exact ⟨rfl, target, ht, fun s pc hs h4 => call_effect h4 hs⟩

/-- A line of `li a1, 0xFFFFF800`, `la a0, table`, `call start`, with the table at 0x2000. -/
def twoWordLine (op : String) (args : List String) (pc : Word) : Line :=
  ⟨1, "", none, some op, args, .text, pc.toNat, 8⟩

def twoWordSyms : Syms := [("start", 0), ("table", 0x2000)]

/-- The emulator with the three lines in memory, from 0 on. -/
def twoWordCpu (pc : Word) : RV32I :=
  { RV32I.init 24 0 0x1000 false with
    pc := pc.toNat
    mem := [0xB7, 0x05, 0x00, 0x00, 0x93, 0x85, 0x05, 0x80,
      0x17, 0x25, 0x00, 0x00, 0x13, 0x05, 0x85, 0xFF,
      0x97, 0x00, 0x00, 0x00, 0xE7, 0x80, 0x00, 0xFF] }

theorem fetches_twoWordCpu {pc q w : Word} (h4 : q.toNat % 4 = 0) (h : q.toNat + 4 ≤ 24)
    (hw : unpackFrom (twoWordCpu 0#32).mem q.toNat 4 = w.toNat) :
    Fetches (twoWordCpu pc) q w where
  aligned := h4
  inMem := by
    have hmem : (twoWordCpu pc).memBase = 0 ∧ (twoWordCpu pc).mem.length = 24 := ⟨rfl, rfl⟩
    rw [InMem, hmem.1, hmem.2]
    omega
  word := hw

theorem atLine_twoWordCpu {pc : Word} {w₁ w₂ : ℤ} {op : String} {args : List String}
    (h₁ : Fetches (twoWordCpu pc) pc (BitVec.ofInt 32 w₁))
    (h₂ : Fetches (twoWordCpu pc) (pc + 4#32) (BitVec.ofInt 32 w₂)) :
    AtLine (twoWordCpu pc) (twoWordLine op args pc) pc [w₁, w₂] where
  running := rfl
  emuPc := rfl
  line := rfl
  fetches k w hk := by
    match k, hk with
    | 0, rfl => rwa [Nat.mul_zero, BitVec.add_zero]
    | 1, rfl => exact h₂

theorem two_word_effect_twoWordCpu :
    TwoSteps (twoWordCpu 0#32) (leaves (twoWordCpu 0#32) 11 0xFFFFF800#32 8#32) ∧
      TwoSteps (twoWordCpu 8#32) (leaves (twoWordCpu 8#32) 10 0x2000#32 16#32) ∧
      TwoSteps (twoWordCpu 16#32) (leaves (twoWordCpu 16#32) 1 24#32 0#32) := by
  refine ⟨?_, ?_, ?_⟩
  · have he : encodeLine .plain twoWordSyms (twoWordLine "li" ["a1", "0xFFFFF800"] 0#32) =
        .ok [0x000005B7, 0x80058593] := by decide +kernel
    have hrd : (twoWordLine "li" ["a1", "0xFFFFF800"] 0#32).reg .plain 0 = .ok 11 := by
      decide +kernel
    have hval : (twoWordLine "li" ["a1", "0xFFFFF800"] 0#32).value .plain twoWordSyms 1 =
        .ok 0xFFFFF800 := by decide +kernel
    obtain ⟨-, rd, v, hr, hv, h⟩ := (two_word_effect ..).li _ rfl he
    cases hrd.symm.trans hr
    cases hval.symm.trans hv
    exact h _ _ (atLine_twoWordCpu (fetches_twoWordCpu rfl (by decide) (by decide))
      (fetches_twoWordCpu rfl (by decide) (by decide))) (by decide)
  · have he : encodeLine .plain twoWordSyms (twoWordLine "la" ["a0", "table"] 8#32) =
        .ok [0x00002517, 0xFF850513] := by decide +kernel
    have hrd : (twoWordLine "la" ["a0", "table"] 8#32).reg .plain 0 = .ok 10 := by decide +kernel
    have hval : (twoWordLine "la" ["a0", "table"] 8#32).value .plain twoWordSyms 1 =
        .ok 0x2000 := by decide +kernel
    obtain ⟨-, rd, v, hr, hv, h⟩ := (two_word_effect ..).la _ rfl he
    cases hrd.symm.trans hr
    cases hval.symm.trans hv
    exact h _ _ (atLine_twoWordCpu (fetches_twoWordCpu rfl (by decide) (by decide))
      (fetches_twoWordCpu rfl (by decide) (by decide))) (by decide)
  · have he : encodeLine .plain twoWordSyms (twoWordLine "call" ["start"] 16#32) =
        .ok [0x00000097, 0xFF0080E7] := by decide +kernel
    have hval : (twoWordLine "call" ["start"] 16#32).value .plain twoWordSyms 0 = .ok 0 := by
      decide +kernel
    obtain ⟨-, v, hv, h⟩ := (two_word_effect ..).call _ rfl he
    cases hval.symm.trans hv
    exact h _ _ (atLine_twoWordCpu (fetches_twoWordCpu rfl (by decide) (by decide))
      (fetches_twoWordCpu rfl (by decide) (by decide))) (by decide)

end Effects
end RiscForge.Assembler
