import RiscForge.Assembler.Assemble
import RiscForge.Assembler.Inverse
import RiscForge.Refmodel.Access

/-! The control transfers: the target as written, and the one the emitted words denote. -/
namespace RiscForge.Assembler

open Lib Rtl Refmodel

section Split

theorem bit11_iff (n : ℕ) : ((n % 4096 : ℕ) : ℤ) &&& 0x800 ≠ 0 ↔ 2048 ≤ n % 4096 := by
  have h : ((n % 4096 : ℕ) : ℤ) &&& 0x800 = ((n % 4096 &&& 2 ^ 11 : ℕ) : ℤ) := rfl
  rw [h, Nat.and_two_pow, Nat.testBit_eq_decide_div_mod_eq]
  have hb : n % 4096 / 2 ^ 11 % 2 = 1 ↔ 2048 ≤ n % 4096 := by omega
  simp only [hb]
  by_cases hn : 2048 ≤ n % 4096 <;> simp [hn]

/-- The carry of the sign-extended lower half goes into the upper half. -/
theorem hi20_lo12 (b : Word) :
    BitVec.ofInt 20 (hi20 b.toNat) ++ 0#12 +
      (BitVec.ofInt 12 ((b.toNat : ℤ) &&& 0xFFF)).signExtend 32 = b := by
  have hlo : (b.toNat : ℤ) &&& 0xFFF = ((b.toNat % 4096 : ℕ) : ℤ) := and_mask_natCast _ 12
  have hhi : (b.toNat : ℤ) >>> 12 &&& 0xFFFFF = ((b.toNat / 4096 % 2 ^ 20 : ℕ) : ℤ) := by
    rw [shr_ofNat, natCast_shiftRight, Nat.shiftRight_eq_div_pow]
    exact and_mask_natCast _ 20
  have hinc : ((b.toNat / 4096 % 2 ^ 20 : ℕ) : ℤ) + 1 &&& 0xFFFFF =
      (((b.toNat / 4096 % 2 ^ 20 + 1) % 2 ^ 20 : ℕ) : ℤ) := and_mask_natCast _ 20
  have ht : (BitVec.ofInt 12 ((b.toNat % 4096 : ℕ) : ℤ)).toInt =
      if 2048 ≤ b.toNat % 4096 then ((b.toNat % 4096 : ℕ) : ℤ) - 4096 else (b.toNat % 4096 : ℕ) := by
    rw [BitVec.toInt_ofInt]
    split
    · rw [Int.bmod_def]
      omega
    · rw [Int.bmod_def]
      omega
  have hb := b.isLt
  rw [ofInt_append_zeros, BitVec.signExtend, hlo, ht, ← BitVec.ofInt_add]
  simp only [hi20]
  rw [hlo, hhi, hinc]
  simp only [bit11_iff]
  apply BitVec.eq_of_toNat_eq
  rw [BitVec.toNat_ofInt]
  split <;> omega

end Split

section Denoted

/-- The address that the words of a transfer at `pc` denote. -/
def denoted (pc : ℤ) : List ℤ → Option ℤ
  | [w] =>
    match (IntEnum.ofValue (opcodeField w) : Option Opcode) with
    | some .branch => some (pc + Refmodel.immB w)
    | some .jal => some (pc + Refmodel.immJ w)
    | _ => none
  | [hi, lo] =>
    match (IntEnum.ofValue (opcodeField hi) : Option Opcode),
      (IntEnum.ofValue (opcodeField lo) : Option Opcode) with
    | some .auipc, some .jalr =>
      some (u32 (u32 (pc + Refmodel.immU hi) + Refmodel.immI lo &&& ~~~1))
    | _, _ => none
  | _ => none

theorem ofValue_opcodeOf (o : Opcode) :
    (IntEnum.ofValue ((BitVec.ofInt 7 (opcodeOf o)).toNat : ℤ) : Option Opcode) = some o := by
  cases o <;> rfl

variable {pc v rd rs1 rs2 f3 : ℤ}

/-- The encodings with an offset lose its bit 0. -/
theorem denoted_bType (hv : -2 ^ 12 ≤ v ∧ v < 2 ^ 12) :
    denoted pc [bType (opcodeOf .branch) f3 rs1 rs2 (BitVec.ofInt 13 v).toNat] =
      some (pc + (v - v % 2)) := by
  have ho : (IntEnum.ofValue (opcodeField (bType (opcodeOf .branch) f3 rs1 rs2
      (BitVec.ofInt 13 v).toNat)) : Option Opcode) = some .branch := by
    rw [bType_eq, opcodeField_eq, bWord, opcode_rWord, ofValue_opcodeOf]
  simp only [denoted, ho]
  rw [bType_eq, ofInt_toNat, Refmodel.immB_eq, immB_bWord, drop_bit,
    toInt_signExtend (by omega) (by omega)]

theorem denoted_jType (hv : -2 ^ 20 ≤ v ∧ v < 2 ^ 20) :
    denoted pc [jType (opcodeOf .jal) rd (BitVec.ofInt 21 v).toNat] =
      some (pc + (v - v % 2)) := by
  have ho : (IntEnum.ofValue (opcodeField (jType (opcodeOf .jal) rd
      (BitVec.ofInt 21 v).toNat)) : Option Opcode) = some .jal := by
    rw [jType_eq, opcodeField_eq, jWord, opcode_uWord, ofValue_opcodeOf]
  simp only [denoted, ho]
  rw [jType_eq, ofInt_toNat, Refmodel.immJ_eq, immJ_jWord, drop_bit,
    toInt_signExtend (by omega) (by omega)]

theorem clear_bit0 (x : ℤ) : x &&& ~~~1 = x - x % 2 := and_not_mask x 1

/-- AUIPC and JALR reach any target, less its bit 0. -/
theorem denoted_call (target : ℤ) :
    denoted pc [uType (opcodeOf .auipc) 1 (hi20 (target - pc &&& 0xFFFFFFFF)),
      iType (opcodeOf .jalr) 1 0 1 ((target - pc &&& 0xFFFFFFFF) &&& 0xFFF)] =
        some (u32 (target &&& ~~~1)) := by
  rw [and_word]
  generalize hb : BitVec.ofInt 32 (target - pc) = b
  have hu : (IntEnum.ofValue (opcodeField (uType (opcodeOf .auipc) 1 (hi20 b.toNat))) :
      Option Opcode) = some .auipc := by
    rw [uType_eq, opcodeField_eq, opcode_uWord, ofValue_opcodeOf]
  have hi : (IntEnum.ofValue (opcodeField (iType (opcodeOf .jalr) 1 0 1
      ((b.toNat : ℤ) &&& 0xFFF))) : Option Opcode) = some .jalr := by
    rw [iType_eq, opcodeField_eq, iWord, opcode_rWord, ofValue_opcodeOf]
  simp only [denoted, hu, hi]
  rw [uType_eq, iType_eq, Refmodel.immU_eq, immU_uWord, Refmodel.immI_eq, immI_iWord]
  congr 1
  have hs := hi20_lo12 b
  rw [u32_eq, u32_eq, u32_eq, ofInt_and (y := ~~~1), ofInt_and (y := ~~~1), BitVec.ofInt_add,
    ofInt_toNat, BitVec.ofInt_add, ofInt_toNat, BitVec.ofInt_toInt, BitVec.add_assoc, hs, ← hb,
    ofInt_sub, BitVec.add_comm, BitVec.sub_add_cancel]

end Denoted

section Errors
variable {ln : Line} {target v : ℤ} {even : Option String} {what : String} {n : ℕ}

theorem fitSigned_asm : (∃ e, ln.fitSigned v (n + 1) what = .error (.asm e)) ↔
    ¬ (-2 ^ n ≤ v ∧ v < 2 ^ n) ∧ v.natAbs < 10 ^ intMaxStrDigits := by
  simp only [Line.fitSigned, fitSigned, Nat.add_sub_cancel, shiftLeft_one, Int.le_sub_one_iff]
  split
  case isTrue h => simp [h, pure, Except.pure]
  case isFalse h =>
    unfold showInt pyStr
    split
    case h_1 hs =>
      split at hs
      case isTrue hd => simp [h, hd, asmError, bind, Except.bind]
      case isFalse => cases hs
    case h_2 hs =>
      split at hs
      case isTrue => cases hs
      case isFalse hd => simp [hd, bind, Except.bind]

theorem offset_asm (h : ¬ Parity even (target - ln.pc)) :
    ∃ e, ln.offset target even = .error (.asm e) := by
  cases even with
  | none => exact (h fun h' => by cases h').elim
  | some what =>
    have ho : (target - ln.pc) % 2 ≠ 0 := fun h0 => h fun _ => h0
    unfold Line.offset
    simp only [and_one]
    rw [if_pos ho]
    exact ⟨_, rfl⟩

theorem bind_pure_asm {α β : Type} {x : Asm α} {g : α → β} :
    (∃ e, (x >>= fun a => pure (g a)) = .error (.asm e)) ↔ ∃ e, x = .error (.asm e) := by
  cases x <;> simp [bind, Except.bind, pure, Except.pure]

/-- What an encoder with an offset rejects as an error of the program. -/
theorem offset_bind_asm {g : ℤ → List ℤ} :
    (∃ e, (ln.offset target even >>= fun offset => ln.fitSigned offset (n + 1) what >>=
      fun imm => pure (g imm)) = .error (.asm e)) ↔
      (Parity even (target - ln.pc) → ¬ (-2 ^ n ≤ target - ln.pc ∧ target - ln.pc < 2 ^ n) ∧
        (target - ln.pc).natAbs < 10 ^ intMaxStrDigits) := by
  by_cases hp : Parity even (target - ln.pc)
  · have ho : ln.offset target even = .ok (target - ln.pc) := offset_eq_ok.mpr ⟨rfl, hp⟩
    rw [ho, imp_iff_right hp, ← @fitSigned_asm ln _ what n]
    exact bind_pure_asm
  · obtain ⟨e, he⟩ := offset_asm hp
    rw [he]
    exact iff_of_true ⟨e, rfl⟩ fun h => (hp h).elim

end Errors

section Transfers
variable {py : Python} {syms : Syms} {ln : Line} {op : String} {target : ℤ} {out : List ℤ}

/-- A control transfer whose operands can be read, and its resolved target. -/
inductive Transfer (py : Python) (syms : Syms) (ln : Line) : String → ℤ → Prop
  | branch {op : String} {f3 : F3Branch} {rs1 rs2 target : ℤ} (ho : branchTable op = some f3)
      (hn : ln.args.length = 3) (h1 : ln.reg py 0 = .ok rs1) (h2 : ln.reg py 1 = .ok rs2)
      (ht : ln.value py syms 2 = .ok target) : Transfer py syms ln op target
  | jal {rd target : ℤ} (h : ln.jalOperands py syms = .ok (rd, target)) :
      Transfer py syms ln "jal" target
  | j {target : ℤ} (hn : ln.args.length = 1) (ht : ln.value py syms 0 = .ok target) :
      Transfer py syms ln "j" target
  | beqz {rs1 target : ℤ} (hn : ln.args.length = 2) (h1 : ln.reg py 0 = .ok rs1)
      (ht : ln.value py syms 1 = .ok target) : Transfer py syms ln "beqz" target
  | bnez {rs1 target : ℤ} (hn : ln.args.length = 2) (h1 : ln.reg py 0 = .ok rs1)
      (ht : ln.value py syms 1 = .ok target) : Transfer py syms ln "bnez" target
  | call {target : ℤ} (hn : ln.args.length = 1) (ht : ln.value py syms 0 = .ok target) :
      Transfer py syms ln "call" target

/-- The mnemonics of the transfers with a target operand. -/
def IsTransfer (op : String) : Prop :=
  (branchTable op).isSome = true ∨ op ∈ ["jal", "j", "beqz", "bnez", "call"]

/-- The transfers whose encoder checks the parity of the offset. -/
def checksParity (op : String) : Bool := op = "jal" || (branchTable op).isSome

/-- The bits of the offset below its sign bit; CALL reaches every target. -/
def reach : String → Option ℕ
  | "call" => none
  | "jal" | "j" => some 20
  | _ => some 12

def InReach (ln : Line) (op : String) (target : ℤ) : Prop :=
  ∀ n, reach op = some n → -2 ^ n ≤ target - ln.pc ∧ target - ln.pc < 2 ^ n

/-- What the words can denote has bit 0 clear: an offset, and for CALL the target itself. -/
def EvenTarget (ln : Line) (op : String) (target : ℤ) : Prop :=
  if op = "call" then target % 2 = 0 else (target - ln.pc) % 2 = 0

/-- An accepted transfer denotes its target, and any other one is an error of the program. -/
structure Exact (py : Python) (syms : Syms) (ln : Line) (op : String) : Prop where
  resolved : ∀ out, encodeLine py syms ln = .ok out → ∃ target, Transfer py syms ln op target
  encodes : ∀ out target, encodeLine py syms ln = .ok out → Transfer py syms ln op target →
    denoted ln.pc out = some (if op = "call" then u32 target else target)
  rejects : ∀ target, Transfer py syms ln op target →
    ¬ (EvenTarget ln op target ∧ InReach ln op target) →
      ∃ e, encodeLine py syms ln = .error (.asm e)

/-- Where an encoder has no parity check the target must be even, and an offset out of reach must
be short enough to be shown. -/
structure Careful (ln : Line) (op : String) (target : ℤ) : Prop where
  even : checksParity op = false → InReach ln op target → EvenTarget ln op target
  shown : ¬ InReach ln op target → (checksParity op = true → EvenTarget ln op target) →
    (target - ln.pc).natAbs < 10 ^ intMaxStrDigits

section Offset
variable {n : ℕ} {even : Option String} {what : String} {g : ℤ → ℤ}

/-- The encoders with an offset, of which only the parity check and the width differ. -/
theorem careful_of_offset
    (he : encodeLine py syms ln = (ln.offset target even >>= fun offset =>
      ln.fitSigned offset (n + 1) what >>= fun imm => pure [g imm]))
    (hd : ∀ v, -2 ^ n ≤ v ∧ v < 2 ^ n →
      denoted ln.pc [g (BitVec.ofInt (n + 1) v).toNat] = some (ln.pc + (v - v % 2)))
    (hc : op ≠ "call") (hr : reach op = some n) (hk : checksParity op = even.isSome) :
    ((∀ out, encodeLine py syms ln = .ok out → denoted ln.pc out = some target) ∧
      (¬ (EvenTarget ln op target ∧ InReach ln op target) →
        ∃ e, encodeLine py syms ln = .error (.asm e))) ↔ Careful ln op target := by
  have hE : EvenTarget ln op target ↔ (target - ln.pc) % 2 = 0 := by rw [EvenTarget, if_neg hc]
  have hR : InReach ln op target ↔ -2 ^ n ≤ target - ln.pc ∧ target - ln.pc < 2 ^ n := by
    simp [InReach, hr]
  have hP : Parity even (target - ln.pc) ↔ (checksParity op = true → EvenTarget ln op target) := by
    rw [Parity, hk, hE]
  have hok : (∀ out, encodeLine py syms ln = .ok out → denoted ln.pc out = some target) ↔
      ((checksParity op = true → EvenTarget ln op target) → InReach ln op target →
        EvenTarget ln op target) := by
    have hx : ∀ out, encodeLine py syms ln = .ok out ↔ Reaches ln target n even ∧
        out = [g (BitVec.ofInt (n + 1) (target - ln.pc)).toNat] := fun out => by
      rw [he, offset_bind, pure_eq_ok]
    have hden : InReach ln op target →
        (denoted ln.pc [g (BitVec.ofInt (n + 1) (target - ln.pc)).toNat] = some target ↔
          EvenTarget ln op target) := fun h => by
      rw [hd _ (hR.mp h), hE, Option.some.injEq]
      omega
    constructor
    · intro h hp hr
      have hreach : Reaches ln target n even := ⟨hP.mpr hp, (hR.mp hr).1, (hR.mp hr).2⟩
      exact (hden hr).mp (h _ ((hx _).mpr ⟨hreach, rfl⟩))
    · intro h out ho
      obtain ⟨hreach, rfl⟩ := (hx out).mp ho
      have hin := hR.mpr ⟨hreach.lower, hreach.upper⟩
      exact (hden hin).mpr (h (hP.mp hreach.parity) hin)
  have herr := @offset_bind_asm ln target even what n fun imm => [g imm]
  rw [← he, hP, ← hR] at herr
  rw [hok, herr]
  constructor
  · rintro ⟨h1, h2⟩
    refine ⟨fun hc => h1 (by simp [hc]), fun hn hp => ?_⟩
    exact (h2 (fun h => hn h.2) hp).2
  · rintro ⟨heven, hshown⟩
    have hev : (checksParity op = true → EvenTarget ln op target) → InReach ln op target →
        EvenTarget ln op target := by
      intro hp hr
      cases hcheck : checksParity op with
      | true => exact hp hcheck
      | false => exact heven hcheck hr
    refine ⟨hev, fun hn hp => ?_⟩
    have hout : ¬ InReach ln op target := fun hr => hn ⟨hev hp hr, hr⟩
    exact ⟨hout, hshown hout hp⟩

end Offset

theorem encodeLine_branch (py : Python) (syms : Syms) {f3 : F3Branch} (hop : ln.op = some op)
    (ho : branchTable op = some f3) :
    encodeLine py syms ln = encodeBranch py syms ln op f3 ∧ op ≠ "call" ∧ reach op = some 12 := by
  unfold branchTable at ho
  split at ho <;> cases ho <;> simp only [encodeLine, hop] <;>
    exact ⟨rfl, by decide, rfl⟩

section Operands
variable {f3 : F3Branch} {rd rs1 rs2 : ℤ}

/-! The encoders with an offset, once their operands are read. -/

theorem encodeBranch_of_operands (hn : ln.args.length = 3) (h1 : ln.reg py 0 = .ok rs1)
    (h2 : ln.reg py 1 = .ok rs2) (ht : ln.value py syms 2 = .ok target) :
    encodeBranch py syms ln op f3 = (ln.offset target (some "branch") >>= fun offset =>
      ln.fitSigned offset 13 "branch offset" >>= fun imm =>
        pure [bType (opcodeOf .branch) (IntEnum.value f3) rs1 rs2 imm]) := by
  rw [encodeBranch, expectArgs, if_neg (not_not.mpr hn), h1, h2, ht]
  rfl

theorem encodeJal_of_operands (h : ln.jalOperands py syms = .ok (rd, target)) :
    encodeJal py syms ln = (ln.offset target (some "jal") >>= fun offset =>
      ln.fitSigned offset 21 "jal offset" >>= fun imm =>
        pure [jType (opcodeOf .jal) rd imm]) := by
  rw [encodeJal, h]
  rfl

theorem encodeJ_of_operands (hn : ln.args.length = 1) (ht : ln.value py syms 0 = .ok target) :
    encodeJ py syms ln op = (ln.offset target none >>= fun offset =>
      ln.fitSigned offset 21 "j offset" >>= fun imm =>
        pure [jType (opcodeOf .jal) 0 imm]) := by
  rw [encodeJ, expectArgs, if_neg (not_not.mpr hn), ht]
  rfl

theorem encodeBranchZero_of_operands (hn : ln.args.length = 2) (h1 : ln.reg py 0 = .ok rs1)
    (ht : ln.value py syms 1 = .ok target) :
    encodeBranchZero py syms ln op f3 = (ln.offset target none >>= fun offset =>
      ln.fitSigned offset 13 (op ++ " offset") >>= fun imm =>
        pure [bType (opcodeOf .branch) (IntEnum.value f3) rs1 0 imm]) := by
  rw [encodeBranchZero, expectArgs, if_neg (not_not.mpr hn), h1, ht]
  rfl

theorem encodeCall_of_operands (hn : ln.args.length = 1) (ht : ln.value py syms 0 = .ok target) :
    encodeCall py syms ln op = .ok [uType (opcodeOf .auipc) 1
      (hi20 (target - ln.pc &&& 0xFFFFFFFF)),
        iType (opcodeOf .jalr) 1 0 1 ((target - ln.pc &&& 0xFFFFFFFF) &&& 0xFFF)] := by
  rw [encodeCall, expectArgs, if_neg (not_not.mpr hn), ht]
  rfl

end Operands

/-- CALL reaches every target, but only an even one is kept. -/
theorem careful_of_call (hx : encodeLine py syms ln = .ok [uType (opcodeOf .auipc) 1
      (hi20 (target - ln.pc &&& 0xFFFFFFFF)),
        iType (opcodeOf .jalr) 1 0 1 ((target - ln.pc &&& 0xFFFFFFFF) &&& 0xFFF)]) :
    ((∀ out, encodeLine py syms ln = .ok out → denoted ln.pc out = some (u32 target)) ∧
      (¬ (EvenTarget ln "call" target ∧ InReach ln "call" target) →
        ∃ e, encodeLine py syms ln = .error (.asm e))) ↔ Careful ln "call" target := by
  have hR : InReach ln "call" target := fun n hn => by cases hn
  have hd : denoted ln.pc [uType (opcodeOf .auipc) 1
      (hi20 (target - ln.pc &&& 0xFFFFFFFF)),
        iType (opcodeOf .jalr) 1 0 1 ((target - ln.pc &&& 0xFFFFFFFF) &&& 0xFFF)] =
          some (u32 target) ↔ target % 2 = 0 := by
    rw [denoted_call, Option.some.injEq, clear_bit0, u32_emod, u32_emod]
    omega
  constructor
  · rintro ⟨h1, -⟩
    exact ⟨fun _ _ => hd.mp (h1 _ hx), fun h => (h hR).elim⟩
  · rintro ⟨heven, -⟩
    have h2 : target % 2 = 0 := heven rfl hR
    refine ⟨fun out ho => ?_, fun h => (h ⟨h2, hR⟩).elim⟩
    rw [hx] at ho
    cases ho
    exact hd.mpr h2

/-- When a transfer whose operands are read keeps its target or is rejected. -/
theorem careful_of_transfer (hop : ln.op = some op) (ht : Transfer py syms ln op target) :
    ((∀ out, encodeLine py syms ln = .ok out →
        denoted ln.pc out = some (if op = "call" then u32 target else target)) ∧
      (¬ (EvenTarget ln op target ∧ InReach ln op target) →
        ∃ e, encodeLine py syms ln = .error (.asm e))) ↔ Careful ln op target := by
  cases ht with
  | branch ho hn h1 h2 ht =>
    obtain ⟨he, hc, hr⟩ := encodeLine_branch py syms hop ho
    rw [if_neg hc]
    exact careful_of_offset (he.trans (encodeBranch_of_operands hn h1 h2 ht))
      (fun _ => denoted_bType) hc hr (by simp [checksParity, ho])
  | jal h =>
    have he : encodeLine py syms ln = encodeJal py syms ln := by
      simp only [encodeLine, hop]
      rfl
    exact careful_of_offset (he.trans (encodeJal_of_operands h)) (fun _ => denoted_jType)
      (by decide) rfl rfl
  | j hn ht =>
    have he : encodeLine py syms ln = encodeJ py syms ln "j" := by
      simp only [encodeLine, hop]
      rfl
    exact careful_of_offset (he.trans (encodeJ_of_operands hn ht)) (fun _ => denoted_jType)
      (by decide) rfl rfl
  | beqz hn h1 ht =>
    have he : encodeLine py syms ln = encodeBranchZero py syms ln "beqz" .beq := by
      simp only [encodeLine, hop]
      rfl
    exact careful_of_offset (he.trans (encodeBranchZero_of_operands hn h1 ht))
      (fun _ => denoted_bType) (by decide) rfl rfl
  | bnez hn h1 ht =>
    have he : encodeLine py syms ln = encodeBranchZero py syms ln "bnez" .bne := by
      simp only [encodeLine, hop]
      rfl
    exact careful_of_offset (he.trans (encodeBranchZero_of_operands hn h1 ht))
      (fun _ => denoted_bType) (by decide) rfl rfl
  | call hn ht =>
    have he : encodeLine py syms ln = encodeCall py syms ln "call" := by
      simp only [encodeLine, hop]
      rfl
    exact careful_of_call (he.trans (encodeCall_of_operands hn ht))

theorem transfer_of_accepted (hop : ln.op = some op) (ht : IsTransfer op)
    (h : encodeLine py syms ln = .ok out) : ∃ target, Transfer py syms ln op target := by
  rcases ht with ht | ht
  · obtain ⟨f3, ho⟩ := Option.isSome_iff_exists.mp ht
    rw [(encodeLine_branch py syms hop ho).1] at h
    obtain ⟨hn, _, h1, _, h2, target, hv, -⟩ := encodeBranch_eq_ok.mp h
    exact ⟨target, .branch ho hn h1 h2 hv⟩
  · simp only [List.mem_cons, List.not_mem_nil, or_false] at ht
    rcases ht with rfl | rfl | rfl | rfl | rfl
    · simp only [encodeLine, hop] at h
      obtain ⟨_, target, hv, -⟩ := encodeJal_eq_ok.mp h
      exact ⟨target, .jal hv⟩
    · simp only [encodeLine, hop] at h
      obtain ⟨hn, target, hv, -⟩ := encodeJ_eq_ok.mp h
      exact ⟨target, .j hn hv⟩
    · simp only [encodeLine, hop] at h
      obtain ⟨hn, _, h1, target, hv, -⟩ := encodeBranchZero_eq_ok.mp h
      exact ⟨target, .beqz hn h1 hv⟩
    · simp only [encodeLine, hop] at h
      obtain ⟨hn, _, h1, target, hv, -⟩ := encodeBranchZero_eq_ok.mp h
      exact ⟨target, .bnez hn h1 hv⟩
    · simp only [encodeLine, hop] at h
      obtain ⟨hn, target, hv, -⟩ := encodeCall_eq_ok.mp h
      exact ⟨target, .call hn hv⟩

/-- Where the encoders keep the target of a control transfer or say that they cannot. -/
theorem transfer_exact_iff (hop : ln.op = some op) (ht : IsTransfer op) :
    Exact py syms ln op ↔ ∀ target, Transfer py syms ln op target → Careful ln op target := by
  constructor
  · intro h target htr
    exact (careful_of_transfer hop htr).mp ⟨fun out ho => h.encodes out target ho htr,
      h.rejects target htr⟩
  · intro h
    exact {
      resolved := fun out ho => transfer_of_accepted hop ht ho
      encodes := fun out target ho htr => ((careful_of_transfer hop htr).mpr (h target htr)).1 out ho
      rejects := fun target htr => ((careful_of_transfer hop htr).mpr (h target htr)).2 }

/-- `j` to an even and to an odd address. -/
def evenJump : Line := ⟨1, "j 8", none, some "j", ["8"], .text, 0, 4⟩
def oddJump : Line := ⟨1, "j 1", none, some "j", ["1"], .text, 0, 4⟩

theorem transfer_exact_iff_evenJump : Exact .plain [] evenJump "j" := by
  refine (transfer_exact_iff rfl (.inr (by decide))).mpr fun target ht => ?_
  generalize hop : "j" = op at ht
  cases ht with
  | branch ho => subst hop; cases ho
  | jal | beqz | bnez | call => exact absurd hop (by decide)
  | j _ ht =>
    have h8 : evenJump.value .plain [] 0 = .ok 8 := by decide +kernel
    cases ht.symm.trans h8
    have hR : InReach evenJump "j" 8 := fun n hn => by
      cases hn
      exact ⟨by decide, by decide⟩
    exact ⟨fun _ _ => by simp [EvenTarget, evenJump], fun h => (h hR).elim⟩

/-- `j` rounds the odd target down. -/
theorem oddJump_not_exact :
    (layOut .plain "j 1" 0 none).map Prod.fst = .ok [oddJump] ∧ ¬ Exact .plain [] oddJump "j" := by
  refine ⟨by decide +kernel, fun h => ?_⟩
  have he : encodeLine .plain [] oddJump = .ok [0x6F] := by decide +kernel
  have ht : Transfer .plain [] oddJump "j" 1 := .j rfl (by decide +kernel)
  have hd : denoted 0 [0x6F] = some 0 := by decide +kernel
  have hx := h.encodes _ _ he ht
  rw [show oddJump.pc = 0 from rfl, hd] at hx
  cases hx

end Transfers
end RiscForge.Assembler
