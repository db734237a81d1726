import Mathlib.Tactic.NormNum
import RiscForge.Assembler.Encode

/-! What each encoder accepts, and the words it then emits. -/
namespace RiscForge.Assembler

open Lib Rtl Refmodel

section Monad
variable {α β : Type} {x : Asm α} {f : α → Asm β} {a : α} {b : β}

theorem bind_eq_ok : (x >>= f) = .ok b ↔ ∃ a, x = .ok a ∧ f a = .ok b := by
  cases x with
  | error e => simp [bind, Except.bind]
  | ok a => simp [bind, Except.bind]

theorem pure_eq_ok {a' : α} : (pure a : Asm α) = .ok a' ↔ a' = a := by
  constructor
  · rintro ⟨⟩
    rfl
  · rintro rfl
    rfl

theorem asmError_ne_ok {n : ℕ} {msg src : String} : (asmError n msg src : Asm α) ≠ .ok a := by
  intro h
  cases h

theorem fail_ne_ok {ln : Line} {msg : String} : (ln.fail msg : Asm α) ≠ .ok a := by
  intro h
  cases h

theorem show_ne_ok {v : ℤ} {g : String → Asm α} (hg : ∀ s, g s ≠ .ok a) :
    (showInt v >>= g) ≠ .ok a := by
  intro h
  obtain ⟨s, -, hs⟩ := bind_eq_ok.mp h
  exact hg s hs

end Monad

section Fitting
variable {v r : ℤ} {lineno : ℕ} {src what : String} {n : ℕ}

theorem shiftLeft_one (n : ℕ) : ((1 <<< n : ℕ) : ℤ) = 2 ^ n := by
  rw [Nat.one_shiftLeft]
  norm_num

theorem and_ones (v : ℤ) (n : ℕ) : v &&& (2 ^ n - 1) = ((BitVec.ofInt n v).toNat : ℤ) := by
  rw [← and_mask, Nat.cast_sub Nat.one_le_two_pow]
  norm_num

theorem fitSigned_eq_ok :
    fitSigned v lineno src what (n + 1) = .ok r ↔
      (-2 ^ n ≤ v ∧ v < 2 ^ n) ∧ r = ((BitVec.ofInt (n + 1) v).toNat : ℤ) := by
  unfold fitSigned
  simp only [Nat.add_sub_cancel, shiftLeft_one, Int.le_sub_one_iff]
  split
  case isTrue h => rw [pure_eq_ok, and_ones, and_iff_right h]
  case isFalse h =>
    constructor
    · intro hr
      exact (show_ne_ok (fun _ => asmError_ne_ok) hr).elim
    · rintro ⟨h', -⟩
      exact (h h').elim

theorem fitUnsigned_eq_ok :
    fitUnsigned v lineno src what n = .ok r ↔ (0 ≤ v ∧ v < 2 ^ n) ∧ r = v := by
  unfold fitUnsigned
  simp only [shiftLeft_one]
  split
  case isTrue h => rw [pure_eq_ok, and_iff_right h]
  case isFalse h =>
    constructor
    · intro hr
      exact (show_ne_ok (fun _ => asmError_ne_ok) hr).elim
    · rintro ⟨h', -⟩
      exact (h h').elim

variable {ln : Line}

theorem Line.fitSigned_eq_ok :
    ln.fitSigned v (n + 1) what = .ok r ↔
      (-2 ^ n ≤ v ∧ v < 2 ^ n) ∧ r = ((BitVec.ofInt (n + 1) v).toNat : ℤ) :=
  Assembler.fitSigned_eq_ok

theorem expectArgs_bind {α : Type} {f : Unit → Asm α} {b : α} :
    (expectArgs ln n what >>= f) = .ok b ↔ ln.args.length = n ∧ f () = .ok b := by
  unfold expectArgs
  split
  case isTrue h =>
    rw [bind_eq_ok]
    constructor
    · rintro ⟨_, hr, -⟩
      exact (fail_ne_ok hr).elim
    · rintro ⟨h', -⟩
      exact (h h').elim
  case isFalse h => exact (and_iff_right (not_not.mp h)).symm

theorem and_one (v : ℤ) : v &&& 1 = v % 2 := by
  have h : v &&& 1 = ((BitVec.ofInt 1 v).toNat : ℤ) := and_mask v (w := 1)
  rw [h, BitVec.toNat_ofInt]
  omega

/-- The offsets that an encoder without a parity check takes, and those of one with it. -/
def Parity (even : Option String) (offset : ℤ) : Prop := even.isSome = true → offset % 2 = 0

instance (even : Option String) (offset : ℤ) : Decidable (Parity even offset) := by
  unfold Parity
  infer_instance

theorem offset_eq_ok {target : ℤ} {even : Option String} :
    ln.offset target even = .ok r ↔ r = target - ln.pc ∧ Parity even r := by
  unfold Line.offset Parity
  cases even with
  | none => simp [eq_comm]
  | some what =>
    simp only [and_one, Option.isSome_some, forall_const]
    split
    case isTrue h =>
      constructor
      · intro hr
        exact (fail_ne_ok hr).elim
      · rintro ⟨rfl, h'⟩
        exact (h h').elim
    case isFalse h =>
      constructor
      · rintro ⟨⟩
        exact ⟨rfl, not_not.mp h⟩
      · rintro ⟨rfl, -⟩
        rfl

end Fitting

section Families
variable {py : Python} {syms : Syms} {ln : Line} {op : String} {out : List ℤ}

theorem encodeR_eq_ok {f3 : F3Op} {f7 : ℤ} :
    encodeR py ln op f3 f7 = .ok out ↔ ln.args.length = 3 ∧
      ∃ rd, ln.reg py 0 = .ok rd ∧ ∃ rs1, ln.reg py 1 = .ok rs1 ∧ ∃ rs2, ln.reg py 2 = .ok rs2 ∧
        out = [rType (opcodeOf .reg) rd (IntEnum.value f3) rs1 rs2 f7] := by
  rw [encodeR, expectArgs_bind]
  simp only [bind_eq_ok, pure_eq_ok]

theorem encodeIAlu_eq_ok {f3 : F3Op} :
    encodeIAlu py syms ln op f3 = .ok out ↔ ln.args.length = 3 ∧
      ∃ rd, ln.reg py 0 = .ok rd ∧ ∃ rs1, ln.reg py 1 = .ok rs1 ∧
        ∃ imm, ln.value py syms 2 = .ok imm ∧ (-2 ^ 11 ≤ imm ∧ imm < 2 ^ 11) ∧
          out = [iType (opcodeOf .imm) rd (IntEnum.value f3) rs1
            (BitVec.ofInt 12 imm).toNat] := by
  rw [encodeIAlu, expectArgs_bind]
  simp only [bind_eq_ok, pure_eq_ok, Line.fitSigned_eq_ok (n := 11)]
  grind

theorem encodeShift_eq_ok :
    encodeShift py syms ln op = .ok out ↔ ln.args.length = 3 ∧
      ∃ rd, ln.reg py 0 = .ok rd ∧ ∃ rs1, ln.reg py 1 = .ok rs1 ∧
        ∃ sh, ln.value py syms 2 = .ok sh ∧ (0 ≤ sh ∧ sh < 2 ^ 5) ∧
          out = [rType (opcodeOf .imm) rd (IntEnum.value (if op = "slli" then F3Op.sll else .sr))
            rs1 sh (if op = "srai" then Refmodel.f7Alt else f7Default)] := by
  rw [encodeShift, expectArgs_bind]
  simp only [bind_eq_ok, pure_eq_ok, fitUnsigned_eq_ok]
  grind

theorem encodeLoad_eq_ok {f3 : F3Load} :
    encodeLoad py syms ln op f3 = .ok out ↔ ln.args.length = 3 ∧
      ∃ rd, ln.reg py 0 = .ok rd ∧ ∃ imm, ln.value py syms 1 = .ok imm ∧
        ∃ rs1, ln.reg py 2 = .ok rs1 ∧ (-2 ^ 11 ≤ imm ∧ imm < 2 ^ 11) ∧
          out = [iType (opcodeOf .load) rd (IntEnum.value f3) rs1
            (BitVec.ofInt 12 imm).toNat] := by
  rw [encodeLoad, expectArgs_bind]
  simp only [bind_eq_ok, pure_eq_ok, Line.fitSigned_eq_ok (n := 11)]
  grind

theorem encodeStore_eq_ok {f3 : F3Store} :
    encodeStore py syms ln op f3 = .ok out ↔ ln.args.length = 3 ∧
      ∃ rs2, ln.reg py 0 = .ok rs2 ∧ ∃ imm, ln.value py syms 1 = .ok imm ∧
        ∃ rs1, ln.reg py 2 = .ok rs1 ∧ (-2 ^ 11 ≤ imm ∧ imm < 2 ^ 11) ∧
          out = [sType (opcodeOf .store) (IntEnum.value f3) rs1 rs2
            (BitVec.ofInt 12 imm).toNat] := by
  rw [encodeStore, expectArgs_bind]
  simp only [bind_eq_ok, pure_eq_ok, Line.fitSigned_eq_ok (n := 11)]
  grind

/-- The target is at an offset that fits a signed field of `n + 1` bits. -/
structure Reaches (ln : Line) (target : ℤ) (n : ℕ) (even : Option String) : Prop where
  parity : Parity even (target - ln.pc)
  lower : -2 ^ n ≤ target - ln.pc
  upper : target - ln.pc < 2 ^ n

theorem offset_bind {α : Type} {target : ℤ} {even : Option String} {what : String} {n : ℕ}
    {f : ℤ → Asm α} {b : α} :
    (ln.offset target even >>= fun offset => ln.fitSigned offset (n + 1) what >>= f) = .ok b ↔
      Reaches ln target n even ∧ f (BitVec.ofInt (n + 1) (target - ln.pc)).toNat = .ok b := by
  simp only [bind_eq_ok, offset_eq_ok, Line.fitSigned_eq_ok]
  constructor
  · rintro ⟨_, ⟨rfl, hp⟩, _, ⟨hr, rfl⟩, hf⟩
    exact ⟨⟨hp, hr.1, hr.2⟩, hf⟩
  · rintro ⟨hr, hf⟩
    exact ⟨_, ⟨rfl, hr.parity⟩, _, ⟨⟨hr.lower, hr.upper⟩, rfl⟩, hf⟩

theorem encodeBranch_eq_ok {f3 : F3Branch} :
    encodeBranch py syms ln op f3 = .ok out ↔ ln.args.length = 3 ∧
      ∃ rs1, ln.reg py 0 = .ok rs1 ∧ ∃ rs2, ln.reg py 1 = .ok rs2 ∧
        ∃ target, ln.value py syms 2 = .ok target ∧ Reaches ln target 12 (some "branch") ∧
          out = [bType (opcodeOf .branch) (IntEnum.value f3) rs1 rs2
            (BitVec.ofInt 13 (target - ln.pc)).toNat] := by
  rw [encodeBranch, expectArgs_bind]
  simp only [bind_eq_ok (x := ln.reg _ _), bind_eq_ok (x := ln.value _ _ _), offset_bind (n := 12),
    pure_eq_ok]

theorem encodeBranchZero_eq_ok {f3 : F3Branch} :
    encodeBranchZero py syms ln op f3 = .ok out ↔ ln.args.length = 2 ∧
      ∃ rs1, ln.reg py 0 = .ok rs1 ∧
        ∃ target, ln.value py syms 1 = .ok target ∧ Reaches ln target 12 none ∧
          out = [bType (opcodeOf .branch) (IntEnum.value f3) rs1 0
            (BitVec.ofInt 13 (target - ln.pc)).toNat] := by
  rw [encodeBranchZero, expectArgs_bind]
  simp only [bind_eq_ok (x := ln.reg _ _), bind_eq_ok (x := ln.value _ _ _), offset_bind (n := 12),
    pure_eq_ok]

theorem jalOperands_eq_ok {rd target : ℤ} :
    ln.jalOperands py syms = .ok (rd, target) ↔
      (ln.args.length = 1 ∧ rd = 1 ∧ ln.value py syms 0 = .ok target) ∨
        (ln.args.length = 2 ∧ ln.reg py 0 = .ok rd ∧ ln.value py syms 1 = .ok target) := by
  unfold Line.jalOperands
  split
  case isTrue h1 =>
    simp only [bind_eq_ok, pure_eq_ok]
    grind
  case isFalse h1 =>
    split
    case isTrue h2 =>
      simp only [bind_eq_ok, pure_eq_ok]
      grind
    case isFalse h2 => simp [h1, h2, fail_ne_ok]

theorem encodeJal_eq_ok :
    encodeJal py syms ln = .ok out ↔
      ∃ rd target, ln.jalOperands py syms = .ok (rd, target) ∧
        Reaches ln target 20 (some "jal") ∧
          out = [jType (opcodeOf .jal) rd (BitVec.ofInt 21 (target - ln.pc)).toNat] := by
  rw [encodeJal, bind_eq_ok]
  simp only [Prod.exists, offset_bind (n := 20), pure_eq_ok]

theorem encodeJ_eq_ok :
    encodeJ py syms ln op = .ok out ↔ ln.args.length = 1 ∧
      ∃ target, ln.value py syms 0 = .ok target ∧ Reaches ln target 20 none ∧
        out = [jType (opcodeOf .jal) 0 (BitVec.ofInt 21 (target - ln.pc)).toNat] := by
  rw [encodeJ, expectArgs_bind]
  simp only [bind_eq_ok (x := ln.value _ _ _), offset_bind (n := 20), pure_eq_ok]

theorem orElse_eq_ok {α : Type} {x y : Asm α} {a : α} :
    orElse x y = .ok a ↔ x = .ok a ∨ (∃ e, x = .error (.asm e)) ∧ y = .ok a := by
  cases x with
  | ok b => simp [orElse]
  | error e => cases e <;> simp [orElse]

/-- The second and third operand of JALR as `rs1, imm`, and as `imm(rs1)`. -/
def Line.rs1Imm (py : Python) (syms : Syms) (ln : Line) : Asm (ℤ × ℤ) := do
  let rs1 ← ln.reg py 1
  let imm ← ln.value py syms 2
  return (rs1, imm)

def Line.immRs1 (py : Python) (syms : Syms) (ln : Line) : Asm (ℤ × ℤ) := do
  let imm ← ln.value py syms 1
  let rs1 ← ln.reg py 2
  return (rs1, imm)

theorem rs1Imm_eq_ok {rs1 imm : ℤ} :
    ln.rs1Imm py syms = .ok (rs1, imm) ↔ ln.reg py 1 = .ok rs1 ∧ ln.value py syms 2 = .ok imm := by
  simp only [Line.rs1Imm, bind_eq_ok, pure_eq_ok]
  grind

theorem immRs1_eq_ok {rs1 imm : ℤ} :
    ln.immRs1 py syms = .ok (rs1, imm) ↔ ln.value py syms 1 = .ok imm ∧ ln.reg py 2 = .ok rs1 := by
  simp only [Line.immRs1, bind_eq_ok, pure_eq_ok]
  grind

theorem jalrOperands_eq_ok {rd rs1 imm : ℤ} :
    ln.jalrOperands py syms = .ok (rd, rs1, imm) ↔
      (ln.args.length = 1 ∧ rd = 1 ∧ ln.reg py 0 = .ok rs1 ∧ imm = 0) ∨
        (ln.args.length = 3 ∧ ln.reg py 0 = .ok rd ∧
          orElse (ln.rs1Imm py syms) (ln.immRs1 py syms) = .ok (rs1, imm)) := by
  unfold Line.jalrOperands
  split
  case isTrue h1 =>
    simp only [bind_eq_ok, pure_eq_ok]
    grind
  case isFalse h1 =>
    split
    case isTrue h3 =>
      change (ln.reg py 0 >>= fun rd => orElse (ln.rs1Imm py syms) (ln.immRs1 py syms) >>=
        fun p => pure (rd, p.1, p.2)) = _ ↔ _
      simp only [bind_eq_ok, pure_eq_ok]
      grind
    case isFalse h3 => simp [h1, h3, fail_ne_ok]

theorem encodeJalr_eq_ok :
    encodeJalr py syms ln = .ok out ↔
      ∃ rd rs1 imm, ln.jalrOperands py syms = .ok (rd, rs1, imm) ∧
        (-2 ^ 11 ≤ imm ∧ imm < 2 ^ 11) ∧
          out = [iType (opcodeOf .jalr) rd 0 rs1 (BitVec.ofInt 12 imm).toNat] := by
  rw [encodeJalr, bind_eq_ok]
  simp only [Prod.exists, bind_eq_ok, pure_eq_ok, Line.fitSigned_eq_ok (n := 11)]
  grind

theorem encodeUpper_eq_ok :
    encodeUpper py syms ln op = .ok out ↔ ln.args.length = 2 ∧
      ∃ rd, ln.reg py 0 = .ok rd ∧ ∃ v, ln.value py syms 1 = .ok v ∧ (-2 ^ 19 ≤ v ∧ v < 2 ^ 20) ∧
        out = [uType (opcodeOf (if op = "lui" then .lui else .auipc)) rd (v &&& 0xFFFFF)] := by
  rw [encodeUpper, expectArgs_bind]
  simp only [bind_eq_ok (x := ln.reg _ _), bind_eq_ok (x := ln.value _ _ _), shiftLeft_one]
  refine and_congr_right fun _ => exists_congr fun rd => and_congr_right fun _ =>
    exists_congr fun v => and_congr_right fun _ => ?_
  split
  case isTrue h => rw [pure_eq_ok, and_iff_right h]
  case isFalse h => simp only [show_ne_ok (fun _ => fail_ne_ok), h, false_and]

theorem encodeMove_eq_ok {f3 : F3Op} {imm : ℤ} :
    encodeMove py ln op f3 imm = .ok out ↔ ln.args.length = 2 ∧
      ∃ rd, ln.reg py 0 = .ok rd ∧ ∃ rs, ln.reg py 1 = .ok rs ∧
        out = [iType (opcodeOf .imm) rd (IntEnum.value f3) rs imm] := by
  rw [encodeMove, expectArgs_bind]
  simp only [bind_eq_ok, pure_eq_ok]

theorem encodeNeg_eq_ok :
    encodeNeg py ln op = .ok out ↔ ln.args.length = 2 ∧
      ∃ rd, ln.reg py 0 = .ok rd ∧ ∃ rs, ln.reg py 1 = .ok rs ∧
        out = [rType (opcodeOf .reg) rd (IntEnum.value F3Op.addSub) 0 rs Refmodel.f7Alt] := by
  rw [encodeNeg, expectArgs_bind]
  simp only [bind_eq_ok, pure_eq_ok]

theorem encodeJr_eq_ok :
    encodeJr py ln op = .ok out ↔ ln.args.length = 1 ∧
      ∃ rs1, ln.reg py 0 = .ok rs1 ∧ out = [iType (opcodeOf .jalr) 0 0 rs1 0] := by
  rw [encodeJr, expectArgs_bind]
  simp only [bind_eq_ok, pure_eq_ok]

theorem encodeRet_eq_ok :
    encodeRet ln = .ok out ↔ ln.args = [] ∧ out = [iType (opcodeOf .jalr) 0 0 1 0] := by
  unfold encodeRet
  split
  case isTrue h => simp [h, fail_ne_ok]
  case isFalse h => simp [not_not.mp h, eq_comm]

/-- The two words of LI: ADDI and NOP for a value of 12 bits, LUI and ADDI otherwise. -/
def liWords (rd v : ℤ) : List ℤ :=
  let v32 := v &&& 0xFFFFFFFF
  if -2 ^ 11 ≤ v ∧ v < 2 ^ 11 then
    [iType (opcodeOf .imm) rd (IntEnum.value F3Op.addSub) 0 (v &&& 0xFFF), nop]
  else
    [uType (opcodeOf .lui) rd (hi20 v32),
      iType (opcodeOf .imm) rd (IntEnum.value F3Op.addSub) rd (v32 &&& 0xFFF)]

theorem encodeLi_eq_ok :
    encodeLi py syms ln op = .ok out ↔ ln.args.length = 2 ∧
      ∃ rd, ln.reg py 0 = .ok rd ∧ ∃ v, ln.value py syms 1 = .ok v ∧ out = liWords rd v := by
  rw [encodeLi, expectArgs_bind]
  simp only [bind_eq_ok (x := ln.reg _ _), bind_eq_ok (x := ln.value _ _ _), shiftLeft_one,
    Int.le_sub_one_iff, liWords]
  refine and_congr_right fun _ => exists_congr fun rd => and_congr_right fun _ =>
    exists_congr fun v => and_congr_right fun _ => ?_
  split
  case isTrue h => rw [pure_eq_ok]
  case isFalse h => rw [pure_eq_ok]

theorem encodeLa_eq_ok :
    encodeLa py syms ln op = .ok out ↔ ln.args.length = 2 ∧
      ∃ rd, ln.reg py 0 = .ok rd ∧ ∃ target, ln.value py syms 1 = .ok target ∧
        out = [uType (opcodeOf .auipc) rd (hi20 (target - ln.pc &&& 0xFFFFFFFF)),
          iType (opcodeOf .imm) rd (IntEnum.value F3Op.addSub) rd
            ((target - ln.pc &&& 0xFFFFFFFF) &&& 0xFFF)] := by
  rw [encodeLa, expectArgs_bind]
  simp only [bind_eq_ok, pure_eq_ok]

theorem encodeCall_eq_ok :
    encodeCall py syms ln op = .ok out ↔ ln.args.length = 1 ∧
      ∃ target, ln.value py syms 0 = .ok target ∧
        out = [uType (opcodeOf .auipc) 1 (hi20 (target - ln.pc &&& 0xFFFFFFFF)),
          iType (opcodeOf .jalr) 1 0 1 ((target - ln.pc &&& 0xFFFFFFFF) &&& 0xFFF)] := by
  rw [encodeCall, expectArgs_bind]
  simp only [bind_eq_ok, pure_eq_ok]

/-- How an instruction line comes to be accepted, one constructor for each encoder. -/
inductive Accepted (py : Python) (syms : Syms) (ln : Line) (out : List ℤ) : String → Prop
  | reg {op : String} {f3 : F3Op} {f7 : ℤ} (ho : rTable op = some (f3, f7))
      (h : encodeR py ln op f3 f7 = .ok out) : Accepted py syms ln out op
  | imm {op : String} {f3 : F3Op} (ho : iAluTable op = some f3)
      (h : encodeIAlu py syms ln op f3 = .ok out) : Accepted py syms ln out op
  | load {op : String} {f3 : F3Load} (ho : loadTable op = some f3)
      (h : encodeLoad py syms ln op f3 = .ok out) : Accepted py syms ln out op
  | store {op : String} {f3 : F3Store} (ho : storeTable op = some f3)
      (h : encodeStore py syms ln op f3 = .ok out) : Accepted py syms ln out op
  | branch {op : String} {f3 : F3Branch} (ho : branchTable op = some f3)
      (h : encodeBranch py syms ln op f3 = .ok out) : Accepted py syms ln out op
  | shift {op : String} (ho : op = "slli" ∨ op = "srli" ∨ op = "srai")
      (h : encodeShift py syms ln op = .ok out) : Accepted py syms ln out op
  | jal (h : encodeJal py syms ln = .ok out) : Accepted py syms ln out "jal"
  | jalr (h : encodeJalr py syms ln = .ok out) : Accepted py syms ln out "jalr"
  | upper {op : String} (ho : op = "lui" ∨ op = "auipc")
      (h : encodeUpper py syms ln op = .ok out) : Accepted py syms ln out op
  | fence (h : out = [iType (opcodeOf .fence) 0 0 0 0b000011111111]) :
      Accepted py syms ln out "fence"
  | fenceI (h : out = [iType (opcodeOf .fence) 0 1 0 0]) : Accepted py syms ln out "fence.i"
  | ecall (h : out = [iType (opcodeOf .system) 0 0 0 Refmodel.f12Ecall]) :
      Accepted py syms ln out "ecall"
  | ebreak (h : out = [iType (opcodeOf .system) 0 0 0 Refmodel.f12Ebreak]) :
      Accepted py syms ln out "ebreak"
  | nop (h : out = [nop]) : Accepted py syms ln out "nop"
  | mv (h : encodeMove py ln "mv" .addSub 0 = .ok out) : Accepted py syms ln out "mv"
  | not (h : encodeMove py ln "not" .xor (-1 &&& 0xFFF) = .ok out) :
      Accepted py syms ln out "not"
  | neg (h : encodeNeg py ln "neg" = .ok out) : Accepted py syms ln out "neg"
  | j (h : encodeJ py syms ln "j" = .ok out) : Accepted py syms ln out "j"
  | jr (h : encodeJr py ln "jr" = .ok out) : Accepted py syms ln out "jr"
  | ret (h : encodeRet ln = .ok out) : Accepted py syms ln out "ret"
  | beqz (h : encodeBranchZero py syms ln "beqz" .beq = .ok out) :
      Accepted py syms ln out "beqz"
  | bnez (h : encodeBranchZero py syms ln "bnez" .bne = .ok out) :
      Accepted py syms ln out "bnez"
  | li (h : encodeLi py syms ln "li" = .ok out) : Accepted py syms ln out "li"
  | la (h : encodeLa py syms ln "la" = .ok out) : Accepted py syms ln out "la"
  | call (h : encodeCall py syms ln "call" = .ok out) : Accepted py syms ln out "call"

theorem encodeOther_accepted (h : encodeOther py syms ln op = .ok out) :
    Accepted py syms ln out op := by
  unfold encodeOther at h
  split at h
  · exact .shift (.inl rfl) h
  · exact .shift (.inr (.inl rfl)) h
  · exact .shift (.inr (.inr rfl)) h
  · exact .jal h
  · exact .jalr h
  · exact .upper (.inl rfl) h
  · exact .upper (.inr rfl) h
  · exact .fence (Except.ok.inj h).symm
  · exact .fenceI (Except.ok.inj h).symm
  · exact .ecall (Except.ok.inj h).symm
  · exact .ebreak (Except.ok.inj h).symm
  · exact .nop (Except.ok.inj h).symm
  · exact .mv h
  · exact .not h
  · exact .neg h
  · exact .j h
  · exact .jr h
  · exact .ret h
  · exact .beqz h
  · exact .bnez h
  · exact .li h
  · exact .la h
  · exact .call h
  · exact (fail_ne_ok h).elim

theorem encodeInstruction_accepted (h : encodeInstruction py syms ln op = .ok out) :
    Accepted py syms ln out op := by
  unfold encodeInstruction at h
  split at h
  case h_1 ho => exact .reg ho h
  case h_2 =>
    split at h
    case h_1 ho => exact .imm ho h
    case h_2 =>
      split at h
      case h_1 ho => exact .load ho h
      case h_2 =>
        split at h
        case h_1 ho => exact .store ho h
        case h_2 =>
          split at h
          case h_1 ho => exact .branch ho h
          case h_2 => exact encodeOther_accepted h

/-- No mnemonic is in two tables, so the encoder of a constructor is the one that is reached. -/
theorem Accepted.encodes (h : Accepted py syms ln out op) :
    encodeInstruction py syms ln op = .ok out := by
  cases h with
  | reg ho h => simpa only [encodeInstruction, ho] using h
  | imm ho h =>
    unfold iAluTable at ho
    split at ho <;> cases ho <;> exact h
  | load ho h =>
    unfold loadTable at ho
    split at ho <;> cases ho <;> exact h
  | store ho h =>
    unfold storeTable at ho
    split at ho <;> cases ho <;> exact h
  | branch ho h =>
    unfold branchTable at ho
    split at ho <;> cases ho <;> exact h
  | shift ho h => rcases ho with rfl | rfl | rfl <;> exact h
  | upper ho h => rcases ho with rfl | rfl <;> exact h
  | fence h | fenceI h | ecall h | ebreak h | nop h =>
    subst h
    rfl
  | jal h | jalr h | mv h | not h | neg h | j h | jr h | ret h | beqz h | bnez h | li h | la h
  | call h => exact h

end Families
end RiscForge.Assembler
