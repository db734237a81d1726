import Mathlib.Logic.Function.Basic
import RiscForge.Isa.Insn
import RiscForge.Lib.LittleEndian
import RiscForge.Lib.Steps

/-! The abstract machine of the manual: code that is not written to, registers and bytes. -/
namespace RiscForge.Isa

open Lib Rtl

/-- The pc, the registers and the memory, `x0` being zero. -/
structure Cpu where
  pc : Word
  x : BitVec 5 → Word
  mem : Word → BitVec 8
  zero : x 0#5 = 0#32

section Writes
variable (x : BitVec 5 → Word) (m : Word → BitVec 8)

/-- The registers after `v` is written to `rd`. -/
def setReg (rd : BitVec 5) (v : Word) : BitVec 5 → Word :=
  if rd = 0#5 then x else Function.update x rd v

/-- The memory after the low `n` bytes of `v` are stored at `a`. -/
def storeAt (a : Word) (n : ℕ) (v : Word) : Word → BitVec 8 := fun b =>
  if a.toNat ≤ b.toNat ∧ b.toNat < a.toNat + n then leByte v.toNat (b.toNat - a.toNat) else m b

variable {x m} {rd r : BitVec 5} {v : Word}

theorem setReg_zero : setReg x 0#5 v = x := if_pos rfl

theorem setReg_apply (hr : r ≠ 0#5) : setReg x rd v r = if r = rd then v else x r := by
  unfold setReg
  by_cases h0 : rd = 0#5
  · simp [h0, hr]
  · by_cases h : r = rd
    · simp [h0, h]
    · simp [h0, h]

theorem setReg_at_zero (h : x 0#5 = 0#32) : setReg x rd v 0#5 = 0#32 := by
  unfold setReg
  split
  · exact h
  · rename_i hd
    rw [Function.update_of_ne (Ne.symm hd), h]

@[simp] theorem setReg_self (hr : r ≠ 0#5) : setReg x r v r = v := by simp [setReg_apply hr]

@[simp] theorem setReg_of_ne (hr : r ≠ rd) : setReg x rd v r = x r := by
  unfold setReg
  split
  · rfl
  · exact Function.update_of_ne hr ..

theorem setReg_setReg (u : Word) : setReg (setReg x rd u) rd v = setReg x rd v := by
  by_cases h : rd = 0#5
  · simp only [setReg, if_pos h]
  · simp only [setReg, if_neg h, Function.update_idem]

/-- Writes to different registers may be swapped. -/
theorem setReg_comm (hr : rd ≠ r) (u : Word) :
    setReg (setReg x rd u) r v = setReg (setReg x r v) rd u := by
  unfold setReg
  split
  · rfl
  · split
    · rfl
    · exact Function.update_comm hr ..

/-- A write of what is there already. -/
theorem setReg_get : setReg x rd (x rd) = x := by
  unfold setReg
  split
  · rfl
  · exact Function.update_eq_self ..

/-- A word is loaded from its bytes. -/
theorem loadValue_bytes {a : Word} (h : ∀ j < 4, m (a + BitVec.ofNat 32 j) = leByte v.toNat j) :
    loadValue m a .lw = v := by
  apply BitVec.eq_of_toNat_eq
  have h0 := h 0 (by omega)
  rw [BitVec.add_zero] at h0
  rw [loadValue, h 3 (by omega), h 2 (by omega), h 1 (by omega), h0, ← leNat_four, leNat_word]

/-- A word that is stored is loaded again. -/
theorem loadValue_storeAt {a : Word} (h : a.toNat % 4 = 0) :
    loadValue (storeAt m a 4 v) a .lw = v := by
  refine loadValue_bytes fun j hj => ?_
  have ht := toNat_add_of_aligned (.inr (.inr rfl)) h hj
  rw [storeAt, if_pos (by omega), ht, Nat.add_sub_cancel_left]

/-- A store elsewhere is not seen. -/
theorem loadValue_storeAt_of_ne {a b : Word} (h : a.toNat % 4 = 0) (hb : b.toNat % 4 = 0)
    (hne : a ≠ b) : loadValue (storeAt m a 4 v) b .lw = loadValue m b .lw := by
  refine loadValue_congr _ fun j hj => if_neg ?_
  have hj' : j < 4 := hj
  have ht := toNat_add_of_aligned (.inr (.inr rfl)) hb hj'
  have ht' : a.toNat ≠ b.toNat := fun he => hne (BitVec.eq_of_toNat_eq he)
  omega

end Writes

namespace Cpu
variable (c : Cpu) (e : Effect)

/-- The state after an instruction with the effect `e`. -/
def after : Cpu where
  pc := e.nextPc
  x := match e.rd with
    | some (rd, v) => setReg c.x rd v
    | none => c.x
  mem := match e.store with
    | some (a, k, v) => storeAt c.mem a (Isa.storeSize k) v
    | none => c.mem
  zero := by
    cases e.rd with
    | some w => exact setReg_at_zero c.zero
    | none => exact c.zero

variable {c e}

@[simp] theorem after_pc : (c.after e).pc = e.nextPc := rfl

theorem after_x_none (h : e.rd = none) : (c.after e).x = c.x := by simp only [after, h]

theorem after_x_some {rd : BitVec 5} {v : Word} (h : e.rd = some (rd, v)) :
    (c.after e).x = setReg c.x rd v := by simp only [after, h]

theorem after_mem_none (h : e.store = none) : (c.after e).mem = c.mem := by simp only [after, h]

theorem after_mem_some {a v : Word} {k : F3Store} (h : e.store = some (a, k, v)) :
    (c.after e).mem = storeAt c.mem a (Isa.storeSize k) v := by simp only [after, h]

theorem ext' {c d : Cpu} (hp : c.pc = d.pc) (hx : c.x = d.x) (hm : c.mem = d.mem) : c = d := by
  cases c
  cases d
  cases hp
  cases hx
  cases hm
  rfl

/-- Effects that differ in a write to `x0` only lead to the same state. -/
theorem after_same {e' : Effect} (rd : e.rd = e'.rd ∨ e'.rd = none ∧ ∃ v, e.rd = some (0#5, v))
    (hn : e.nextPc = e'.nextPc) (hs : e.store = e'.store) : c.after e = c.after e' := by
  refine ext' hn ?_ ?_
  · rcases rd with hr | ⟨hr, v, hv⟩
    · simp only [after, hr]
    · simp only [after, hr, hv, setReg_zero]
  · simp only [after, hs]

end Cpu

/-- A program in the memory `[lo, hi)`, and the address whose stores end a run. -/
structure Machine where
  code : Word → Option Insn
  lo : ℕ
  hi : ℕ
  tohost : ℕ
  aligned : ∀ q, (code q).isSome = true → q.toNat % 4 = 0
  inside : ∀ q, (code q).isSome = true → lo ≤ q.toNat ∧ q.toNat + 4 ≤ hi

/-- How a run ends: by an environment call, a breakpoint, or a store of `v` to `tohost`. -/
inductive Ending
  | ecall | ebreak
  | tohost (v : Word)
  deriving DecidableEq, Repr

namespace Machine
variable (M : Machine) (c : Cpu) (i : Insn)

/-- The instruction may execute: its target and its access are aligned, the access is inside the
memory, and a store hits neither the code nor `tohost`. -/
structure Permits : Prop where
  target : ∀ t, i.target c.pc c.x = some t → t.toNat % 4 = 0
  aligned : ∀ a n, i.access c.x = some (a, n) → a.toNat % n = 0
  inside : ∀ a n, i.access c.x = some (a, n) → M.lo ≤ a.toNat ∧ a.toNat + n ≤ M.hi
  notTohost : ∀ a k v, i.stored c.x = some (a, k, v) → a.toNat ≠ M.tohost
  notCode : ∀ a k v, i.stored c.x = some (a, k, v) → ∀ q, (M.code q).isSome = true →
    a.toNat + Isa.storeSize k ≤ q.toNat ∨ q.toNat + 4 ≤ a.toNat

/-- One instruction. -/
inductive Step : Cpu → Cpu → Prop
  | exec {c : Cpu} {i : Insn} (fetch : M.code c.pc = some i) (ecall : i ≠ .ecall)
      (ebreak : i ≠ .ebreak) (permits : M.Permits c i) :
      Step c (c.after (i.effect c.pc c.x c.mem))

/-- The next instruction ends the run. -/
inductive Ends : Ending → Prop
  | ecall (fetch : M.code c.pc = some .ecall) : Ends .ecall
  | ebreak (fetch : M.code c.pc = some .ebreak) : Ends .ebreak
  | tohost {i : Insn} {a v : Word} {k : F3Store} (fetch : M.code c.pc = some i)
      (stored : i.stored c.x = some (a, k, v)) (hit : a.toNat = M.tohost) : Ends (.tohost v)

variable {M c} {c' d : Cpu}

theorem Step.unique (h : M.Step c c') (h' : M.Step c d) : c' = d := by
  cases h with
  | exec hf =>
    cases h' with
    | exec hf' =>
      rw [hf] at hf'
      cases hf'
      rfl

/-- A run that ends goes no further. -/
theorem Ends.no_step {e : Ending} (h : M.Ends c e) : ¬ M.Step c c' := by
  rintro ⟨hf, he, hb, hp⟩
  cases h with
  | ecall hf' =>
    rw [hf] at hf'
    cases hf'
    exact he rfl
  | ebreak hf' =>
    rw [hf] at hf'
    cases hf'
    exact hb rfl
  | tohost hf' hs ht =>
    rw [hf] at hf'
    cases hf'
    exact hp.notTohost _ _ _ hs ht

theorem Ends.unique {e e' : Ending} (h : M.Ends c e) (h' : M.Ends c e') : e = e' := by
  cases h with
  | ecall hf =>
    cases h' with
    | ecall => rfl
    | ebreak hf' =>
      rw [hf] at hf'
      cases hf'
    | tohost hf' hs =>
      rw [hf] at hf'
      cases hf'
      cases hs
  | ebreak hf =>
    cases h' with
    | ecall hf' =>
      rw [hf] at hf'
      cases hf'
    | ebreak => rfl
    | tohost hf' hs =>
      rw [hf] at hf'
      cases hf'
      cases hs
  | tohost hf hs =>
    cases h' with
    | ecall hf' | ebreak hf' =>
      rw [hf] at hf'
      cases hf'
      cases hs
    | tohost hf' hs' =>
      rw [hf] at hf'
      cases hf'
      rw [hs] at hs'
      cases hs'
      rfl

/-- A store leaves the bytes of the code alone, so a run never changes them. -/
theorem Step.mem_code (h : M.Step c c') {q : Word} (hq : (M.code q).isSome = true) {b : Word}
    (hb : q.toNat ≤ b.toNat ∧ b.toNat < q.toNat + 4) : c'.mem b = c.mem b := by
  cases h with
  | @exec i hf he hbk hp =>
    cases hs : i.stored c.x with
    | none => rw [Cpu.after_mem_none hs]
    | some st =>
      obtain ⟨a, k, v⟩ := st
      have hm := hp.notCode a k v hs q hq
      rw [Cpu.after_mem_some hs, storeAt, if_neg (by omega)]

variable {i}

/-- An instruction reads no byte outside the memory. -/
theorem Permits.effect_congr (hp : M.Permits c i) {m : Word → BitVec 8}
    (h : ∀ a : Word, M.lo ≤ a.toNat → a.toNat < M.hi → m a = c.mem a) :
    i.effect c.pc c.x m = i.effect c.pc c.x c.mem := by
  cases i with
  | load k rd rs1 imm =>
    have hal := hp.aligned _ _ rfl
    obtain ⟨hl, hh⟩ := hp.inside _ _ rfl
    have hv : loadValue m (c.x rs1 + imm) k = loadValue c.mem (c.x rs1 + imm) k := by
      refine loadValue_congr k fun j hj => ?_
      have ha := toNat_add_of_aligned (loadSize_cases k) hal hj
      exact h _ (by omega) (by omega)
    simp only [Insn.effect, Insn.result, hv]
  | _ => rfl

/-- The two states differ at most in the bytes outside the memory. -/
structure SameInside (M : Machine) (c d : Cpu) : Prop where
  pc : d.pc = c.pc
  x : d.x = c.x
  mem : ∀ a : Word, M.lo ≤ a.toNat → a.toNat < M.hi → d.mem a = c.mem a

theorem SameInside.permits (h : SameInside M c d) (hp : M.Permits c i) : M.Permits d i := by
  obtain ⟨hpc, hx, -⟩ := h
  exact ⟨by rw [hpc, hx]; exact hp.target, by rw [hx]; exact hp.aligned,
    by rw [hx]; exact hp.inside, by rw [hx]; exact hp.notTohost, by rw [hx]; exact hp.notCode⟩

theorem SameInside.after (h : SameInside M c d) (e : Effect) :
    SameInside M (c.after e) (d.after e) := by
  refine ⟨rfl, ?_, fun a hl hh => ?_⟩
  · simp only [Cpu.after, h.x]
  · cases hs : e.store with
    | none =>
      rw [Cpu.after_mem_none hs, Cpu.after_mem_none hs]
      exact h.mem a hl hh
    | some st =>
      obtain ⟨b, k, v⟩ := st
      rw [Cpu.after_mem_some hs, Cpu.after_mem_some hs, storeAt, storeAt, h.mem a hl hh]

/-- A run does not depend on what is outside the memory. -/
theorem inside_simulates (M : Machine) : Simulates M.Step M.Step (SameInside M) 1 := by
  intro c c' d hs h
  cases hs with
  | @exec i hf he hb hp =>
    have hstep : M.Step d (d.after (i.effect d.pc d.x d.mem)) :=
      .exec (by rw [h.pc]; exact hf) he hb (h.permits hp)
    rw [h.pc, h.x, hp.effect_congr h.mem] at hstep
    exact ⟨1, _, Nat.one_pos, le_rfl, .one hstep, h.after _⟩

theorem SameInside.ends {e : Ending} (h : SameInside M c d) (he : M.Ends c e) : M.Ends d e := by
  obtain ⟨hpc, hx, -⟩ := h
  cases he with
  | ecall hf => exact .ecall (hpc ▸ hf)
  | ebreak hf => exact .ebreak (hpc ▸ hf)
  | tohost hf hs ht => exact .tohost (hpc ▸ hf) (hx ▸ hs) ht

end Machine
end RiscForge.Isa
