import RiscForge.Assembler.Reader
import RiscForge.Lib.Steps

/-! Rules to execute a program of the source language, a statement at a time. -/
namespace RiscForge.Benchmarks

open Lib Rtl Isa Assembler

section States
variable (c : Cpu) (rd : BitVec 5) (v next : Word)

/-- The state after a statement of `n` bytes that leaves `v` in `rd`. -/
def put (n : Word) : Cpu := c.after { Effect.writes c.pc rd v with nextPc := c.pc + n }

/-- The state after a jump. -/
def goto : Cpu := c.after (.jumps c.pc next)

/-- The state after a word is stored. -/
def poke (a : Word) : Cpu :=
  c.after { Effect.goesOn c.pc with store := some (a, .sw, v) }

variable {c rd v next} {n a : Word}

@[simp] theorem put_pc : (put c rd v n).pc = c.pc + n := rfl
@[simp] theorem put_x : (put c rd v n).x = setReg c.x rd v := rfl
@[simp] theorem put_mem : (put c rd v n).mem = c.mem := rfl
@[simp] theorem goto_pc : (goto c next).pc = next := rfl
@[simp] theorem goto_x : (goto c next).x = c.x := rfl
@[simp] theorem goto_mem : (goto c next).mem = c.mem := rfl
@[simp] theorem poke_pc : (poke c v a).pc = c.pc + 4#32 := rfl
@[simp] theorem poke_x : (poke c v a).x = c.x := rfl
@[simp] theorem poke_mem : (poke c v a).mem = storeAt c.mem a 4 v := rfl

/-- Only these registers may have changed. -/
structure Keeps (regs : List (BitVec 5)) (c d : Cpu) : Prop where
  mem : d.mem = c.mem
  regs : ∀ r ∉ regs, d.x r = c.x r

theorem Keeps.trans {regs : List (BitVec 5)} {c d e : Cpu} (h : Keeps regs c d)
    (h' : Keeps regs d e) : Keeps regs c e where
  mem := h'.mem.trans h.mem
  regs r hr := (h'.regs r hr).trans (h.regs r hr)

end States

section Rules
variable {P : Program} {c : Cpu} {q : Word} {stmt : Statement} {st : Stmt} {ln : Line}

/-- The program has the statement at `q`. -/
def Has (P : Program) (q : Word) (stmt : Statement) : Prop := ∃ ln, P.At q ln stmt

theorem has_aligned (h : Has P q stmt) : q.toNat % 4 = 0 := by
  obtain ⟨ln, h⟩ := h
  exact h.aligned

/-- The statement neither jumps to an operand nor accesses the memory. -/
theorem permits_quiet (hl : stmt.label = none) (ha : stmt.access c.x = none)
    (hs : (stmt.effect c.pc c.x c.mem).store = none)
    (ht : (stmt.effect c.pc c.x c.mem).nextPc.toNat % 4 = 0) : P.Permits c stmt where
  label t h := by
    rw [hl] at h
    cases h
  target := ht
  aligned a n h := by
    rw [ha] at h
    cases h
  inside a n h := by
    rw [ha] at h
    cases h
  notTohost a k v h := by
    rw [hs] at h
    cases h
  notCode a k v h := by
    rw [hs] at h
    cases h

theorem step_of (h : Has P q stmt) (hc : c.pc = q) (he : stmt ≠ .ecall) (hb : stmt ≠ .ebreak)
    (hp : P.Permits c stmt) : P.Step c (c.after (stmt.effect c.pc c.x c.mem)) := by
  obtain ⟨ln, h⟩ := h
  subst hc
  exact .exec h he hb hp

theorem add_neg_one (v : Word) : v + 4294967295#32 = v - 1#32 := by
  rw [BitVec.sub_eq_add_neg]
  rfl

theorem aligned_add {a b : Word} (ha : a.toNat % 4 = 0) (hb : b.toNat % 4 = 0) :
    (a + b).toNat % 4 = 0 := by
  rw [BitVec.toNat_add]
  omega

variable {rd rs1 rs2 rs : BitVec 5} {imm v target : ℤ} {o : Op} {k : F3Branch}

theorem step_op (h : Has P q (.one (.op o rd rs1 rs2))) (hc : c.pc = q) :
    P.Step c (put c rd (o.eval (c.x rs1) (c.x rs2)) 4#32) :=
  step_of h hc Statement.noConfusion Statement.noConfusion
    (permits_quiet rfl rfl rfl (aligned_add (hc ▸ has_aligned h) rfl))

theorem step_opImm (h : Has P q (.one (.opImm o rd rs1 imm))) (hc : c.pc = q) :
    P.Step c (put c rd (o.eval (c.x rs1) (.ofInt 32 imm)) 4#32) :=
  step_of h hc Statement.noConfusion Statement.noConfusion
    (permits_quiet rfl rfl rfl (aligned_add (hc ▸ has_aligned h) rfl))

theorem step_mv (h : Has P q (.one (.mv rd rs))) (hc : c.pc = q) :
    P.Step c (put c rd (c.x rs) 4#32) :=
  step_of h hc Statement.noConfusion Statement.noConfusion
    (permits_quiet rfl rfl rfl (aligned_add (hc ▸ has_aligned h) rfl))

theorem step_li (h : Has P q (.li rd v)) (hc : c.pc = q) :
    P.Step c (put c rd (.ofInt 32 v) 8#32) :=
  step_of h hc Statement.noConfusion Statement.noConfusion
    (permits_quiet rfl rfl rfl (aligned_add (hc ▸ has_aligned h) rfl))

theorem step_la (h : Has P q (.la rd target)) (hc : c.pc = q) :
    P.Step c (put c rd (.ofInt 32 target) 8#32) :=
  step_of h hc Statement.noConfusion Statement.noConfusion
    (permits_quiet rfl rfl rfl (aligned_add (hc ▸ has_aligned h) rfl))

theorem permits_jump {next : Word} (hl : stmt.label = some target) (h4 : target % 4 = 0)
    (ha : stmt.access c.x = none) (hs : (stmt.effect c.pc c.x c.mem).store = none)
    (ht : (stmt.effect c.pc c.x c.mem).nextPc = next) (hn : next.toNat % 4 = 0) :
    P.Permits c stmt where
  label t h := by
    rw [hl] at h
    cases h
    exact h4
  target := by rw [ht, hn]
  aligned a n h := by
    rw [ha] at h
    cases h
  inside a n h := by
    rw [ha] at h
    cases h
  notTohost a k v h := by
    rw [hs] at h
    cases h
  notCode a k v h := by
    rw [hs] at h
    cases h

variable {t : Word}

theorem natCast_mod_four (ht : t.toNat % 4 = 0) : (t.toNat : ℤ) % 4 = 0 := by omega

theorem step_j (h : Has P q (.one (.j t.toNat))) (hc : c.pc = q) (ht : t.toNat % 4 = 0) :
    P.Step c (goto c t) := by
  have hs := step_of h hc Statement.noConfusion Statement.noConfusion
    (permits_jump rfl (natCast_mod_four ht) rfl rfl (ofInt_toNat t) ht)
  change P.Step c (goto c (.ofInt 32 (t.toNat : ℤ))) at hs
  rwa [ofInt_toNat] at hs

theorem step_branch (h : Has P q (.one (.branch k rs1 rs2 t.toNat))) (hc : c.pc = q)
    (ht : t.toNat % 4 = 0) :
    P.Step c (goto c (if branchCond (c.x rs1) (c.x rs2) k then t else q + 4#32)) := by
  subst hc
  have hs := step_of h rfl Statement.noConfusion Statement.noConfusion
    (permits_jump rfl (natCast_mod_four ht) rfl rfl rfl ?_)
  · change P.Step c (goto c (if _ then .ofInt 32 (t.toNat : ℤ) else _)) at hs
    rwa [ofInt_toNat] at hs
  · change (if branchCond (c.x rs1) (c.x rs2) k then BitVec.ofInt 32 (t.toNat : ℤ)
      else c.pc + 4#32).toNat % 4 = 0
    split
    · rw [ofInt_toNat, ht]
    · exact aligned_add (has_aligned h) rfl

theorem step_call (h : Has P q (.call t.toNat)) (hc : c.pc = q) (ht : t.toNat % 4 = 0) :
    P.Step c (goto (put c 1#5 (q + 8#32) 8#32) t) := by
  subst hc
  have hs := step_of h rfl Statement.noConfusion Statement.noConfusion
    (permits_jump rfl (natCast_mod_four ht) rfl rfl (ofInt_toNat t) ht)
  have he : c.after ((Statement.call t.toNat).effect c.pc c.x c.mem) =
      goto (put c 1#5 (c.pc + 8#32) 8#32) t := Cpu.ext' (ofInt_toNat t) rfl rfl
  rwa [he] at hs

theorem step_ret (h : Has P q (.one .ret)) (hc : c.pc = q) (ht : (c.x 1#5).toNat % 4 = 0) :
    P.Step c (goto c (c.x 1#5)) := by
  have hr := and_not_one ht
  have hs := step_of h hc Statement.noConfusion Statement.noConfusion
    (permits_quiet rfl rfl rfl (by change (c.x 1#5 &&& ~~~1#32).toNat % 4 = 0; rw [hr, ht]))
  change P.Step c (goto c (c.x 1#5 &&& ~~~1#32)) at hs
  rwa [hr] at hs

variable {a : Word}

theorem step_lw (h : Has P q (.one (.load .lw rd imm rs1))) (hc : c.pc = q)
    (ha : c.x rs1 + .ofInt 32 imm = a) (h4 : a.toNat % 4 = 0) (hi : a.toNat + 4 ≤ P.hi) :
    P.Step c (put c rd (loadValue c.mem a .lw) 4#32) := by
  subst ha
  refine step_of h hc Statement.noConfusion Statement.noConfusion ⟨?_, ?_, ?_, ?_, ?_, ?_⟩
  · rintro t ⟨⟩
  · exact aligned_add (hc ▸ has_aligned h) rfl
  · rintro a n ⟨⟩
    exact h4
  · rintro a n ⟨⟩
    exact hi
  · rintro a k v ⟨⟩
  · rintro a k v ⟨⟩

/-- The word at `a` is neither an instruction nor `tohost`, and inside the memory. -/
structure Data (P : Program) (a : Word) : Prop where
  aligned : a.toNat % 4 = 0
  inside : a.toNat + 4 ≤ P.hi
  notTohost : a.toNat ≠ P.tohost
  notCode : ∀ ln ∈ P.lines, ln.isInstruction = true →
    (a.toNat + 4 : ℤ) ≤ ln.pc ∨ ln.pc + ln.size ≤ a.toNat

theorem step_sw (h : Has P q (.one (.store .sw rs2 imm rs1))) (hc : c.pc = q)
    (ha : c.x rs1 + .ofInt 32 imm = a) (hd : Data P a) : P.Step c (poke c (c.x rs2) a) := by
  subst ha
  refine step_of h hc Statement.noConfusion Statement.noConfusion ⟨?_, ?_, ?_, ?_, ?_, ?_⟩
  · rintro t ⟨⟩
  · exact aligned_add (hc ▸ has_aligned h) rfl
  · rintro a n ⟨⟩
    exact hd.aligned
  · rintro a n ⟨⟩
    exact hd.inside
  · rintro a k v ⟨⟩
    exact hd.notTohost
  · rintro a k v ⟨⟩
    exact hd.notCode

end Rules
end RiscForge.Benchmarks
