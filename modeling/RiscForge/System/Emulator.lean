import RiscForge.Isa.Machine
import RiscForge.Lockstep.Agree
import RiscForge.Refmodel.Run

/-! The emulator executes the programs of the abstract machine. -/
namespace RiscForge.System

open Lib Rtl Isa Refmodel Lockstep

/-- The emulator holds the state `c` of the machine, and its program in memory. -/
structure Models (M : Machine) (trap : Bool) (c : Cpu) (s : RV32I) : Prop where
  running : s.halted = false
  holds : Holds s c.pc c.x
  zero : s.regs 0#5 = 0
  mem : ∀ a : Word, M.lo ≤ a.toNat → a.toNat < M.hi → s.byte a = c.mem a
  code : ∀ q i, M.code q = some i → ∃ w, Fetches s q w ∧ decode w = some i
  memBase : s.memBase = M.lo
  memEnd : s.memBase + s.mem.length = M.hi
  tohostAddr : s.tohostAddr = M.tohost
  trapOnEcall : s.trapOnEcall = trap

section Step
variable {M : Machine} {trap : Bool} {c c' : Cpu} {s : RV32I} {i : Insn}

theorem Models.inMem (h : Models M trap c s) {a n : ℕ} (hl : M.lo ≤ a) (hh : a + n ≤ M.hi) :
    InMem s a n := by
  refine ⟨?_, ?_⟩
  · rw [h.memBase]
    exact_mod_cast hl
  · rw [h.memEnd]
    exact_mod_cast hh

/-- What the machine permits, the emulator completes. -/
theorem Models.completes (h : Models M trap c s) (hp : M.Permits c i) : Completes s c.pc c.x i where
  target := hp.target
  aligned := hp.aligned
  inMem a n ha := h.inMem (hp.inside a n ha).1 (hp.inside a n ha).2
  notTohost a k v hs := by
    rw [h.tohostAddr]
    exact_mod_cast hp.notTohost a k v hs

theorem Models.effect_eq (h : Models M trap c s) (hp : M.Permits c i) :
    i.effect c.pc c.x s.byte = i.effect c.pc c.x c.mem :=
  hp.effect_congr h.mem

theorem Models.regs_apply (h : Models M trap c s) (e : Effect) {r : BitVec 5} (hr : r ≠ 0#5) :
    (s.apply e).regs r = (((c.after e).x r).toNat : ℤ) := by
  change (s.write e).regs r = _
  cases he : e.rd with
  | none =>
    rw [RV32I.write_regs_none he, Cpu.after_x_none he]
    exact h.holds.regs r hr
  | some w =>
    obtain ⟨rd, v⟩ := w
    rw [RV32I.write_regs_some he, Cpu.after_x_some he, regsWith_apply rd r v hr, setReg_apply hr]
    split
    · rfl
    · exact h.holds.regs r hr

theorem Models.zero_apply (h : Models M trap c s) (e : Effect) : (s.apply e).regs 0#5 = 0 := by
  change (s.write e).regs 0#5 = 0
  cases he : e.rd with
  | none =>
    rw [RV32I.write_regs_none he]
    exact h.zero
  | some w =>
    obtain ⟨rd, v⟩ := w
    rw [RV32I.write_regs_some he, RV32I.regsWith]
    split
    · exact h.zero
    · rename_i hd
      rw [Function.update_of_ne (Ne.symm hd)]
      exact h.zero

theorem Models.regs (h : Models M trap c s) (r : BitVec 5) : s.regs r = ((c.x r).toNat : ℤ) := by
  by_cases hr : r = 0#5
  · rw [hr, h.zero, c.zero]
    rfl
  · exact h.holds.regs r hr

/-- A store changes the same bytes of both memories. -/
theorem Models.byte_storeMem (h : Models M trap c s) {a v : Word} {n : ℕ} (hl : M.lo ≤ a.toNat)
    (hh : a.toNat + n ≤ M.hi) {b : Word} (hb : M.lo ≤ b.toNat) (hb' : b.toNat < M.hi) :
    byteAt (s.storeMem a v n) (b.toNat - s.memBase).toNat = storeAt c.mem a n v b := by
  have hbase := h.memBase
  have hend := h.memEnd
  rw [RV32I.storeMem, byteAt_packInto _ _ _ _ _ (by omega), storeAt]
  by_cases hin : a.toNat ≤ b.toNat ∧ b.toNat < a.toNat + n
  · rw [if_pos hin, if_pos (by omega), hbase]
    congr 1
    omega
  · rw [if_neg hin, if_neg (by omega)]
    exact h.mem b hb hb'

theorem Models.fetches_storeMem (h : Models M trap c s) {a v q w : Word} {n : ℕ}
    (hl : M.lo ≤ a.toNat) (hh : a.toNat + n ≤ M.hi) (hf : Fetches s q w)
    (hm : a.toNat + n ≤ q.toNat ∨ q.toNat + 4 ≤ a.toNat) :
    unpackFrom (s.storeMem a v n) (q.toNat - s.memBase).toNat 4 = w.toNat := by
  have hbase := h.memBase
  have hend := h.memEnd
  have hin := hf.inMem
  unfold InMem at hin
  rw [RV32I.storeMem, unpackFrom_packInto (by omega) (by omega)]
  exact hf.word

theorem length_write_mem (s : RV32I) (e : Effect) : (s.write e).mem.length = s.mem.length := by
  cases h : e.store with
  | none => rw [RV32I.write_mem_none h]
  | some st =>
    obtain ⟨a, k, v⟩ := st
    rw [RV32I.write_mem_some h, RV32I.storeMem, length_packInto]

theorem inMem_apply {e : Effect} {a n : ℤ} : InMem (s.apply e) a n ↔ InMem s a n := by
  have hl : (s.apply e).mem.length = s.mem.length := length_write_mem s e
  unfold InMem
  rw [hl]
  rfl

theorem permits_stored (hp : M.Permits c i) {a v : Word} {k : F3Store}
    (hs : i.stored c.x = some (a, k, v)) : M.lo ≤ a.toNat ∧ a.toNat + Isa.storeSize k ≤ M.hi := by
  cases i with
  | store =>
    cases hs
    exact hp.inside _ _ rfl
  | _ => cases hs

theorem Models.byte_apply (h : Models M trap c s) (hp : M.Permits c i) {b : Word}
    (hb : M.lo ≤ b.toNat) (hb' : b.toNat < M.hi) {m : Word → BitVec 8} :
    (s.apply (i.effect c.pc c.x m)).byte b = (c.after (i.effect c.pc c.x m)).mem b := by
  change byteAt (s.write _).mem (b.toNat - s.memBase).toNat = _
  cases hs : i.stored c.x with
  | none =>
    rw [RV32I.write_mem_none hs, Cpu.after_mem_none hs]
    exact h.mem b hb hb'
  | some st =>
    obtain ⟨a, k, v⟩ := st
    obtain ⟨hl, hh⟩ := permits_stored hp hs
    rw [RV32I.write_mem_some hs, Cpu.after_mem_some hs]
    exact h.byte_storeMem hl hh hb hb'

/-- The words of the code stay in the emulator's memory. -/
theorem Models.fetches_apply (h : Models M trap c s) (hp : M.Permits c i) {q w : Word}
    (hq : (M.code q).isSome = true) (hf : Fetches s q w) {m : Word → BitVec 8} :
    Fetches (s.apply (i.effect c.pc c.x m)) q w := by
  refine ⟨hf.aligned, inMem_apply.mpr hf.inMem, ?_⟩
  change unpackFrom (s.write _).mem (q.toNat - s.memBase).toNat 4 = _
  cases hs : i.stored c.x with
  | none =>
    rw [RV32I.write_mem_none hs]
    exact hf.word
  | some st =>
    obtain ⟨a, k, v⟩ := st
    obtain ⟨hl, hh⟩ := permits_stored hp hs
    rw [RV32I.write_mem_some hs]
    exact h.fetches_storeMem hl hh hf (hp.notCode a k v hs q hq)

/-- The machine and the emulator after the same instruction. -/
theorem Models.apply (h : Models M trap c s) (hp : M.Permits c i) :
    Models M trap (c.after (i.effect c.pc c.x c.mem)) (s.apply (i.effect c.pc c.x c.mem)) where
  running := h.running
  holds := ⟨rfl, (c.after _).zero, fun _ hr => h.regs_apply _ hr⟩
  zero := h.zero_apply _
  mem _ hb hb' := h.byte_apply hp hb hb'
  code q j hq := by
    obtain ⟨w, hf, hd⟩ := h.code q j hq
    exact ⟨w, h.fetches_apply hp (by rw [hq]; rfl) hf, hd⟩
  memBase := h.memBase
  memEnd := by
    have hl : (s.apply (i.effect c.pc c.x c.mem)).mem.length = s.mem.length := length_write_mem s _
    rw [hl]
    exact h.memEnd
  tohostAddr := h.tohostAddr
  trapOnEcall := h.trapOnEcall

/-- The emulator executes what the machine executes. -/
theorem Models.step (h : Models M trap c s) (hs : M.Step c c') :
    ∃ s', Next s s' ∧ Models M trap c' s' := by
  cases hs with
  | exec hf he hb hp =>
    obtain ⟨w, hw, hd⟩ := h.code _ _ hf
    obtain ⟨tr, hr, -⟩ := step_ok h.running h.holds hw hd (h.completes hp) he hb
    rw [h.effect_eq hp] at hr
    exact ⟨_, ⟨tr, hr⟩, h.apply hp⟩

theorem emulator_simulates (M : Machine) (trap : Bool) :
    Simulates M.Step Next (Models M trap) 1 := by
  intro c c' s hs h
  obtain ⟨s', hn, h'⟩ := h.step hs
  exact ⟨1, s', Nat.one_pos, le_rfl, .one hn, h'⟩

end Step

section Ending
variable {M : Machine} {trap : Bool} {c c' : Cpu} {s s' : RV32I} {e : Ending} {n : ℕ}

/-- The reason of a halt. -/
def haltReason : Ending → HaltReason
  | .ecall => .ecall
  | .ebreak => .ebreak
  | .tohost v => if v = 1#32 then .tohostPass else .tohostFail

/-- The emulator has halted at the end `e` of a run, with the registers and the memory of `c`. -/
structure Halted (M : Machine) (c : Cpu) (e : Ending) (s : RV32I) : Prop where
  halted : s.halted = true
  haltReason : s.haltReason = some (haltReason e)
  tohostValue : ∀ v, e = .tohost v → s.tohostValue = some (v.toNat : ℤ)
  pc : s.pc = ((c.pc + 4#32).toNat : ℤ)
  regs : ∀ r, s.regs r = ((c.x r).toNat : ℤ)
  mem : ∀ a : Word, M.lo ≤ a.toNat → a.toNat < M.hi → s.byte a = c.mem a

/-- An emulator that traps on environment calls goes on there. -/
def Stops (trap : Bool) (e : Ending) : Prop := trap = true → ∃ v, e = .tohost v

theorem stops_false : Stops false e := fun h => Bool.noConfusion h

theorem stops_tohost (v : Word) : Stops trap (.tohost v) := fun _ => ⟨v, rfl⟩

theorem Models.notTrap (h : Models M trap c s) (hs : Stops trap e) (he : ∀ v, e ≠ .tohost v) :
    s.trapOnEcall = false := by
  rw [h.trapOnEcall, Bool.eq_false_iff]
  intro ht
  obtain ⟨v, hv⟩ := hs ht
  exact he v hv

theorem Models.halts (h : Models M trap c s) (he : M.Ends c e) (ht : Stops trap e) :
    ∃ s', Next s s' ∧ Halted M c e s' := by
  cases he with
  | ecall hf =>
    obtain ⟨w, hw, hd⟩ := h.code _ _ hf
    have hn := h.notTrap ht fun _ => Ending.noConfusion
    obtain ⟨tr, hr, -⟩ := step_ecall h.running h.holds.pc hw hd hn
    exact ⟨_, ⟨tr, hr⟩, rfl, rfl, by rintro v ⟨⟩, rfl, h.regs, h.mem⟩
  | ebreak hf =>
    obtain ⟨w, hw, hd⟩ := h.code _ _ hf
    have hn := h.notTrap ht fun _ => Ending.noConfusion
    obtain ⟨tr, hr, -⟩ := step_ebreak h.running h.holds.pc hw hd hn
    exact ⟨_, ⟨tr, hr⟩, rfl, rfl, by rintro v ⟨⟩, rfl, h.regs, h.mem⟩
  | @tohost i a v k hf hs hit =>
    obtain ⟨w, hw, hd⟩ := h.code _ _ hf
    obtain ⟨tr, hr, -⟩ := step_tohost h.running h.holds hw hd hs
      (by rw [h.tohostAddr]; exact_mod_cast hit)
    refine ⟨_, ⟨tr, hr⟩, rfl, rfl, ?_, rfl, h.regs, h.mem⟩
    rintro _ ⟨⟩
    rfl

/-- The emulator follows a whole run of the machine, and halts where it ends. -/
theorem Models.finishes (h : Models M trap c s) (hr : Steps M.Step n c c') (he : M.Ends c' e)
    (ht : Stops trap e) :
    ∃ t s', Steps Next n s t ∧ Models M trap c' t ∧ Next t s' ∧ Halted M c' e s' := by
  obtain ⟨t, hst, hm⟩ := (emulator_simulates M trap).exact hr h
  obtain ⟨s', hn, hs'⟩ := hm.halts he ht
  exact ⟨t, s', hst, hm, hn, hs'⟩

/-- `run` comes to the end of the machine's run, if the limit allows so many steps. -/
theorem Models.run (h : Models M trap c s) (hr : Steps M.Step n c c') (he : M.Ends c' e)
    (ht : Stops trap e) {maxSteps : ℤ} (hl : s.steps + n < maxSteps) :
    ∃ s', Refmodel.run maxSteps s = .ok (.reason (haltReason e)) s' ∧ Halted M c' e s' ∧
      s'.steps = s.steps + (n + 1) := by
  obtain ⟨t, s', hst, -, hn, hh⟩ := h.finishes hr he ht
  have hnext : Steps Next (n + 1) s s' := hst.trans (.one hn)
  have hgo : Steps (Going maxSteps) (n + 1) s s' := going_of_next hnext (by push_cast; omega)
  have hran := ran_of_rounds hgo
  have hstop : ¬ Goes maxSteps s' := by
    rintro ⟨hf, -⟩
    rw [hh.halted] at hf
    cases hf
  refine ⟨s', ?_, hh, next_steps hnext⟩
  rw [run_of_ran hran hstop, RV32I.outcome, if_neg (by simp [hh.halted]), hh.haltReason]

end Ending
end RiscForge.System
