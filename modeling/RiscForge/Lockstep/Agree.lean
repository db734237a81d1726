import RiscForge.Lockstep.Legality

/-! One instruction on the emulator and one clock of `top`, from states that agree. -/
namespace RiscForge.Lockstep

open Lib Rtl Isa Refmodel

section Agree
variable {p : Params} {s : RV32I} {t : Top p} {i : Insn}

/-- The two agree on `x1` to `x31`, the pc and the memory. -/
structure Agree (s : RV32I) (t : Top p) : Prop where
  regs : ∀ r, r ≠ 0#5 → s.regs r = ((t.xregs.get r).toNat : ℤ)
  pc : s.pc = t.pc.toNat
  mem : MemAgree t.dmem s.mem

/-- How the emulator is set up beside the RTL. -/
structure Config (p : Params) (s : RV32I) : Prop where
  memBase : s.memBase = 0
  trapOnEcall : s.trapOnEcall = false
  tohostAddr : s.tohostAddr = p.tohostAddr.toNat

/-- `tohost` and the UART lie outside the data memory. -/
structure MmioOutside (p : Params) : Prop where
  tohost : 4 * 2 ^ p.dmemIdxW ≤ p.tohostAddr.toNat
  uart : 4 * 2 ^ p.dmemIdxW ≤ p.uartAddr.toNat

theorem Agree.holds (h : Agree s t) : Holds s t.pc t.xregs.get :=
  ⟨h.pc, XRegs.get_zero _, h.regs⟩

theorem MmioOutside.isMmio (h : MmioOutside p) {d : DMemIn}
    (ha : d.addr.toNat < 4 * 2 ^ p.dmemIdxW) : d.isMmio p = false := by
  have ht : d.addr ≠ p.tohostAddr := by
    intro he
    have := h.tohost
    rw [← he] at this
    omega
  have hu : d.addr ≠ p.uartAddr := by
    intro he
    have := h.uart
    rw [← he] at this
    omega
  simp [DMemIn.isMmio, DMemIn.isTohost, DMemIn.isUart, ht, hu]

/-- Inside the memory an aligned address has all of its bytes there. -/
theorem inMem_of_lt (hc : Config p s) (hm : MemAgree t.dmem s.mem) {a : Word} {n : ℕ}
    (hn : n = 1 ∨ n = 2 ∨ n = 4) (ha : a.toNat % n = 0) (hr : a.toNat < 4 * 2 ^ p.dmemIdxW) :
    InMem s a.toNat n := by
  unfold InMem
  rw [hc.memBase, hm.length]
  have hle : a.toNat + n ≤ 4 * 2 ^ p.dmemIdxW := by
    rcases hn with rfl | rfl | rfl <;> omega
  exact ⟨by omega, by rw [Int.zero_add]; exact_mod_cast hle⟩

theorem byte_eq_byteOf (hc : Config p s) (hm : MemAgree t.dmem s.mem) {a : Word}
    (hr : a.toNat < 4 * 2 ^ p.dmemIdxW) : s.byte a = byteOf t.dmem a := by
  rw [RV32I.byte, hc.memBase, hm.byteOf hr]
  simp

theorem writePort_get (x : XRegs) (rd r : BitVec 5) (v : Word) (hr : r ≠ 0#5) :
    (writePort x true rd v).get r = if r = rd then v else x.get r := by
  rw [get_writePort, readPort, dif_neg hr, XRegs.get_of_ne x hr]
  by_cases h : rd = r
  · simp [h]
  · simp [h, Ne.symm h]

theorem regsWith_apply (rd r : BitVec 5) (v : Word) (hr : r ≠ 0#5) :
    s.regsWith rd v r = if r = rd then (v.toNat : ℤ) else s.regs r := by
  unfold RV32I.regsWith
  by_cases hd : rd = 0#5
  · subst hd
    simp [hr]
  · rw [if_neg hd]
    by_cases h : r = rd
    · subst h
      simp
    · simp [h]

/-- The access of a decoded instruction is aligned and inside the data memory. -/
def AccessOk (p : Params) (x : BitVec 5 → Word) (i : Insn) : Prop :=
  ∀ a n, i.access x = some (a, n) → a.toNat % n = 0 ∧ a.toNat < 4 * 2 ^ p.dmemIdxW

/-- Where the access is in order, the two compute the same effect. -/
theorem effect_eq (hc : Config p s) (h : Agree s t) (ha : AccessOk p t.xregs.get i) :
    i.effect t.pc t.xregs.get s.byte = i.effect t.pc t.xregs.get (byteOf t.dmem) := by
  cases i with
  | load k rd rs1 imm =>
    obtain ⟨hal, hr⟩ := ha _ _ rfl
    have hv : Isa.loadValue s.byte (t.xregs.get rs1 + imm) k =
        Isa.loadValue (byteOf t.dmem) (t.xregs.get rs1 + imm) k := by
      refine loadValue_congr k fun j hj => byte_eq_byteOf hc h.mem ?_
      rw [toNat_add_of_aligned (loadSize_cases k) hal hj]
      have hn := loadSize_cases k
      rcases hn with hn | hn | hn <;> rw [hn] at hal hj <;> omega
    simp only [Insn.effect, Insn.result, hv]
  | _ => rfl

/-- Both cores applying the same effect keeps them in agreement. -/
theorem Agree.apply (hc : Config p s) (ho : MmioOutside p) (h : Agree s t)
    (hq : t.haltedQ = false) (hd : Decodes t.inst i) (ha : AccessOk p t.xregs.get i) :
    Agree (s.apply (i.effect t.pc t.xregs.get s.byte)) t.next := by
  rw [effect_eq hc h ha]
  constructor
  · intro r hr
    have hx := xregs_of_decodes hd fun k rd rs1 imm hi => by
      subst hi
      obtain ⟨hal, hlt⟩ := ha _ _ rfl
      refine ⟨ho.isMmio ?_, hal⟩
      rw [dmemIn_load hd]
      exact hlt
    rw [hx]
    change (s.write (i.effect t.pc t.xregs.get (byteOf t.dmem))).regs r = _
    cases hres : i.result t.pc t.xregs.get (byteOf t.dmem) with
    | none =>
      rw [RV32I.write_regs_none hres]
      exact h.regs r hr
    | some res =>
      obtain ⟨rd, v⟩ := res
      rw [RV32I.write_regs_some hres]
      simp only [regsWith_apply rd r v hr, writePort_get _ rd r v hr]
      split
      · rfl
      · exact h.regs r hr
  · change ((i.target t.pc t.xregs.get).getD (t.pc + 4#32)).toNat = ((Top.nextPc t).toNat : ℤ)
    rw [nextPc_of_decodes hd]
  · cases i with
    | store k rs1 rs2 imm =>
      obtain ⟨hal, hlt⟩ := ha _ _ rfl
      have hin := dmemIn_store hq hd
      have hm := h.mem.nextMem p (d := t.dmemIn) (by rw [hin]) (ho.isMmio (by rw [hin]; exact hlt))
        (by rw [hin, bytes_storeMemSize]; exact hal) (by rw [hin]; exact hlt)
      rw [Top.next_dmem]
      have hs : (s.apply ((Insn.store k rs1 rs2 imm).effect t.pc t.xregs.get (byteOf t.dmem))).mem =
          packInto s.mem t.dmemIn.addr.toNat t.dmemIn.writeData.toNat t.dmemIn.memSize.bytes := by
        rw [hin, bytes_storeMemSize]
        change packInto s.mem ((t.xregs.get rs1 + imm).toNat - s.memBase).toNat _ _ = _
        rw [hc.memBase, Int.sub_zero, Int.toNat_natCast]
      rw [hs]
      exact hm
    | load =>
      have hw : t.dmemIn.memWrite = false := by rw [dmemIn_load hd]
      rw [Top.next_dmem, DMemIn.nextMem_of_memWrite_false p _ hw]
      exact h.mem
    | _ =>
      rw [Top.next_dmem, DMemIn.nextMem_of_memWrite_false p _ (dmemIn_other hd rfl).2]
      exact h.mem

end Agree

section Outcome
variable {p : Params} {s : RV32I} {t : Top p} {i : Insn}

/-- How the emulator's state after a step matches the halt of `top` in that cycle. -/
def HaltsTogether (s' : RV32I) (t : Top p) : Prop :=
  match t.haltCause with
  | .none => s'.halted = false
  | .ecall => s'.halted = true ∧ s'.haltReason = some .ecall
  | .ebreak => s'.halted = true ∧ s'.haltReason = some .ebreak
  | .tohost => s'.halted = true ∧
      (s'.haltReason = some .tohostPass ∨ s'.haltReason = some .tohostFail) ∧
      s'.tohostValue = some (t.tohostData.toNat : ℤ)
  | .illegal | .misaligned => False

/-- The store a step reports, if any, misses the word at `q`. -/
def StoreMisses (tr : StepTrace) (q : ℤ) : Prop :=
  ∀ a v size, tr.memWrite = some (a, v, size) → a + size ≤ q ∨ q + 4 ≤ a

/-- What becomes of one instruction on the two cores. -/
inductive StepOutcome (s : RV32I) (t : Top p) : Prop
  | commits (tr : StepTrace) (s' : RV32I) (run : step s = .ok tr s') (agree : Agree s' t.clock)
      (config : Config p s') (halts : HaltsTogether s' t)
      (kept : ∀ q : ℕ, StoreMisses tr q → unpackFrom s'.mem q 4 = unpackFrom s.mem q 4)
  | misaligned (trap : Trap) (run : step s = .error (.trap trap) s)
      (kind : trap.kind = .misalignedLoad ∨ trap.kind = .misalignedStore)
      (cause : t.haltCause = .misaligned) (dmem : t.clock.dmem = t.dmem)
  | stops (trap : Trap) (run : step s = .error (.trap trap) s)
      (kind : trap.kind = .misalignedFetch ∨ trap.kind = .memRange)

theorem haltCause_of_decodes (hq : t.haltedQ = false) (hd : Decodes t.inst i) :
    t.haltCause =
      if t.dmemMisaligned then .misaligned
      else if i = .ecall then .ecall
      else if i = .ebreak then .ebreak
      else if t.tohostWe then .tohost
      else .none := by
  simp only [Top.haltCause, hq, illegal_of_decodes hd, isEcall_of_decodes hd,
    isEbreak_of_decodes hd, Bool.not_false, if_true, Bool.false_eq_true, if_false,
    decide_eq_true_eq]

theorem agree_clock {s' : RV32I} (hq : t.haltedQ = false) (h : Agree s' t.next) :
    Agree s' t.clock := by
  rw [Top.clock_of_running hq]
  exact ⟨h.regs, h.pc, h.mem⟩

theorem unpackFrom_packInto {mem : List (BitVec 8)} {k v n q : ℕ} (hl : k + n ≤ mem.length)
    (h : k + n ≤ q ∨ q + 4 ≤ k) : unpackFrom (packInto mem k v n) q 4 = unpackFrom mem q 4 := by
  refine leNat_congr fun j hj => ?_
  rw [byteAt_packInto _ _ _ _ _ hl, if_neg (by omega)]

/-- The instruction reads or writes no memory, so no misalignment and no MMIO. -/
theorem quiet_of_no_access (hd : Decodes t.inst i) (ha : i.access t.xregs.get = none) :
    t.dmemMisaligned = false ∧ t.tohostWe = false := by
  obtain ⟨hr, hw⟩ := dmemIn_other hd ha
  exact ⟨DMemIn.misaligned_of_no_access p _ hr hw, by simp [Top.tohostWe, DMemIn.tohostWe, hw]⟩

theorem quiet_of_accessOk (ho : MmioOutside p) (hq : t.haltedQ = false) (hd : Decodes t.inst i)
    (ha : AccessOk p t.xregs.get i) : t.dmemMisaligned = false ∧ t.tohostWe = false := by
  cases i with
  | load k rd rs1 imm =>
    obtain ⟨hal, hlt⟩ := ha _ _ rfl
    have hin := dmemIn_load hd
    have hm : t.dmemIn.isMmio p = false := ho.isMmio (by rw [hin]; exact hlt)
    refine ⟨?_, by simp [Top.tohostWe, DMemIn.tohostWe, hin]⟩
    by_contra hmis
    refine (misaligned_iff p (Or.inl (by rw [hin])) hm).mp (by simpa [Top.dmemMisaligned] using hmis) ?_
    rw [hin, bytes_loadMemSize]
    exact hal
  | store k rs1 rs2 imm =>
    obtain ⟨hal, hlt⟩ := ha _ _ rfl
    have hin := dmemIn_store hq hd
    have hm : t.dmemIn.isMmio p = false := ho.isMmio (by rw [hin]; exact hlt)
    constructor
    · by_contra hmis
      refine (misaligned_iff p (Or.inr (by rw [hin])) hm).mp (by simpa [Top.dmemMisaligned] using hmis) ?_
      rw [hin, bytes_storeMemSize]
      exact hal
    · simp only [DMemIn.isMmio, Bool.or_eq_false_iff] at hm
      simp [Top.tohostWe, DMemIn.tohostWe, hm.1]
  | _ => exact quiet_of_no_access hd rfl

theorem access_size {x : BitVec 5 → Word} {a : Word} {n : ℕ} (h : i.access x = some (a, n)) :
    n = 1 ∨ n = 2 ∨ n = 4 := by
  cases i with
  | load k =>
    cases h
    exact loadSize_cases k
  | store k =>
    cases h
    exact storeSize_cases k
  | _ => cases h

theorem AccessOk.stored {x : BitVec 5 → Word} {a v : Word} {k : F3Store} (ha : AccessOk p x i)
    (h : i.stored x = some (a, k, v)) :
    a.toNat % Isa.storeSize k = 0 ∧ a.toNat < 4 * 2 ^ p.dmemIdxW := by
  cases i with
  | store =>
    cases h
    exact ha _ _ rfl
  | _ => cases h

theorem AccessOk.completes (hc : Config p s) (ho : MmioOutside p) (h : Agree s t)
    (ha : AccessOk p t.xregs.get i)
    (ht : ∀ a, i.target t.pc t.xregs.get = some a → a.toNat % 4 = 0) :
    Completes s t.pc t.xregs.get i where
  target := ht
  aligned a n hi := (ha a n hi).1
  inMem a n hi := inMem_of_lt hc h.mem (access_size hi) (ha a n hi).1 (ha a n hi).2
  notTohost a k v hi heq := by
    have hlt := (ha.stored hi).2
    have hto := ho.tohost
    rw [hc.tohostAddr, Nat.cast_inj] at heq
    omega

/-- A store leaves the words that it misses as they are. -/
theorem unpackFrom_storeMem (hc : Config p s) (h : Agree s t) {a v : Word} {k : F3Store} {q : ℕ}
    (hal : a.toNat % Isa.storeSize k = 0) (hlt : a.toNat < 4 * 2 ^ p.dmemIdxW)
    (hm : a.toNat + Isa.storeSize k ≤ q ∨ q + 4 ≤ a.toNat) :
    unpackFrom (s.storeMem a v (Isa.storeSize k)) q 4 = unpackFrom s.mem q 4 := by
  have hin := (inMem_of_lt hc h.mem (storeSize_cases k) hal hlt).2
  rw [hc.memBase] at hin
  rw [RV32I.storeMem, hc.memBase, Int.sub_zero, Int.toNat_natCast]
  exact unpackFrom_packInto (by omega) hm

/-- An instruction that completes on the emulator commits on both. -/
theorem outcome_of_accessOk (hc : Config p s) (ho : MmioOutside p) (h : Agree s t)
    (hh : s.halted = false) (hq : t.haltedQ = false) (hf : Fetches s t.pc t.inst)
    (hd : decode t.inst = some i) (ha : AccessOk p t.xregs.get i)
    (ht : ∀ a, i.target t.pc t.xregs.get = some a → a.toNat % 4 = 0)
    (he : i ≠ .ecall) (hb : i ≠ .ebreak) : StepOutcome s t := by
  have hd' := decodes_of_decode hd
  obtain ⟨tr, hrun, htr⟩ := step_ok hh h.holds hf hd (ha.completes hc ho h ht) he hb
  obtain ⟨hmis, hto⟩ := quiet_of_accessOk ho hq hd' ha
  have hcause : t.haltCause = .none := by
    simp [haltCause_of_decodes hq hd', hmis, hto, he, hb]
  refine .commits tr _ hrun (agree_clock hq (h.apply hc ho hq hd' ha))
    ⟨hc.memBase, hc.trapOnEcall, hc.tohostAddr⟩ ?_ ?_
  · rw [HaltsTogether, hcause]
    exact hh
  · intro q hmiss
    change unpackFrom (s.write (i.effect t.pc t.xregs.get s.byte)).mem q 4 = _
    cases hs : i.stored t.xregs.get with
    | none => rw [RV32I.write_mem_none hs]
    | some st =>
      obtain ⟨a, k, v⟩ := st
      rw [RV32I.write_mem_some hs]
      have hm := hmiss a.toNat v.toNat (Isa.storeSize k) (by
        rw [htr.memWrite, memWriteOf]
        change (i.stored t.xregs.get).map _ = _
        rw [hs]
        rfl)
      obtain ⟨hal, hlt⟩ := ha.stored hs
      exact unpackFrom_storeMem hc h hal hlt (by omega)

end Outcome
end RiscForge.Lockstep
