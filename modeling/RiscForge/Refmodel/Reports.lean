import RiscForge.Lib.Effect
import RiscForge.Refmodel.Access

/-! What a step changes is what its trace reports, and a step that raises changes nothing. -/
namespace RiscForge.Refmodel

open Lib Rtl

section Raising
variable {pc : ℤ} {d : String} {kind : TrapKind} {α : Type}

/-- The methods that read and check. -/
structure Checks (x : Emu α) : Prop where
  readOnly : ReadOnly x
  atomic : Atomic x

theorem Checks.bind {β : Type} {x : Emu α} {f : α → Emu β} (hx : Checks x)
    (hf : ∀ a, Checks (f a)) : Checks (x >>= f) :=
  ⟨hx.readOnly.bind fun a => (hf a).readOnly, hx.atomic.bind hx.readOnly fun a => (hf a).atomic⟩

theorem checks_pure (a : α) : Checks (pure a) := ⟨readOnly_pure, total_pure.atomic⟩

theorem checks_get : Checks get := ⟨readOnly_get, total_get.atomic⟩

theorem checks_raise : Checks (raiseTrap kind pc d : Emu α) := ⟨readOnly_throw, atomic_throw⟩

theorem checks_memIndex (addr size : ℤ) : Checks (memIndex addr size) := by
  refine checks_get.bind fun s => ?_
  split
  · exact checks_raise
  · exact checks_pure _

theorem checks_fetch (addr : ℤ) : Checks (fetch addr) := by
  refine checks_get.bind fun s => ?_
  split
  · exact checks_raise
  · exact (checks_memIndex _ _).bind fun i => checks_pure _

theorem checks_load (addr size : ℤ) (signed : Bool) : Checks (load addr size signed) := by
  refine checks_get.bind fun s => ?_
  split
  · exact checks_raise
  · refine (checks_memIndex _ _).bind fun i => ?_
    split
    · exact checks_pure _
    · split <;> exact checks_pure _

theorem checks_loadValue (f3 addr pc : ℤ) : Checks (loadValue f3 addr pc) := by
  unfold loadValue
  split
  case h_6 => exact checks_raise
  all_goals exact checks_load _ _ _

theorem checks_storeSize (f3 pc : ℤ) : Checks (storeSize f3 pc) := by
  unfold storeSize
  split
  case h_4 => exact checks_raise
  all_goals exact checks_pure _

theorem checks_branchTaken (f3 a b pc : ℤ) : Checks (branchTaken f3 a b pc) := by
  unfold branchTaken
  split
  case h_7 => exact checks_raise
  all_goals exact checks_pure _

theorem checks_jumpTarget (what : String) (target pc : ℤ) :
    Checks (jumpTarget what target pc) := by
  unfold jumpTarget
  split
  · exact checks_raise
  · exact checks_pure _

theorem checks_aluImm (f3 a imm inst pc : ℤ) : Checks (aluImm f3 a imm inst pc) := by
  unfold aluImm
  simp only
  split
  case h_8 =>
    split
    · exact checks_pure _
    · split
      · exact checks_pure _
      · exact checks_raise
  case h_9 => exact checks_raise
  all_goals exact checks_pure _

theorem checks_aluReg (f3 f7 a b pc : ℤ) : Checks (aluReg f3 f7 a b pc) := by
  unfold aluReg
  simp only
  split
  case h_1 | h_6 =>
    split
    · exact checks_pure _
    · split
      · exact checks_pure _
      · exact checks_raise
  case h_9 => exact checks_raise
  all_goals exact checks_pure _

theorem total_wr (idx v : ℤ) : Total (wr idx v) := total_modify

theorem atomic_store (addr v size : ℤ) : Atomic (store addr v size) := by
  refine total_get.atomic.bind readOnly_get fun s => ?_
  split
  · exact total_set.atomic
  · split
    · exact atomic_throw
    · refine (checks_memIndex _ _).atomic.bind_total fun i => ?_
      split
      · exact total_set
      · split <;> exact total_set

theorem total_takeTrap (pc cause : ℤ) : Total (takeTrap pc cause) :=
  total_modify.bind fun _ => total_modify.bind fun _ => total_get.bind fun _ => total_pure

theorem atomic_system (funct12 pc nextPc : ℤ) : Atomic (system funct12 pc nextPc) := by
  refine total_get.atomic.bind readOnly_get fun s => ?_
  split
  · split
    · exact (total_takeTrap _ _).atomic
    · exact (total_set.bind fun _ => total_pure).atomic
  · split
    · split
      · exact (total_takeTrap _ _).atomic
      · exact (total_set.bind fun _ => total_pure).atomic
    · split
      · exact total_pure.atomic
      · split
        · exact total_pure.atomic
        · exact atomic_throw

theorem total_zicsr (csr funct3 rs1 rd : ℤ) : Total (zicsr csr funct3 rs1 rd) := by
  refine total_get.bind fun s => ?_
  simp only
  generalize (if funct3 &&& 0b100 ≠ 0 then rs1 else s.r rs1) = srcVal
  split
  · exact total_modify.bind fun _ => total_wr _ _
  · split
    · split
      · exact total_modify.bind fun _ => total_wr _ _
      · split
        · exact total_modify.bind fun _ => total_wr _ _
        · exact total_wr _ _
    · exact total_wr _ _

theorem atomic_execute (pc inst : ℤ) : Atomic (execute pc inst) := by
  refine total_get.atomic.bind readOnly_get fun s => ?_
  simp only
  split
  · exact ((total_wr _ _).bind fun _ => total_pure).atomic
  · exact ((total_wr _ _).bind fun _ => total_pure).atomic
  · exact (checks_jumpTarget _ _ _).atomic.bind_total fun _ =>
      (total_wr _ _).bind fun _ => total_pure
  · exact (checks_jumpTarget _ _ _).atomic.bind_total fun _ =>
      (total_wr _ _).bind fun _ => total_pure
  · refine (checks_branchTaken _ _ _ _).atomic.bind (checks_branchTaken _ _ _ _).readOnly
      fun taken => ?_
    split
    · exact (checks_jumpTarget _ _ _).atomic.bind_total fun _ => total_pure
    · exact total_pure.atomic
  · exact (checks_loadValue _ _ _).atomic.bind_total fun _ =>
      (total_wr _ _).bind fun _ => total_pure
  · exact (checks_storeSize _ _).atomic.bind (checks_storeSize _ _).readOnly fun _ =>
      (atomic_store _ _ _).bind_total fun _ => total_pure
  · exact (checks_aluImm _ _ _ _ _).atomic.bind_total fun _ =>
      (total_wr _ _).bind fun _ => total_pure
  · exact (checks_aluReg _ _ _ _ _).atomic.bind_total fun _ =>
      (total_wr _ _).bind fun _ => total_pure
  · exact total_pure.atomic
  · split
    · exact (atomic_system _ _ _).bind_total fun _ => total_pure
    · split
      · exact atomic_throw
      · exact ((total_zicsr _ _ _ _).bind fun _ => total_pure).atomic
  · exact atomic_throw

theorem atomic_step : Atomic step := by
  refine total_get.atomic.bind readOnly_get fun s => ?_
  split
  · exact atomic_throw
  · refine (checks_fetch _).atomic.bind (checks_fetch _).readOnly fun inst => ?_
    exact (atomic_execute _ _).bind_total fun _ => total_get.bind fun _ =>
      total_set.bind fun _ => total_pure

/-- A trap leaves the whole state as it was, so the next step raises it again. -/
theorem trap_keeps_state {s s' : RV32I} {t : Trap} (h : step s = .error (.trap t) s') :
    s' = s ∧ step s' = .error (.trap t) s' := by
  obtain rfl := atomic_step s _ s' h
  exact ⟨rfl, h⟩

/-- `addi x1, x0, 6; sw x1, 12(x0); lw x2, 0(x1)`. -/
def unalignedCpu : RV32I :=
  { RV32I.init 16 0 0x1000 true with
    mem := [0x93, 0x00, 0x60, 0x00, 0x23, 0x26, 0x10, 0x00, 0x03, 0xA1, 0x00, 0x00, 0, 0, 0, 0] }

/-- After two instructions, the load raises. -/
theorem trap_keeps_state_unalignedCpu : ∃ t s, stateAfter step (stateAfter step unalignedCpu) = s ∧
    s.pc = 8 ∧ s.regs 1#5 = 6 ∧ s.mem.getD 12 0 = 6 ∧ step s = .error (.trap t) s ∧
      t.kind = .misalignedLoad := by
  have hk : (match step (stateAfter step (stateAfter step unalignedCpu)) with
    | .error (.trap t) _ => some t.kind
    | _ => none) = some .misalignedLoad := by decide +kernel
  split at hk
  case h_1 t s' h =>
    obtain ⟨rfl, hs⟩ := trap_keeps_state h
    exact ⟨t, _, rfl, by decide +kernel, by decide +kernel, by decide +kernel, hs, Option.some.inj hk⟩
  case h_2 => cases hk

end Raising

section Changes
variable {s s' t : RV32I} {α : Type} {a : α} {x : Emu α}

theorem Checks.state_eq (hx : Checks x) (h : x s = .ok a s') : s' = s := hx.readOnly s a s' h

/-- Nothing that a record describes has changed. -/
structure Keeps (s s' : RV32I) : Prop where
  regs : s'.regs = s.regs
  mem : s'.mem = s.mem
  memBase : s'.memBase = s.memBase
  tohostAddr : s'.tohostAddr = s.tohostAddr

theorem Keeps.refl (s : RV32I) : Keeps s s := ⟨rfl, rfl, rfl, rfl⟩

theorem system_keeps {funct12 pc nextPc v : ℤ} (h : system funct12 pc nextPc s = .ok v s') :
    Keeps s s' := by
  simp only [system, get_bind] at h
  split at h
  · split at h <;> cases h <;> exact ⟨rfl, rfl, rfl, rfl⟩
  · split at h
    · split at h <;> cases h <;> exact ⟨rfl, rfl, rfl, rfl⟩
    · split at h
      · cases h
        exact .refl s
      · split at h
        · cases h
          exact .refl s
        · cases h

/-- A CSR instruction ends with the write of its register. -/
theorem zicsr_writes {csr funct3 rs1 rd : ℤ} {u : Unit} (h : zicsr csr funct3 rs1 rd s = .ok u s') :
    ∃ t v, Keeps s t ∧ s' = t.wr rd v := by
  simp only [zicsr, get_bind] at h
  generalize (if funct3 &&& 0b100 ≠ 0 then rs1 else s.r rs1) = srcVal at h
  split at h
  · cases h
    exact ⟨{ s with csrs := Function.update s.csrs csr _ }, _, ⟨rfl, rfl, rfl, rfl⟩, rfl⟩
  · split at h
    · split at h
      · cases h
        exact ⟨{ s with csrs := Function.update s.csrs csr _ }, _, ⟨rfl, rfl, rfl, rfl⟩, rfl⟩
      · split at h
        · cases h
          exact ⟨{ s with csrs := Function.update s.csrs csr _ }, _, ⟨rfl, rfl, rfl, rfl⟩, rfl⟩
        · cases h
          exact ⟨s, _, .refl s, rfl⟩
    · cases h
      exact ⟨s, _, .refl s, rfl⟩

/-- A store, unless it hits `tohost`, writes the low bytes of the value. -/
structure Stores (s s' : RV32I) (addr v size : ℤ) : Prop where
  regs : s'.regs = s.regs
  mem : addr ≠ s.tohostAddr →
    s'.mem = packInto s.mem (addr - s.memBase).toNat (u32 v).toNat size.toNat
  memBase : s'.memBase = s.memBase
  tohostAddr : s'.tohostAddr = s.tohostAddr

theorem storeSize_eq_ok {f3 pc size : ℤ} (h : storeSize f3 pc s = .ok size s') :
    size = 1 ∨ size = 2 ∨ size = 4 := by
  cases hk : (IntEnum.ofValue f3 : Option F3Store) with
  | none =>
    simp only [storeSize, hk] at h
    cases h
  | some k =>
    rw [storeSize_run hk] at h
    cases h
    cases k <;> simp [Isa.storeSize]

theorem store_writes {addr v size : ℤ} {u : Unit} (hn : size = 1 ∨ size = 2 ∨ size = 4)
    (h : store addr v size s = .ok u s') : Stores s s' addr v size := by
  simp only [store, get_bind] at h
  split at h
  case isTrue ht =>
    cases h
    exact ⟨rfl, fun hne => (hne ht).elim, rfl, rfl⟩
  case isFalse ht =>
    split at h
    · cases h
    · obtain ⟨i, t, hi, h⟩ := run_bind_ok.mp h
      have hx : (addr - s.memBase).toNat = i ∧ t = s := by
        by_cases hm : InMem s addr size
        · rw [memIndex_ok hm] at hi
          cases hi
          exact ⟨rfl, rfl⟩
        · obtain ⟨d, hd⟩ := memIndex_error hm
          rw [hd] at hi
          cases hi
      obtain ⟨rfl, rfl⟩ := hx
      have h8 : v &&& 0xFF = v % 2 ^ 8 := and_mask_emod v (w := 8)
      have h16 : v &&& 0xFFFF = v % 2 ^ 16 := and_mask_emod v (w := 16)
      rcases hn with rfl | rfl | rfl
      · rw [if_pos rfl, h8] at h
        cases h
        refine ⟨rfl, fun _ => packInto_congr ?_, rfl, rfl⟩
        rw [u32_emod]
        omega
      · rw [if_neg (by decide), if_pos rfl, h16] at h
        cases h
        refine ⟨rfl, fun _ => packInto_congr ?_, rfl, rfl⟩
        rw [u32_emod]
        omega
      · rw [if_neg (by decide), if_neg (by decide)] at h
        cases h
        exact ⟨rfl, fun _ => rfl, rfl, rfl⟩

/-- What an executed instruction does to the registers and to the memory, and which store it has to
report. -/
structure Changes (inst : ℤ) (mw : Option (ℤ × ℤ × ℤ)) (s s' : RV32I) : Prop where
  regs : s'.regs = s.regs ∨ tracesRd (IntEnum.ofValue (opcodeField inst)) = true ∧
    rdField inst ≠ 0 ∧ ∃ v, s'.regs = Function.update s.regs (BitVec.ofInt 5 (rdField inst)) v
  mem : mw = none ∧ s'.mem = s.mem ∨ ∃ addr v size, mw = some (addr, v, size) ∧
    (addr ≠ s.tohostAddr → s'.mem = packInto s.mem (addr - s.memBase).toNat v.toNat size.toNat)
  memBase : s'.memBase = s.memBase
  tohostAddr : s'.tohostAddr = s.tohostAddr
  reports : mw.isSome = true ↔ IntEnum.ofValue (opcodeField inst) = some Opcode.store

variable {inst pc next v : ℤ} {mw : Option (ℤ × ℤ × ℤ)} {o : Opcode}

theorem Keeps.changes (h : Keeps s s') (ho : IntEnum.ofValue (opcodeField inst) = some o)
    (hs : o ≠ .store) : Changes inst none s s' where
  regs := .inl h.regs
  mem := .inl ⟨rfl, h.mem⟩
  memBase := h.memBase
  tohostAddr := h.tohostAddr
  reports := by simp [ho, hs]

theorem Keeps.changes_wr (h : Keeps s t) (ho : IntEnum.ofValue (opcodeField inst) = some o)
    (hs : o ≠ .store) (hr : tracesRd (some o) = true) :
    Changes inst none s (t.wr (rdField inst) v) := by
  by_cases h0 : rdField inst = 0
  · rw [RV32I.wr, if_neg (not_not.mpr h0)]
    exact h.changes ho hs
  · rw [RV32I.wr, if_pos h0]
    exact {
      regs := .inr ⟨by rw [ho, hr], h0, u32 v, congrArg (Function.update · _ _) h.regs⟩
      mem := .inl ⟨rfl, h.mem⟩
      memBase := h.memBase
      tohostAddr := h.tohostAddr
      reports := by simp [ho, hs] }

/-- A method that only checks, followed by the write of a register. -/
theorem checked_wr {f : α → ℤ} {g : α → ℤ} (hx : Checks x)
    (ho : IntEnum.ofValue (opcodeField inst) = some o) (hs : o ≠ .store)
    (hr : tracesRd (some o) = true)
    (h : (x >>= fun a => wr (rdField inst) (f a) >>= fun _ => pure (g a, none)) s =
      .ok (next, mw) s') : Changes inst mw s s' := by
  obtain ⟨a, t, ha, hw⟩ := run_bind_ok.mp h
  obtain rfl := hx.state_eq ha
  cases hw
  exact (Keeps.refl _).changes_wr ho hs hr

theorem execute_changes (h : execute pc inst s = .ok (next, mw) s') : Changes inst mw s s' := by
  simp only [execute, get_bind] at h
  generalize ho : (IntEnum.ofValue (opcodeField inst) : Option Opcode) = op at h
  cases op with
  | none => cases h
  | some o =>
    cases o with
    | lui | auipc =>
      cases h
      exact (Keeps.refl s).changes_wr ho nofun rfl
    | jal => exact checked_wr (checks_jumpTarget _ _ _) ho nofun rfl h
    | jalr => exact checked_wr (checks_jumpTarget _ _ _) ho nofun rfl h
    | branch =>
      obtain ⟨taken, t, ht, hb⟩ := run_bind_ok.mp h
      obtain rfl := (checks_branchTaken _ _ _ _).state_eq ht
      split at hb
      · obtain ⟨target, t', ht', hp⟩ := run_bind_ok.mp hb
        obtain rfl := (checks_jumpTarget _ _ _).state_eq ht'
        cases hp
        exact (Keeps.refl _).changes ho nofun
      · cases hb
        exact (Keeps.refl _).changes ho nofun
    | load => exact checked_wr (checks_loadValue _ _ _) ho nofun rfl h
    | store =>
      obtain ⟨size, t, ht, hb⟩ := run_bind_ok.mp h
      obtain rfl := (checks_storeSize _ _).state_eq ht
      obtain ⟨u, t', ht', hp⟩ := run_bind_ok.mp hb
      have hst := store_writes (storeSize_eq_ok ht) ht'
      cases hp
      exact {
        regs := .inl hst.regs
        mem := .inr ⟨_, _, _, rfl, hst.mem⟩
        memBase := hst.memBase
        tohostAddr := hst.tohostAddr
        reports := by simp [ho] }
    | imm => exact checked_wr (checks_aluImm _ _ _ _ _) ho nofun rfl h
    | reg => exact checked_wr (checks_aluReg _ _ _ _ _) ho nofun rfl h
    | fence =>
      cases h
      exact (Keeps.refl s).changes ho nofun
    | system =>
      simp only at h
      split at h
      · obtain ⟨target, t, ht, hb⟩ := run_bind_ok.mp h
        cases hb
        exact (system_keeps ht).changes ho nofun
      · split at h
        · cases h
        · obtain ⟨u, t, ht, hb⟩ := run_bind_ok.mp h
          cases hb
          obtain ⟨t', v, hk, rfl⟩ := zicsr_writes ht
          exact hk.changes_wr ho nofun rfl

end Changes
section Steps
variable {s s' : RV32I} {tr : StepTrace}

/-- The word that the memory holds at an address. -/
def RV32I.wordAt (s : RV32I) (addr : ℤ) : ℤ := unpackFrom s.mem (addr - s.memBase).toNat 4

theorem memIndex_eq_ok {addr size : ℤ} {i : ℕ} (h : memIndex addr size s = .ok i s') :
    InMem s addr size ∧ i = (addr - s.memBase).toNat ∧ s' = s := by
  by_cases hm : InMem s addr size
  · rw [memIndex_ok hm] at h
    cases h
    exact ⟨hm, rfl, rfl⟩
  · obtain ⟨d, hd⟩ := memIndex_error hm
    rw [hd] at h
    cases h

theorem fetch_eq_ok {addr w : ℤ} (h : fetch addr s = .ok w s') :
    w = s.wordAt addr ∧ InMem s addr 4 ∧ s' = s := by
  simp only [fetch, get_bind] at h
  split at h
  · cases h
  · obtain ⟨i, t, hi, hp⟩ := run_bind_ok.mp h
    obtain ⟨hm, rfl, rfl⟩ := memIndex_eq_ok hi
    cases hp
    exact ⟨rfl, hm, rfl⟩

/-- A step that returns: the instruction it executed, and the record it made of it. -/
structure Stepped (s s' : RV32I) (tr : StepTrace) (t : RV32I) (next : ℤ) : Prop where
  running : s.halted = false
  pc : tr.pc = s.pc
  inst : tr.inst = s.wordAt s.pc
  inMem : InMem s s.pc 4
  execute : execute s.pc tr.inst s = .ok (next, tr.memWrite) t
  rdWrite : tr.rdWrite =
    if rdField tr.inst ≠ 0 ∧ tracesRd (IntEnum.ofValue (opcodeField tr.inst)) = true then
      some (rdField tr.inst, t.regs (BitVec.ofInt 5 (rdField tr.inst)))
    else none
  state : s' = { t with pc := next, steps := t.steps + 1 }

theorem step_eq_ok (h : step s = .ok tr s') : ∃ t next, Stepped s s' tr t next := by
  simp only [step, get_bind] at h
  split at h
  case isTrue => cases h
  case isFalse hh =>
    obtain ⟨inst, s₁, hf, hx⟩ := run_bind_ok.mp h
    obtain ⟨rfl, hm, rfl⟩ := fetch_eq_ok hf
    obtain ⟨⟨next, mw⟩, t, he, hp⟩ := run_bind_ok.mp hx
    cases hp
    exact ⟨t, next, {
      running := Bool.not_eq_true _ ▸ hh
      pc := rfl
      inst := rfl
      inMem := hm
      execute := he
      rdWrite := rfl
      state := rfl }⟩

/-- What replaying a record does to a copy of the registers and of the memory at `memBase`. -/
def StepTrace.replay (memBase : ℤ) (c : (BitVec 5 → ℤ) × List (BitVec 8)) (tr : StepTrace) :
    (BitVec 5 → ℤ) × List (BitVec 8) :=
  (match tr.rdWrite with
    | some (rd, v) => Function.update c.1 (BitVec.ofInt 5 rd) v
    | none => c.1,
  match tr.memWrite with
    | some (addr, v, size) => packInto c.2 (addr - memBase).toNat v.toNat size.toNat
    | none => c.2)

/-- The record is not of a store that hits `tohost`. -/
def StepTrace.AvoidsTohost (tohostAddr : ℤ) (tr : StepTrace) : Prop :=
  ∀ addr v size, tr.memWrite = some (addr, v, size) → addr ≠ tohostAddr

theorem step_replay (h : step s = .ok tr s') (ht : tr.AvoidsTohost s.tohostAddr) :
    tr.replay s.memBase (s.regs, s.mem) = (s'.regs, s'.mem) := by
  obtain ⟨t, next, hs⟩ := step_eq_ok h
  have hc := execute_changes hs.execute
  have hregs : (tr.replay s.memBase (s.regs, s.mem)).1 = t.regs := by
    simp only [StepTrace.replay, hs.rdWrite]
    split_ifs with hr
    · rcases hc.regs with he | ⟨-, -, v, he⟩
      · rw [he]
        exact Function.update_eq_self ..
      · rw [he]
        exact congrArg (Function.update s.regs _) (Function.update_self ..)
    · rcases hc.regs with he | ⟨h1, h2, -⟩
      · exact he.symm
      · exact (hr ⟨h2, h1⟩).elim
  have hmem : (tr.replay s.memBase (s.regs, s.mem)).2 = t.mem := by
    rcases hc.mem with ⟨hn, he⟩ | ⟨addr, v, size, hw, he⟩
    · simp only [StepTrace.replay, hn, he]
    · simp only [StepTrace.replay, hw, he (ht addr v size hw)]
  rw [hs.state]
  exact Prod.ext hregs hmem

theorem step_keeps (h : step s = .ok tr s') :
    s'.memBase = s.memBase ∧ s'.tohostAddr = s.tohostAddr := by
  obtain ⟨t, next, hs⟩ := step_eq_ok h
  have hc := execute_changes hs.execute
  rw [hs.state]
  exact ⟨hc.memBase, hc.tohostAddr⟩

/-- The records of `n` calls of `step`, each with the state before it; a call that raises returns
none. -/
def records : ℕ → RV32I → List (RV32I × StepTrace) × RV32I
  | 0, s => ([], s)
  | n + 1, s =>
    match step s with
    | .ok tr s' => ((s, tr) :: (records n s').1, (records n s').2)
    | .error _ s' => records n s'

/-- The records account for every change of the registers and of the memory. -/
structure Accounts (s : RV32I) (recs : List (RV32I × StepTrace)) (s' : RV32I) : Prop where
  replay : (recs.map Prod.snd).foldl (StepTrace.replay s.memBase) (s.regs, s.mem) =
    (s'.regs, s'.mem)
  fetched : ∀ r ∈ recs, r.2.pc = r.1.pc ∧ r.2.inst = r.1.wordAt r.1.pc ∧ InMem r.1 r.1.pc 4

theorem records_account (n : ℕ) (s : RV32I)
    (h : ∀ r ∈ (records n s).1, r.2.AvoidsTohost s.tohostAddr) :
    Accounts s (records n s).1 (records n s).2 := by
  induction n generalizing s with
  | zero => exact ⟨rfl, by simp [records]⟩
  | succ n ih =>
    cases hs : step s with
    | ok tr s' =>
      simp only [records, hs] at h ⊢
      obtain ⟨hb, ht⟩ := step_keeps hs
      have hr := step_replay hs (h _ (List.mem_cons_self ..))
      have hi := ih s' fun r hm => ht ▸ h r (List.mem_cons_of_mem _ hm)
      obtain ⟨t, next, hst⟩ := step_eq_ok hs
      constructor
      · rw [List.map_cons, List.foldl_cons, hr, ← hb]
        exact hi.replay
      · intro r hm
        rcases List.mem_cons.mp hm with rfl | hm
        · exact ⟨hst.pc, hst.inst, hst.inMem⟩
        · exact hi.fetched r hm
    | error e s' =>
      simp only [records, hs] at h ⊢
      obtain rfl := atomic_step s e s' hs
      exact ih s' h

/-- A memory of three words that starts with `sw x2, 8(x0)`. -/
def storeCpu : RV32I :=
  { RV32I.init 12 0 0x1000 false with
    regs := fun _ => 7
    mem := [0x23, 0x24, 0x20, 0x00, 0, 0, 0, 0, 0, 0, 0, 0] }

theorem records_account_storeCpu :
    (records 2 storeCpu).1.map (fun r => r.2.memWrite) = [some (8, 7, 4)] ∧
      Accounts storeCpu (records 2 storeCpu).1 (records 2 storeCpu).2 := by
  have hw : (records 2 storeCpu).1.map (fun r => r.2.memWrite) = [some (8, 7, 4)] := by decide +kernel
  refine ⟨hw, records_account 2 storeCpu fun r hr addr v size h => ?_⟩
  have hm := List.mem_map_of_mem (f := fun r : RV32I × StepTrace => r.2.memWrite) hr
  rw [hw, List.mem_singleton, h] at hm
  cases hm
  decide

end Steps
end RiscForge.Refmodel
