import RiscForge.Refmodel.StepSpec
import RiscForge.Rtl.TopSpec

/-! Which instruction words the RTL decoder and the emulator accept. -/
namespace RiscForge.Refmodel

open Lib Rtl Isa

section Spares
variable {α β : Type} {k : TrapKind} {x : Emu α} {f : α → Emu β}

/-- The method never raises a trap of kind `k`, from any state. -/
def Spares (k : TrapKind) (x : Emu α) : Prop :=
  ∀ s t s', x s = .error (.trap t) s' → t.kind ≠ k

theorem Spares.bind (hx : Spares k x) (hf : ∀ a, Spares k (f a)) : Spares k (x >>= f) := by
  intro s t s' h
  cases hr : x s with
  | ok a u =>
    rw [bind_ok hr] at h
    exact hf a u t s' h
  | error e u =>
    rw [bind_error hr] at h
    cases h
    exact hx s t s' hr

theorem spares_pure (a : α) : Spares k (pure a : Emu α) := by
  intro s t s' h
  cases h

theorem spares_get : Spares k (get : Emu RV32I) := by
  intro s t s' h
  cases h

theorem spares_set (u : RV32I) : Spares k (set u : Emu PUnit) := by
  intro s t s' h
  cases h

theorem spares_modify (g : RV32I → RV32I) : Spares k (modify g : Emu PUnit) := by
  intro s t s' h
  cases h

theorem spares_raiseTrap {kind : TrapKind} (h : kind ≠ k) (pc : ℤ) (d : String) :
    Spares k (raiseTrap kind pc d : Emu α) := by
  rintro s t s' ⟨⟩
  exact h

theorem spares_ite {c : Prop} [Decidable c] {y : Emu α} (hx : Spares k x) (hy : Spares k y) :
    Spares k (if c then x else y) := by
  split
  · exact hx
  · exact hy

theorem spares_wr (idx v : ℤ) : Spares k (wr idx v) := spares_modify _

theorem spares_memIndex (addr size : ℤ) : Spares .illegal (memIndex addr size) :=
  spares_get.bind fun _ => spares_ite (spares_raiseTrap (by decide) _ _) (spares_pure _)

theorem spares_load (addr size : ℤ) (signed : Bool) : Spares .illegal (load addr size signed) :=
  spares_get.bind fun _ => spares_ite (spares_raiseTrap (by decide) _ _)
    ((spares_memIndex _ _).bind fun _ =>
      spares_ite (spares_pure _) (spares_ite (spares_pure _) (spares_pure _)))

theorem spares_store (addr v size : ℤ) : Spares .illegal (store addr v size) :=
  spares_get.bind fun _ => spares_ite (spares_set _) <|
    spares_ite (spares_raiseTrap (by decide) _ _)
      ((spares_memIndex _ _).bind fun _ =>
        spares_ite (spares_set _) (spares_ite (spares_set _) (spares_set _)))

theorem spares_jumpTarget (what : String) (t pc : ℤ) : Spares .illegal (jumpTarget what t pc) :=
  spares_ite (spares_raiseTrap (by decide) _ _) (spares_pure _)

theorem spares_takeTrap (pc cause : ℤ) : Spares k (takeTrap pc cause) :=
  (spares_modify _).bind fun _ => (spares_modify _).bind fun _ =>
    spares_get.bind fun _ => spares_pure _

end Spares

section Accepted
variable {w : Word} {i : Insn}

theorem spares_branchTaken {f3 : BitVec 3} {c : F3Branch} (hk : BitEnum.ofBits f3 = some c)
    (a b pc : ℤ) : Spares .illegal (branchTaken f3.toNat a b pc) := by
  rw [branchTaken, ofValue_funct3 hk]
  cases c <;> exact spares_pure _

theorem spares_loadValue {f3 : BitVec 3} {k : F3Load} (hk : BitEnum.ofBits f3 = some k)
    (addr pc : ℤ) : Spares .illegal (loadValue f3.toNat addr pc) := by
  rw [loadValue, ofValue_funct3 hk]
  cases k <;> exact spares_load _ _ _

theorem spares_storeSize {f3 : BitVec 3} {k : F3Store} (hk : BitEnum.ofBits f3 = some k)
    (pc : ℤ) : Spares .illegal (storeSize f3.toNat pc) := by
  rw [storeSize, ofValue_funct3 hk]
  cases k <;> exact spares_pure _

/-- The `funct7` values the shifts right, ADD and SUB accept. -/
def F7Ok (f7 : BitVec 7) : Prop := f7 = 0#7 ∨ f7 = Rtl.f7Alt

instance (f7 : BitVec 7) : Decidable (F7Ok f7) := inferInstanceAs (Decidable (_ ∨ _))

theorem f7Ok_iff (f7 : BitVec 7) :
    F7Ok f7 ↔ ((f7.toNat : ℤ) = f7Default ∨ (f7.toNat : ℤ) = f7Alt) := by
  have h0 : ((f7.toNat : ℤ) = f7Default) ↔ f7 = 0#7 := funct7_eq_iff f7 0#7
  have h1 : ((f7.toNat : ℤ) = f7Alt) ↔ f7 = Rtl.f7Alt := funct7_eq_iff f7 Rtl.f7Alt
  rw [F7Ok, h0, h1]

theorem spares_funct7 {f7 : ℤ} {a b : ℤ} {x : Emu ℤ} (h : f7 = f7Default ∨ f7 = f7Alt) :
    Spares .illegal (if f7 = f7Default then return a else if f7 = f7Alt then return b else x) := by
  split
  case isTrue => exact spares_pure _
  case isFalse h0 =>
    rw [if_pos (h.resolve_left h0)]
    exact spares_pure _

theorem spares_aluImm {f3 : BitVec 3} {f : F3Op} {o : Op} (hk : BitEnum.ofBits f3 = some f)
    (ho : decodeOpImm f (funct7 w) = some o) (a imm pc : ℤ) :
    Spares .illegal (aluImm f3.toNat a imm w.toNat pc) := by
  rw [aluImm, ofValue_funct3 hk]
  cases f with
  | sr =>
    refine spares_funct7 ?_
    rw [funct7Field_eq, ← f7Ok_iff]
    by_contra hn
    simp only [F7Ok, not_or] at hn
    simp [decodeOpImm, decodeOp, hn.1, hn.2] at ho
  | _ => exact spares_pure _

theorem spares_aluReg {f3 : BitVec 3} {f7 : BitVec 7} {f : F3Op} {o : Op}
    (hk : BitEnum.ofBits f3 = some f) (ho : decodeOp f f7 = some o) (a b pc : ℤ) :
    Spares .illegal (aluReg f3.toNat f7.toNat a b pc) := by
  rw [aluReg, ofValue_funct3 hk]
  cases f with
  | addSub | sr =>
    refine spares_funct7 ?_
    rw [← f7Ok_iff]
    by_contra hn
    simp only [F7Ok, not_or] at hn
    simp [decodeOp, hn.1, hn.2] at ho
  | _ => exact spares_pure _

/-- The `funct12` values of SYSTEM that the emulator accepts. -/
def SystemOk (funct12 : ℤ) : Prop :=
  funct12 = f12Ecall ∨ funct12 = f12Ebreak ∨ funct12 = f12Mret ∨ funct12 = f12Wfi

theorem spares_system {funct12 : ℤ} (h : SystemOk funct12) (pc next : ℤ) :
    Spares .illegal (system funct12 pc next) := by
  refine spares_get.bind fun s => ?_
  split
  case isTrue =>
    exact spares_ite (spares_takeTrap _ _) ((spares_set _).bind fun _ => spares_pure _)
  case isFalse h0 =>
    split
    case isTrue =>
      exact spares_ite (spares_takeTrap _ _) ((spares_set _).bind fun _ => spares_pure _)
    case isFalse h1 =>
      split
      case isTrue => exact spares_pure _
      case isFalse h2 =>
        rw [if_pos (((h.resolve_left h0).resolve_left h1).resolve_left h2)]
        exact spares_pure _

/-- The emulator never calls a decoded instruction illegal. -/
theorem spares_execute (h : Decodes w i) (pc : ℤ) : Spares .illegal (execute pc w.toNat) := by
  have hop := opcode_eq w
  refine spares_get.bind fun s => ?_
  cases h with
  | lui ho | auipc ho =>
    rw [ho] at hop
    simp only [hop]
    exact (spares_wr _ _).bind fun _ => spares_pure _
  | jal ho | jalr ho =>
    rw [ho] at hop
    simp only [hop]
    exact (spares_jumpTarget _ _ _).bind fun _ => (spares_wr _ _).bind fun _ => spares_pure _
  | branch ho hk =>
    rw [ho] at hop
    simp only [hop, funct3Field_eq]
    exact (spares_branchTaken hk _ _ _).bind fun _ =>
      spares_ite ((spares_jumpTarget _ _ _).bind fun _ => spares_pure _) (spares_pure _)
  | load ho hk =>
    rw [ho] at hop
    simp only [hop, funct3Field_eq]
    exact (spares_loadValue hk _ _).bind fun _ => (spares_wr _ _).bind fun _ => spares_pure _
  | store ho hk =>
    rw [ho] at hop
    simp only [hop, funct3Field_eq]
    exact (spares_storeSize hk _).bind fun _ => (spares_store _ _ _).bind fun _ => spares_pure _
  | opImm ho hk hop' =>
    rw [ho] at hop
    simp only [hop, funct3Field_eq]
    exact (spares_aluImm hk hop' _ _ _).bind fun _ => (spares_wr _ _).bind fun _ => spares_pure _
  | op ho hk hop' =>
    rw [ho] at hop
    simp only [hop, funct3Field_eq, funct7Field_eq]
    exact (spares_aluReg hk hop' _ _ _).bind fun _ => (spares_wr _ _).bind fun _ => spares_pure _
  | fence ho =>
    rw [ho] at hop
    simp only [hop]
    exact spares_pure _
  | ecall ho h3 h12 | ebreak ho h3 h12 =>
    rw [ho] at hop
    simp only [hop, funct3Field_eq, funct12Field_eq, h3, h12]
    rw [if_pos (by rfl)]
    exact (spares_system (by first | exact Or.inl rfl | exact Or.inr (Or.inl rfl)) _ _).bind
      fun _ => spares_pure _

end Accepted

section Rejected
variable {w : Word} {s : RV32I}

/-- A SYSTEM word the two are not compared on: a CSR instruction, MRET or WFI. -/
def Excluded (w : Word) : Prop :=
  opcode w = some .system ∧
    (funct3 w ≠ 0#3 ∨ funct12 w = 0x302#12 ∨ funct12 w = 0x105#12)

instance (w : Word) : Decidable (Excluded w) := inferInstanceAs (Decidable (_ ∧ _))

/-- The method raises `illegal`, with the state as it was. -/
def RaisesIllegal {α : Type} (x : Emu α) (s : RV32I) : Prop :=
  ∃ t s', x s = .error (.trap t) s' ∧ t.kind = .illegal

theorem RaisesIllegal.bind {α β : Type} {x : Emu α} {f : α → Emu β} (h : RaisesIllegal x s) :
    RaisesIllegal (x >>= f) s := by
  obtain ⟨t, s', hx, hk⟩ := h
  exact ⟨t, s', bind_error hx, hk⟩

theorem raisesIllegal_raiseTrap {α : Type} (pc : ℤ) (d : String) :
    RaisesIllegal (raiseTrap .illegal pc d : Emu α) s := ⟨_, _, rfl, rfl⟩

theorem ofValue_funct3_none {α : Type} [BitEnum α 3] [IntEnum α] {f3 : BitVec 3}
    (hk : (BitEnum.ofBits f3 : Option α) = none) :
    (IntEnum.ofValue (f3.toNat : ℤ) : Option α) = none := by
  rw [IntEnum.ofValue_toNat, hk]

theorem f3Op_ofBits (f3 : BitVec 3) : ∃ f : F3Op, BitEnum.ofBits f3 = some f := by
  cases h : (BitEnum.ofBits f3 : Option F3Op) with
  | none => exact (f3Op_ofBits_ne_none f3 h).elim
  | some f => exact ⟨f, rfl⟩

theorem funct7_rejected {f7 : BitVec 7} (h : ¬ F7Ok f7) :
    (f7.toNat : ℤ) ≠ f7Default ∧ (f7.toNat : ℤ) ≠ f7Alt := by
  rw [f7Ok_iff, not_or] at h
  exact h

theorem aluReg_illegal {f3 : BitVec 3} {f7 : BitVec 7} {f : F3Op} (hk : BitEnum.ofBits f3 = some f)
    (ho : decodeOp f f7 = none) (a b pc : ℤ) :
    RaisesIllegal (aluReg f3.toNat f7.toNat a b pc) s := by
  cases f with
  | addSub | sr =>
    have h7 : ¬ F7Ok f7 := by
      rintro (rfl | rfl) <;> cases ho
    obtain ⟨h0, h1⟩ := funct7_rejected h7
    simp only [aluReg, ofValue_funct3 hk, if_neg h0, if_neg h1]
    exact raisesIllegal_raiseTrap _ _
  | _ => cases ho

theorem aluImm_illegal {f3 : BitVec 3} {f : F3Op} (hk : BitEnum.ofBits f3 = some f)
    (ho : decodeOpImm f (funct7 w) = none) (a imm pc : ℤ) :
    RaisesIllegal (aluImm f3.toNat a imm w.toNat pc) s := by
  cases f with
  | sr =>
    have h7 : ¬ F7Ok (funct7 w) := by
      rintro (h | h) <;> rw [h] at ho <;> cases ho
    obtain ⟨h0, h1⟩ := funct7_rejected h7
    simp only [aluImm, ofValue_funct3 hk, funct7Field_eq, if_neg h0, if_neg h1]
    exact raisesIllegal_raiseTrap _ _
  | _ => cases ho

theorem system_illegal {f : BitVec 12} (h0 : f ≠ Rtl.f12Ecall) (h1 : f ≠ Rtl.f12Ebreak)
    (h2 : f ≠ 0x302#12) (h3 : f ≠ 0x105#12) (pc next : ℤ) :
    RaisesIllegal (system f.toNat pc next) s := by
  have hne : ∀ g : BitVec 12, f ≠ g → (f.toNat : ℤ) ≠ (g.toNat : ℤ) :=
    fun g hg h => hg (BitVec.eq_of_toNat_eq (Nat.cast_inj.mp h))
  have h0' : (f.toNat : ℤ) ≠ f12Ecall := hne _ h0
  have h1' : (f.toNat : ℤ) ≠ f12Ebreak := hne _ h1
  have h2' : (f.toNat : ℤ) ≠ f12Mret := hne _ h2
  have h3' : (f.toNat : ℤ) ≠ f12Wfi := hne _ h3
  have hr : system f.toNat pc next s =
      .error (.trap ⟨.illegal, pc, s!"system funct12=0x{hexPad 3 f.toNat}"⟩) s := by
    simp only [system, get_bind, if_neg h0', if_neg h1', if_neg h2', if_neg h3']
    rfl
  exact ⟨_, _, hr, rfl⟩

/-- The emulator calls every word illegal that does not decode, the excluded ones apart. -/
theorem execute_illegal (hd : decode w = none) (hx : ¬ Excluded w) (pc : ℤ) :
    RaisesIllegal (execute pc w.toNat) s := by
  have hop := opcode_eq w
  unfold execute RaisesIllegal
  simp only [get_bind]
  change RaisesIllegal _ s
  cases ho : opcode w with
  | none =>
    rw [ho] at hop
    simp only [hop]
    exact raisesIllegal_raiseTrap _ _
  | some o =>
    rw [ho] at hop
    cases o with
    | lui | auipc | jal | jalr | fence => simp [decode, ho] at hd
    | branch =>
      simp only [decode, ho, Option.map_eq_none_iff] at hd
      simp only [hop, funct3Field_eq, branchTaken, ofValue_funct3_none hd]
      exact (raisesIllegal_raiseTrap _ _).bind
    | load =>
      simp only [decode, ho, Option.map_eq_none_iff] at hd
      simp only [hop, funct3Field_eq, loadValue, ofValue_funct3_none hd]
      exact (raisesIllegal_raiseTrap _ _).bind
    | store =>
      simp only [decode, ho, Option.map_eq_none_iff] at hd
      simp only [hop, funct3Field_eq, storeSize, ofValue_funct3_none hd]
      exact (raisesIllegal_raiseTrap _ _).bind
    | imm =>
      obtain ⟨f, hk⟩ := f3Op_ofBits (funct3 w)
      simp only [decode, ho, hk, Option.bind_some, Option.map_eq_none_iff] at hd
      simp only [hop, funct3Field_eq]
      exact (aluImm_illegal hk hd _ _ _).bind
    | reg =>
      obtain ⟨f, hk⟩ := f3Op_ofBits (funct3 w)
      simp only [decode, ho, hk, Option.bind_some, Option.map_eq_none_iff] at hd
      simp only [hop, funct3Field_eq, funct7Field_eq]
      exact (aluReg_illegal hk hd _ _ _).bind
    | system =>
      simp only [Excluded, ho, true_and, not_or, not_not] at hx
      obtain ⟨h3, hm, hwfi⟩ := hx
      have hec : funct12 w ≠ Rtl.f12Ecall := by
        intro h
        simp [decode, ho, decodeSystem, h3, h] at hd
      have heb : funct12 w ≠ Rtl.f12Ebreak := by
        intro h
        simp [decode, ho, decodeSystem, h3, h, show Rtl.f12Ebreak ≠ Rtl.f12Ecall by decide] at hd
      simp only [hop, funct3Field_eq, funct12Field_eq, h3]
      rw [if_pos (by rfl)]
      exact (system_illegal hec heb hm hwfi _ _).bind

end Rejected

section Step
variable {w : Word} {s : RV32I}

/-- On a word that is fetched, a step raises `illegal` exactly if the dispatch does. -/
theorem step_illegal_iff (hh : s.halted = false) (hf : fetch s.pc s = .ok (w.toNat : ℤ) s) :
    RaisesIllegal step s ↔ RaisesIllegal (execute s.pc w.toNat) s := by
  constructor
  · rintro ⟨t, s', hr, hk⟩
    simp only [step, get_bind, hh, Bool.false_eq_true, if_false] at hr
    rw [bind_ok hf] at hr
    cases hx : execute s.pc w.toNat s with
    | ok a u =>
      rw [bind_ok hx] at hr
      cases hr
    | error e u =>
      rw [bind_error hx] at hr
      cases hr
      exact ⟨t, s', hx, hk⟩
  · rintro ⟨t, s', hx, hk⟩
    refine ⟨t, s', ?_, hk⟩
    simp only [step, get_bind, hh, Bool.false_eq_true, if_false]
    rw [bind_ok hf, bind_error hx]

/-- The emulator raises `illegal` exactly on the words that do not decode. -/
theorem step_illegal_iff_decode (hh : s.halted = false)
    (hf : fetch s.pc s = .ok (w.toNat : ℤ) s) (hx : ¬ Excluded w) :
    RaisesIllegal step s ↔ decode w = none := by
  rw [step_illegal_iff hh hf]
  constructor
  · rintro ⟨t, s', hr, hk⟩
    cases hd : decode w with
    | none => rfl
    | some i => exact (spares_execute (decodes_of_decode hd) _ _ _ _ hr hk).elim
  · exact fun hd => execute_illegal hd hx _

end Step

section Decoder
variable {w : Word} {s : RV32I}

/-- A reserved `funct7` or `funct12`, in a group where the emulator looks at it. -/
def ReservedFunct (w : Word) : Prop :=
  (opcode w = some .imm ∧ funct3 w = 0b101#3 ∧ ¬ F7Ok (funct7 w)) ∨
    (opcode w = some .reg ∧ (funct3 w = 0b000#3 ∨ funct3 w = 0b101#3) ∧ ¬ F7Ok (funct7 w)) ∨
    (opcode w = some .system ∧ funct3 w = 0b000#3 ∧
      funct12 w ≠ Rtl.f12Ecall ∧ funct12 w ≠ Rtl.f12Ebreak)

instance (w : Word) : Decidable (ReservedFunct w) := inferInstanceAs (Decidable (_ ∨ _))

theorem decodeOp_none {f : F3Op} {f7 : BitVec 7} :
    decodeOp f f7 = none ↔ (f = .addSub ∨ f = .sr) ∧ ¬ F7Ok f7 := by
  unfold F7Ok
  by_cases h0 : f7 = 0#7
  · cases f <;> simp [decodeOp, h0]
  · by_cases h1 : f7 = Rtl.f7Alt
    · cases f <;> simp [decodeOp, h1, show Rtl.f7Alt ≠ 0#7 by decide]
    · cases f <;> simp [decodeOp, h0, h1]

theorem decodeOpImm_none {f : F3Op} {f7 : BitVec 7} :
    decodeOpImm f f7 = none ↔ f = .sr ∧ ¬ F7Ok f7 := by
  unfold decodeOpImm
  split
  case isTrue hf => simp [hf]
  case isFalse hf => simp [decodeOp_none, hf]

theorem f3Op_eq_addSub {f3 : BitVec 3} :
    (BitEnum.ofBits f3 : Option F3Op) = some .addSub ↔ f3 = 0b000#3 := BitEnum.ofBits_eq_some

theorem f3Op_eq_sr {f3 : BitVec 3} :
    (BitEnum.ofBits f3 : Option F3Op) = some .sr ↔ f3 = 0b101#3 := BitEnum.ofBits_eq_some

/-- The decoder accepts every word with a reserved function code. -/
theorem decoder_of_reserved (h : ReservedFunct w) :
    (decoder w).illegal = false ∧ decode w = none := by
  rcases h with ⟨ho, h3, h7⟩ | ⟨ho, h3, h7⟩ | ⟨ho, h3, hec, heb⟩
  · have hk := f3Op_eq_sr.mpr h3
    have hn : decodeOpImm .sr (funct7 w) = none := decodeOpImm_none.mpr ⟨rfl, h7⟩
    constructor
    · simp [decoder, ho, decodeImm, hk, nopCtrl]
    · simp [decode, ho, hk, hn]
  · have hk : BitEnum.ofBits (funct3 w) = some F3Op.addSub ∨
        BitEnum.ofBits (funct3 w) = some F3Op.sr := h3.imp f3Op_eq_addSub.mpr f3Op_eq_sr.mpr
    rcases hk with hk | hk
    · have hn : decodeOp .addSub (funct7 w) = none := decodeOp_none.mpr ⟨Or.inl rfl, h7⟩
      constructor
      · simp [decoder, ho, decodeReg, hk, nopCtrl]
      · simp [decode, ho, hk, hn]
    · have hn : decodeOp .sr (funct7 w) = none := decodeOp_none.mpr ⟨Or.inr rfl, h7⟩
      constructor
      · simp [decoder, ho, decodeReg, hk, nopCtrl]
      · simp [decode, ho, hk, hn]
  · constructor
    · simp [decoder, ho, h3, nopCtrl]
    · simp [decode, ho, decodeSystem, h3, hec, heb]

/-- Every other word that does not decode is illegal to the decoder too. -/
theorem decoder_illegal_of_not_reserved (hd : decode w = none) (hx : ¬ Excluded w)
    (hr : ¬ ReservedFunct w) : (decoder w).illegal = true := by
  cases ho : opcode w with
  | none => simp [decoder, ho]
  | some o =>
    cases o with
    | lui | auipc | jal | jalr | fence => simp [decode, ho] at hd
    | branch =>
      simp only [decode, ho, Option.map_eq_none_iff] at hd
      simp [decoder, ho, decodeBranch, hd]
    | load =>
      simp only [decode, ho, Option.map_eq_none_iff] at hd
      simp [decoder, ho, decodeLoad, hd]
    | store =>
      simp only [decode, ho, Option.map_eq_none_iff] at hd
      simp [decoder, ho, decodeStore, hd]
    | imm =>
      obtain ⟨f, hk⟩ := f3Op_ofBits (funct3 w)
      simp only [decode, ho, hk, Option.bind_some, Option.map_eq_none_iff] at hd
      obtain ⟨rfl, h7⟩ := decodeOpImm_none.mp hd
      exact (hr (Or.inl ⟨ho, f3Op_eq_sr.mp hk, h7⟩)).elim
    | reg =>
      obtain ⟨f, hk⟩ := f3Op_ofBits (funct3 w)
      simp only [decode, ho, hk, Option.bind_some, Option.map_eq_none_iff] at hd
      obtain ⟨hf, h7⟩ := decodeOp_none.mp hd
      have h3 : funct3 w = 0b000#3 ∨ funct3 w = 0b101#3 := by
        rcases hf with rfl | rfl
        · exact Or.inl (f3Op_eq_addSub.mp hk)
        · exact Or.inr (f3Op_eq_sr.mp hk)
      exact (hr (Or.inr (Or.inl ⟨ho, h3, h7⟩))).elim
    | system =>
      simp only [Excluded, ho, true_and, not_or, not_not] at hx
      refine (hr (Or.inr (Or.inr ⟨ho, hx.1, fun h => ?_, fun h => ?_⟩))).elim
      · simp [decode, ho, decodeSystem, hx.1, h] at hd
      · simp [decode, ho, decodeSystem, hx.1, h, show Rtl.f12Ebreak ≠ Rtl.f12Ecall by decide] at hd

theorem decoder_of_decode {i : Insn} (hd : decode w = some i) : (decoder w).illegal = false := by
  rw [decoder_eq (decodes_of_decode hd)]
  cases i <;> rfl

/-- The decoder and the emulator agree on whether a word is illegal exactly when it has no
reserved function code. -/
theorem legality_agrees_iff (w : Word) (s : RV32I) (hh : s.halted = false)
    (hf : fetch s.pc s = .ok (w.toNat : ℤ) s) (hx : ¬ Excluded w) :
    ((decoder w).illegal = true ↔ RaisesIllegal step s) ↔ ¬ ReservedFunct w := by
  rw [step_illegal_iff_decode hh hf hx]
  constructor
  · intro h hr
    obtain ⟨hl, hd⟩ := decoder_of_reserved hr
    rw [h.mpr hd] at hl
    cases hl
  · intro hr
    constructor
    · intro hi
      cases hd : decode w with
      | none => rfl
      | some i =>
        rw [decoder_of_decode hd] at hi
        cases hi
    · exact fun hd => decoder_illegal_of_not_reserved hd hx hr

/-- The emulator fresh from its constructor, with `mul x1, x2, x3` as its first word. -/
def mulCpu : RV32I :=
  { RV32I.init 4 0 0x80001000 false with mem := [0xB3#8, 0x00#8, 0x31#8, 0x02#8] }

theorem legality_agrees_iff_mulCpu :
    ((decoder 0x023100B3#32).illegal = true ↔ RaisesIllegal step mulCpu) ↔
      ¬ ReservedFunct 0x023100B3#32 :=
  legality_agrees_iff 0x023100B3#32 mulCpu rfl rfl (by decide)

/-- `MUL` is illegal to the emulator, and an addition to the decoder. -/
theorem mul_legality_differs :
    ∃ (w : Word) (s : RV32I), s.halted = false ∧ fetch s.pc s = .ok (w.toNat : ℤ) s ∧
      ¬ Excluded w ∧ ¬ ((decoder w).illegal = true ↔ RaisesIllegal step s) := by
  refine ⟨0x023100B3#32, mulCpu, rfl, rfl, by decide, ?_⟩
  rw [step_illegal_iff_decode (w := 0x023100B3#32) (s := mulCpu) rfl rfl (by decide)]
  decide

end Decoder
end RiscForge.Refmodel
