import RiscForge.Assembler.Overlap
import RiscForge.Assembler.Words

/-! The same source at another base: the layout, the offsets and the image move as one. -/
namespace RiscForge.Assembler

open Lib Rtl

section Moved
variable (δ : ℤ)

def Line.moved (ln : Line) : Line := { ln with pc := ln.pc + δ }

def Syms.moved (syms : Syms) : Syms := syms.map fun p => (p.1, p.2 + δ)

def Layout.moved (st : Layout) : Layout where
  syms := Syms.moved δ st.syms
  pc sec := st.pc sec + δ
  current := st.current

def Image.moved (image : Image) : Image := image.map fun p => (p.1 + δ, p.2)

variable {δ} {syms : Syms} {image : Image} {st : Layout}

theorem lookup_moved (label : String) :
    (Syms.moved δ syms).lookup label = (syms.lookup label).map (· + δ) := by
  induction syms with
  | nil => rfl
  | cons p syms ih =>
    rw [Syms.moved, List.map_cons, List.lookup_cons, List.lookup_cons]
    cases label == p.1 with
    | true => rfl
    | false => exact ih

theorem lookup_image_moved (a : ℤ) : (image.moved δ).lookup (a + δ) = image.lookup a := by
  induction image with
  | nil => rfl
  | cons p image ih =>
    rw [Image.moved, List.map_cons, List.lookup_cons, List.lookup_cons]
    have he : (a + δ == p.1 + δ) = (a == p.1) := by simp
    rw [he]
    cases a == p.1 with
    | true => rfl
    | false => exact ih

theorem write_moved (addr : ℤ) (bs : List (BitVec 8)) :
    (image.moved δ).write (addr + δ) bs = (image.write addr bs).moved δ := by
  induction bs generalizing image addr with
  | nil => rfl
  | cons b bs ih =>
    have hs : (image.moved δ).set (addr + δ) b.toNat = (image.set addr b.toNat).moved δ := rfl
    rw [Image.write, Image.write, hs, ← ih, add_right_comm]

/-- Moved by whole words, the image packs to the same words. -/
theorem packWords_moved (h : 4 ∣ δ) : packWords (image.moved δ) = packWords image := by
  cases image with
  | nil => rfl
  | cons p rest =>
    obtain ⟨a, b⟩ := p
    have hfold : ∀ (f : ℤ → ℤ → ℤ), (∀ x y, f (x + δ) (y + δ) = f x y + δ) →
        ∀ a : ℤ, ((Image.moved δ rest).map Prod.fst).foldl f (a + δ) =
          (rest.map Prod.fst).foldl f a + δ := by
      intro f hf
      induction rest with
      | nil => exact fun a => rfl
      | cons q rest ih =>
        intro a
        rw [Image.moved, List.map_cons, List.map_cons, List.foldl_cons, hf, List.map_cons,
          List.foldl_cons]
        exact ih _
    have hmin := hfold min (fun x y => (min_add_add_right x y δ)) a
    have hmax := hfold max (fun x y => (max_add_add_right x y δ)) a
    have hget : ∀ x y, y = x + δ → Image.get ((a + δ, b) :: Image.moved δ rest) y =
        Image.get ((a, b) :: rest) x := by
      rintro x _ rfl
      have hl : (Image.moved δ ((a, b) :: rest)).lookup (x + δ) = ((a, b) :: rest).lookup x :=
        lookup_image_moved x
      exact congrArg (Option.getD · 0) hl
    change packWords ((a + δ, b) :: Image.moved δ rest) = _
    simp only [packWords, hmin, hmax, and_not_three]
    generalize (rest.map Prod.fst).foldl min a = lo
    generalize (rest.map Prod.fst).foldl max a = hi
    have hlo : lo + δ - (lo + δ) % 4 = lo - lo % 4 + δ := by omega
    have hcount : hi + δ + 1 + 3 - (hi + δ + 1 + 3) % 4 - (lo + δ - (lo + δ) % 4) + 3 =
        hi + 1 + 3 - (hi + 1 + 3) % 4 - (lo - lo % 4) + 3 := by omega
    rw [hcount]
    refine List.map_congr_left fun k _ => ?_
    rw [hlo, hget (lo - lo % 4 + 4 * k) _ (by ring), hget (lo - lo % 4 + 4 * k + 1) _ (by ring),
      hget (lo - lo % 4 + 4 * k + 2) _ (by ring), hget (lo - lo % 4 + 4 * k + 3) _ (by ring)]

end Moved

section Layout
variable {py : Python} {δ : ℤ} {st st' : Layout} {ln ln' : Line} {lines lines' : List Line}

theorem place_moved {size : ℤ} (h : st.place ln size = (ln', st')) :
    (st.moved δ).place ln size = (ln'.moved δ, st'.moved δ) := by
  cases h
  refine Prod.ext rfl ?_
  simp only [Layout.place, Layout.moved, Layout.mk.injEq, true_and, and_true]
  funext sec
  by_cases hs : sec = st.current
  · subst hs
    rw [Function.update_self, Function.update_self, add_right_comm]
  · rw [Function.update_of_ne hs, Function.update_of_ne hs]

theorem define_moved (h : st.define py ln = .ok st') :
    (st.moved δ).define py ln = .ok (st'.moved δ) := by
  unfold Layout.define at h ⊢
  cases hl : ln.label with
  | none =>
    rw [hl] at h
    cases h
    rfl
  | some label =>
    rw [hl] at h
    have hs : ((st.moved δ).syms.lookup label).isSome = (st.syms.lookup label).isSome := by
      rw [Layout.moved, lookup_moved, Option.isSome_map]
    simp only [hs]
    by_cases hd : (st.syms.lookup label).isSome = true
    · simp only [if_pos hd] at h
      exact (fail_ne_ok h).elim
    · simp only [if_neg hd] at h ⊢
      cases h
      rfl

/-- An alignment that divides the distance leaves the same padding. -/
theorem padTo_moved (v : ℤ) {n : ℕ} (h : (2 : ℤ) ^ n ∣ δ) :
    padTo (v + δ) n - (v + δ) = padTo v n - v := by
  have hp : padBelow (v + δ) n = padBelow v n := padBelow_congr (by simpa using h)
  rw [padTo_eq, padTo_eq, hp]
  ring

theorem pass1Line_moved (hδ : 4096 ∣ δ) (h : pass1Line py st ln = .ok (ln', st')) :
    pass1Line py (st.moved δ) ln = .ok (ln'.moved δ, st'.moved δ) := by
  unfold pass1Line at h ⊢
  obtain ⟨st₁, hd, h⟩ := bind_eq_ok.mp h
  rw [bind_eq_ok]
  refine ⟨_, define_moved hd, ?_⟩
  split at h
  next hop => exact congrArg Except.ok (place_moved (Except.ok.inj h))
  next hop =>
    cases h
    rfl
  next hop =>
    cases h
    rfl
  next hop =>
    split at h
    · exact (fail_ne_ok h).elim
    next hlen =>
      rw [if_neg hlen]
      obtain ⟨n, hn, h⟩ := bind_eq_ok.mp h
      rw [bind_eq_ok]
      refine ⟨n, hn, ?_⟩
      split at h
      next hr =>
        have hdvd : (2 : ℤ) ^ n.toNat ∣ δ := by
          have h12 : (2 : ℤ) ^ n.toNat ∣ 2 ^ 12 := pow_dvd_pow 2 (by omega)
          exact h12.trans (by simpa using hδ)
        rw [if_pos hr]
        have hp := place_moved (δ := δ) (Except.ok.inj h)
        rw [← padTo_moved _ hdvd] at hp
        exact congrArg Except.ok hp
      next =>
        obtain ⟨shown, -, h⟩ := bind_eq_ok.mp h
        exact (fail_ne_ok h).elim
  next hop =>
    split at h
    · exact (fail_ne_ok h).elim
    next ha =>
      rw [if_neg ha]
      exact congrArg Except.ok (place_moved (Except.ok.inj h))
  next hop =>
    split at h
    · exact (fail_ne_ok h).elim
    next ha =>
      rw [if_neg ha]
      exact congrArg Except.ok (place_moved (Except.ok.inj h))
  next op hop h1 h2 h3 h4 h5 => exact congrArg Except.ok (place_moved (Except.ok.inj h))

theorem pass1From_moved (hδ : 4096 ∣ δ) (h : pass1From py st lines = .ok (lines', st')) :
    pass1From py (st.moved δ) lines = .ok (lines'.map (Line.moved δ), st'.moved δ) := by
  induction lines generalizing st lines' with
  | nil =>
    cases h
    rfl
  | cons ln lines ih =>
    obtain ⟨⟨ln₁, st₁⟩, hl, h⟩ := bind_eq_ok.mp h
    obtain ⟨⟨lines₁, st₂⟩, hr, h⟩ := bind_eq_ok.mp h
    cases h
    exact bind_eq_ok.mpr ⟨_, pass1Line_moved hδ hl, bind_eq_ok.mpr ⟨_, ih hr, rfl⟩⟩

/-- The default data base moves with the text base. -/
theorem layOut_moved {source : String} {textBase : ℤ} (hδ : 4096 ∣ δ)
    (h : layOut py source textBase none = .ok (lines', st')) :
    layOut py source (textBase + δ) none = .ok (lines'.map (Line.moved δ), st'.moved δ) := by
  obtain ⟨sizes, hs, hp⟩ := layOut_eq_ok.mp h
  refine layOut_eq_ok.mpr ⟨sizes, hs, ?_⟩
  have hm := pass1From_moved hδ hp
  have hi : (Layout.init textBase (sizes.dataBase textBase)).moved δ =
      Layout.init (textBase + δ) (sizes.dataBase (textBase + δ)) := by
    simp only [Layout.moved, Layout.init, Layout.mk.injEq, and_true]
    refine ⟨rfl, ?_⟩
    funext sec
    cases sec with
    | text => rfl
    | data => simp only [Sizes.dataBase, add_right_comm]
  simp only [Option.getD_none] at hm ⊢
  rw [hi] at hm
  exact hm

end Layout

section Labels
variable (py : Python) (ln : Line) (tok : String)

/-- The token names a label that one of the lines defines. -/
def IsLabel (lines : List Line) (tok : String) : Prop := ∃ ln ∈ lines, ln.label = some (strip tok)

instance (lines : List Line) : Decidable (IsLabel lines tok) := by
  unfold IsLabel
  infer_instance

/-- `_resolve` looks the token up in the symbol table, where it may be undefined. -/
def isSymbol : Bool :=
  (strip tok).toList.head?.any fun c => isAlpha py c || c == '_' || c == '.'

/-- The operand that is the target of a transfer, or the address that LA loads. -/
def Line.target : Option String :=
  match ln.op with
  | some "beq" | some "bne" | some "blt" | some "bge" | some "bltu" | some "bgeu" => ln.args[2]?
  | some "beqz" | some "bnez" | some "la" => ln.args[1]?
  | some "jal" =>
    match ln.args with
    | [target] | [_, target] => some target
    | _ => none
  | some "j" | some "call" => ln.args[0]?
  | _ => none

/-- The operands of JALR that are evaluated: with a register for the second operand it is the third,
as in `jalr rd, rs1, imm`, and the second too if the third has no value. In `jalr rd, imm(rs1)` it
is the second, while the third is a register. -/
def Line.jalrImmediates : List String :=
  match ln.args with
  | [_, second, third] =>
    match ln.reg py 1, ln.value py [] 2 with
    | .error _, _ => [second]
    | .ok _, .ok _ => [third]
    | .ok _, .error _ => [second, third]
  | _ => []

/-- The other operands that are evaluated as a literal or a label. -/
def Line.immediates : List String :=
  match ln.op with
  | some ".word" | some ".byte" => ln.args
  | some "addi" | some "slti" | some "sltiu" | some "xori" | some "ori" | some "andi"
  | some "slli" | some "srli" | some "srai" => ln.args[2]?.toList
  | some "lb" | some "lh" | some "lw" | some "lbu" | some "lhu" | some "sb" | some "sh" | some "sw"
  | some "lui" | some "auipc" | some "li" => ln.args[1]?.toList
  | some "jalr" => ln.jalrImmediates py
  | _ => []

/-- Labels are the targets of transfers, and nothing but labels is. -/
structure PcRelative (lines : List Line) : Prop where
  targets : ∀ ln ∈ lines, ∀ tok ∈ ln.target, isSymbol py tok = true
  immediates : ∀ ln ∈ lines, ∀ tok ∈ ln.immediates py, ¬ IsLabel lines tok

variable {py} {ln} {tok}

theorem matchLabel_start {cs name rest : List Char} (h : matchLabel cs = some (name, rest)) :
    ∃ c tail, name = c :: tail ∧ isLabelStart c = true := by
  cases cs with
  | nil => simp [matchLabel] at h
  | cons c cs =>
    simp only [matchLabel] at h
    split at h
    next hc =>
      split at h
      · cases h
        exact ⟨c, _, rfl, hc⟩
      · cases h
    next => cases h

theorem isAlpha_of_isLabelStart {c : Char} (h : isLabelStart c = true) :
    (isAlpha py c || c == '_' || c == '.') = true := by
  unfold isLabelStart at h
  unfold isAlpha
  split
  next => simp_all
  next =>
    rcases show c = '_' ∨ c = '.' by simp_all with rfl | rfl <;> simp

theorem label_start {source : String} {label : String} (hl : ln ∈ tokenize py source)
    (h : ln.label = some label) : ∃ c tail, label.toList = c :: tail ∧ isLabelStart c = true := by
  obtain ⟨⟨raw, lineno⟩, -, ht⟩ := List.mem_filterMap.mp hl
  simp only [tokenizeLine] at ht
  split at ht
  · cases ht
  cases hm : matchLabel (stripChars (dropComment raw.toList)) with
  | none =>
    simp only [hm] at ht
    split at ht <;> cases ht <;> cases h
  | some p =>
    obtain ⟨c, tail, hp, hc⟩ := matchLabel_start (hm.trans rfl)
    simp only [hm] at ht
    split at ht <;> cases ht <;> cases h <;>
      exact ⟨c, tail, by rw [String.toList_ofList, hp], hc⟩

/-- A label of the source is looked up. -/
theorem isSymbol_of_isLabel {source : String} (h : IsLabel (tokenize py source) tok) :
    isSymbol py tok = true := by
  obtain ⟨ln, hl, hlab⟩ := h
  obtain ⟨c, tail, ht, hc⟩ := label_start hl hlab
  simp only [isSymbol, ht, List.head?_cons, Option.any_some]
  exact isAlpha_of_isLabelStart hc

end Labels

section Operands
variable {py : Python} {syms : Syms} {ln : Line} {tok : String} {n k : ℕ} {src : String} {v δ : ℤ}

theorem resolve_symbol (h : isSymbol py tok = true) :
    resolve py syms tok n src = .ok v ↔ syms.lookup (strip tok) = some v := by
  obtain ⟨c, cs, ht, hc⟩ : ∃ c cs, (strip tok).toList = c :: cs ∧
      (isAlpha py c || c == '_' || c == '.') = true := by
    unfold isSymbol at h
    cases ht : (strip tok).toList with
    | nil => simp [ht] at h
    | cons c cs => exact ⟨c, cs, rfl, by simpa [ht] using h⟩
  simp only [resolve, ht, hc, if_true]
  cases syms.lookup (strip tok) with
  | none => simp [asmError]
  | some u => simp

/-- What is no label is evaluated without the symbol table. -/
theorem resolve_of_not_label {syms' : Syms} (h : syms.lookup (strip tok) = none)
    (h' : syms'.lookup (strip tok) = none) :
    resolve py syms tok n src = resolve py syms' tok n src := by
  simp only [resolve, h, h']

theorem value_cases (py : Python) (ln : Line) (k : ℕ) :
    (ln.args[k]? = none ∧ ∀ s : Syms, ln.value py s k = ln.value py [] k) ∨
      ∃ tok, ln.args[k]? = some tok ∧
        ∀ s : Syms, ln.value py s k = resolve py s tok ln.lineno ln.raw := by
  unfold Line.value
  simp only [List.getD_eq_getElem?_getD]
  cases ln.args[k]? with
  | none => exact .inl ⟨rfl, fun s => rfl⟩
  | some tok => exact .inr ⟨tok, rfl, fun s => rfl⟩

theorem value_ne_ok (h : ln.args[k]? = none) : ln.value py syms k ≠ .ok v := by
  unfold Line.value
  rw [List.getD_eq_getElem?_getD, h]
  exact asmError_ne_ok

/-- A target moves with the program. -/
theorem value_target (h : ∀ tok, ln.args[k]? = some tok → isSymbol py tok = true)
    (hv : ln.value py syms k = .ok v) :
    (ln.moved δ).value py (Syms.moved δ syms) k = .ok (v + δ) := by
  change ln.value py (Syms.moved δ syms) k = _
  rcases value_cases py ln k with ⟨hk, -⟩ | ⟨tok, hk, hr⟩
  · exact (value_ne_ok hk hv).elim
  · rw [hr, resolve_symbol (h tok hk)] at hv ⊢
    rw [lookup_moved, hv]
    rfl

/-- An immediate stays. -/
theorem value_immediate {syms' : Syms}
    (h : ∀ tok, ln.args[k]? = some tok → syms.lookup (strip tok) = none)
    (h' : ∀ tok, ln.args[k]? = some tok → syms'.lookup (strip tok) = none) :
    ln.value py syms k = ln.value py syms' k := by
  rcases value_cases py ln k with ⟨-, hr⟩ | ⟨tok, hk, hr⟩
  · rw [hr, hr syms']
  · rw [hr, hr, resolve_of_not_label (h tok hk) (h' tok hk)]

end Operands

section Encoding
variable {py : Python} {syms : Syms} {ln : Line} {op : String} {out : List ℤ} {δ v target : ℤ}
  {k n : ℕ}

/-- The line refers to labels as targets only. -/
structure Line.Movable (py : Python) (syms : Syms) (ln : Line) : Prop where
  target : ∀ tok ∈ ln.target, isSymbol py tok = true
  immediate : ∀ tok ∈ ln.immediates py, syms.lookup (strip tok) = none

theorem Line.Movable.target_value (hm : ln.Movable py syms) (ht : ln.target = ln.args[k]?)
    (hv : ln.value py syms k = .ok v) :
    (ln.moved δ).value py (Syms.moved δ syms) k = .ok (v + δ) :=
  value_target (fun tok hk => hm.target tok (ht.trans hk)) hv

theorem Line.Movable.immediate_value (hm : ln.Movable py syms)
    (hi : ln.args[k]?.toList ⊆ ln.immediates py) :
    (ln.moved δ).value py (Syms.moved δ syms) k = ln.value py syms k := by
  have hnone : ∀ tok, ln.args[k]? = some tok → syms.lookup (strip tok) = none := by
    intro tok hk
    exact hm.immediate tok (hi (by simp [hk]))
  have hmoved : ∀ tok, ln.args[k]? = some tok →
      (Syms.moved δ syms).lookup (strip tok) = none := by
    intro tok hk
    rw [lookup_moved, hnone tok hk]
    rfl
  exact value_immediate hmoved hnone

theorem offset_moved (ln : Line) (target : ℤ) :
    target + δ - (ln.moved δ).pc = target - ln.pc := add_sub_add_right_eq_sub ..

theorem reaches_moved {even : Option String} (h : Reaches ln target n even) :
    Reaches (ln.moved δ) (target + δ) n even ∧
      target + δ - (ln.moved δ).pc = target - ln.pc := by
  have ho : target + δ - (ln.moved δ).pc = target - ln.pc := offset_moved ln target
  exact ⟨⟨ho ▸ h.parity, ho ▸ h.lower, ho ▸ h.upper⟩, ho⟩

theorem encodeJal_moved (hm : ln.Movable py syms) (hop : ln.op = some "jal")
    (h : encodeJal py syms ln = .ok out) :
    encodeJal py (Syms.moved δ syms) (ln.moved δ) = .ok out := by
  obtain ⟨rd, target, hops, hr, rfl⟩ := encodeJal_eq_ok.mp h
  obtain ⟨hr', ho⟩ := reaches_moved (δ := δ) hr
  refine encodeJal_eq_ok.mpr ⟨rd, target + δ, jalOperands_eq_ok.mpr ?_, hr', by rw [ho]⟩
  rcases jalOperands_eq_ok.mp hops with ⟨hl, hrd, hv⟩ | ⟨hl, hrd, hv⟩
  · obtain ⟨target, ha⟩ := List.length_eq_one_iff.mp hl
    exact .inl ⟨hl, hrd, hm.target_value (by simp [Line.target, hop, ha]) hv⟩
  · obtain ⟨reg, target, ha⟩ := List.length_eq_two.mp hl
    exact .inr ⟨hl, hrd, hm.target_value (by simp [Line.target, hop, ha]) hv⟩

/-- The second and third operand of JALR are read as they were. -/
theorem jalrOperands_moved (hm : ln.Movable py syms) (hop : ln.op = some "jalr")
    (hl : ln.args.length = 3) :
    orElse ((ln.moved δ).rs1Imm py (Syms.moved δ syms))
      ((ln.moved δ).immRs1 py (Syms.moved δ syms)) =
        orElse (ln.rs1Imm py syms) (ln.immRs1 py syms) := by
  obtain ⟨rd, second, third, ha⟩ := List.length_eq_three.mp hl
  have hi : ln.immediates py = ln.jalrImmediates py := by simp only [Line.immediates, hop]
  have h1 : second ∈ ln.jalrImmediates py → (ln.moved δ).immRs1 py (Syms.moved δ syms) =
      ln.immRs1 py syms := by
    intro hs
    have hv : (ln.moved δ).value py (Syms.moved δ syms) 1 = ln.value py syms 1 :=
      hm.immediate_value (by simpa [ha, hi] using hs)
    have hreg : (ln.moved δ).reg py 2 = ln.reg py 2 := rfl
    rw [Line.immRs1, Line.immRs1, hv, hreg]
  have h2 : third ∈ ln.jalrImmediates py → (ln.moved δ).rs1Imm py (Syms.moved δ syms) =
      ln.rs1Imm py syms := by
    intro hs
    have hv : (ln.moved δ).value py (Syms.moved δ syms) 2 = ln.value py syms 2 :=
      hm.immediate_value (by simpa [ha, hi] using hs)
    have hreg : (ln.moved δ).reg py 1 = ln.reg py 1 := rfl
    rw [Line.rs1Imm, Line.rs1Imm, hv, hreg]
  cases hr : ln.reg py 1 with
  | error e =>
    -- the third operand is not looked up
    have hfail : ∀ s : Syms, ln.rs1Imm py s = .error e := fun s => by
      rw [Line.rs1Imm, hr]
      rfl
    rw [h1 (by simp [Line.jalrImmediates, ha, hr])]
    change orElse (ln.rs1Imm py (Syms.moved δ syms)) _ = _
    rw [hfail, hfail]
  | ok rs1 =>
    cases hv : ln.value py [] 2 with
    | error e => rw [h1 (by simp [Line.jalrImmediates, ha, hr, hv]),
        h2 (by simp [Line.jalrImmediates, ha, hr, hv])]
    | ok imm =>
      -- the second operand is not looked up
      have hthird : third ∈ ln.jalrImmediates py := by simp [Line.jalrImmediates, ha, hr, hv]
      have hnone : ∀ tok, ln.args[2]? = some tok → syms.lookup (strip tok) = none := by
        intro tok hk
        obtain rfl : third = tok := by simpa [ha] using hk
        exact hm.immediate third (hi ▸ hthird)
      have hp : ln.rs1Imm py syms = .ok (rs1, imm) :=
        rs1Imm_eq_ok.mpr ⟨hr, (value_immediate hnone fun _ _ => rfl).trans hv⟩
      have hok : ∀ x : Asm (ℤ × ℤ), orElse (.ok (rs1, imm)) x = .ok (rs1, imm) := fun _ => rfl
      rw [h2 hthird, hp, hok, hok]

theorem encodeJalr_moved (hm : ln.Movable py syms) (hop : ln.op = some "jalr")
    (h : encodeJalr py syms ln = .ok out) :
    encodeJalr py (Syms.moved δ syms) (ln.moved δ) = .ok out := by
  obtain ⟨rd, rs1, imm, hops, hr, rfl⟩ := encodeJalr_eq_ok.mp h
  refine encodeJalr_eq_ok.mpr ⟨rd, rs1, imm, jalrOperands_eq_ok.mpr ?_, hr, rfl⟩
  rcases jalrOperands_eq_ok.mp hops with hone | ⟨hl, hrd, hx⟩
  · exact .inl hone
  · exact .inr ⟨hl, hrd, (jalrOperands_moved hm hop hl).trans hx⟩

section Immediates

/-! The encoders with an immediate: it is no label. -/

theorem encodeIAlu_moved {f3 : F3Op} (hm : ln.Movable py syms)
    (hi : ln.args[2]?.toList ⊆ ln.immediates py) (h : encodeIAlu py syms ln op f3 = .ok out) :
    encodeIAlu py (Syms.moved δ syms) (ln.moved δ) op f3 = .ok out := by
  obtain ⟨hl, rd, hrd, rs1, hrs1, v, hv, hr, rfl⟩ := encodeIAlu_eq_ok.mp h
  exact encodeIAlu_eq_ok.mpr ⟨hl, rd, hrd, rs1, hrs1, v, (hm.immediate_value hi).trans hv, hr, rfl⟩

theorem encodeShift_moved (hm : ln.Movable py syms)
    (hi : ln.args[2]?.toList ⊆ ln.immediates py) (h : encodeShift py syms ln op = .ok out) :
    encodeShift py (Syms.moved δ syms) (ln.moved δ) op = .ok out := by
  obtain ⟨hl, rd, hrd, rs1, hrs1, v, hv, hr, rfl⟩ := encodeShift_eq_ok.mp h
  exact encodeShift_eq_ok.mpr ⟨hl, rd, hrd, rs1, hrs1, v, (hm.immediate_value hi).trans hv, hr, rfl⟩

theorem encodeLoad_moved {f3 : F3Load} (hm : ln.Movable py syms)
    (hi : ln.args[1]?.toList ⊆ ln.immediates py) (h : encodeLoad py syms ln op f3 = .ok out) :
    encodeLoad py (Syms.moved δ syms) (ln.moved δ) op f3 = .ok out := by
  obtain ⟨hl, rd, hrd, v, hv, rs1, hrs1, hr, rfl⟩ := encodeLoad_eq_ok.mp h
  exact encodeLoad_eq_ok.mpr ⟨hl, rd, hrd, v, (hm.immediate_value hi).trans hv, rs1, hrs1, hr, rfl⟩

theorem encodeStore_moved {f3 : F3Store} (hm : ln.Movable py syms)
    (hi : ln.args[1]?.toList ⊆ ln.immediates py) (h : encodeStore py syms ln op f3 = .ok out) :
    encodeStore py (Syms.moved δ syms) (ln.moved δ) op f3 = .ok out := by
  obtain ⟨hl, rs2, hrs2, v, hv, rs1, hrs1, hr, rfl⟩ := encodeStore_eq_ok.mp h
  exact encodeStore_eq_ok.mpr
    ⟨hl, rs2, hrs2, v, (hm.immediate_value hi).trans hv, rs1, hrs1, hr, rfl⟩

theorem encodeUpper_moved (hm : ln.Movable py syms)
    (hi : ln.args[1]?.toList ⊆ ln.immediates py) (h : encodeUpper py syms ln op = .ok out) :
    encodeUpper py (Syms.moved δ syms) (ln.moved δ) op = .ok out := by
  obtain ⟨hl, rd, hrd, v, hv, hr, rfl⟩ := encodeUpper_eq_ok.mp h
  exact encodeUpper_eq_ok.mpr ⟨hl, rd, hrd, v, (hm.immediate_value hi).trans hv, hr, rfl⟩

theorem encodeLi_moved (hm : ln.Movable py syms)
    (hi : ln.args[1]?.toList ⊆ ln.immediates py) (h : encodeLi py syms ln op = .ok out) :
    encodeLi py (Syms.moved δ syms) (ln.moved δ) op = .ok out := by
  obtain ⟨hl, rd, hrd, v, hv, rfl⟩ := encodeLi_eq_ok.mp h
  exact encodeLi_eq_ok.mpr ⟨hl, rd, hrd, v, (hm.immediate_value hi).trans hv, rfl⟩

end Immediates

section Targets

/-! The encoders with a target: it moves with the line, and the offset stays. -/

theorem encodeBranch_moved {f3 : F3Branch} (hm : ln.Movable py syms)
    (ht : ln.target = ln.args[2]?) (h : encodeBranch py syms ln op f3 = .ok out) :
    encodeBranch py (Syms.moved δ syms) (ln.moved δ) op f3 = .ok out := by
  obtain ⟨hl, rs1, hrs1, rs2, hrs2, target, hv, hr, rfl⟩ := encodeBranch_eq_ok.mp h
  obtain ⟨hr', hd⟩ := reaches_moved (δ := δ) hr
  exact encodeBranch_eq_ok.mpr
    ⟨hl, rs1, hrs1, rs2, hrs2, target + δ, hm.target_value ht hv, hr', by rw [hd]⟩

theorem encodeBranchZero_moved {f3 : F3Branch} (hm : ln.Movable py syms)
    (ht : ln.target = ln.args[1]?) (h : encodeBranchZero py syms ln op f3 = .ok out) :
    encodeBranchZero py (Syms.moved δ syms) (ln.moved δ) op f3 = .ok out := by
  obtain ⟨hl, rs1, hrs1, target, hv, hr, rfl⟩ := encodeBranchZero_eq_ok.mp h
  obtain ⟨hr', hd⟩ := reaches_moved (δ := δ) hr
  exact encodeBranchZero_eq_ok.mpr
    ⟨hl, rs1, hrs1, target + δ, hm.target_value ht hv, hr', by rw [hd]⟩

theorem encodeJ_moved (hm : ln.Movable py syms) (ht : ln.target = ln.args[0]?)
    (h : encodeJ py syms ln op = .ok out) :
    encodeJ py (Syms.moved δ syms) (ln.moved δ) op = .ok out := by
  obtain ⟨hl, target, hv, hr, rfl⟩ := encodeJ_eq_ok.mp h
  obtain ⟨hr', hd⟩ := reaches_moved (δ := δ) hr
  exact encodeJ_eq_ok.mpr ⟨hl, target + δ, hm.target_value ht hv, hr', by rw [hd]⟩

theorem encodeLa_moved (hm : ln.Movable py syms) (ht : ln.target = ln.args[1]?)
    (h : encodeLa py syms ln op = .ok out) :
    encodeLa py (Syms.moved δ syms) (ln.moved δ) op = .ok out := by
  obtain ⟨hl, rd, hrd, target, hv, rfl⟩ := encodeLa_eq_ok.mp h
  exact encodeLa_eq_ok.mpr
    ⟨hl, rd, hrd, target + δ, hm.target_value ht hv, by rw [offset_moved]⟩

theorem encodeCall_moved (hm : ln.Movable py syms) (ht : ln.target = ln.args[0]?)
    (h : encodeCall py syms ln op = .ok out) :
    encodeCall py (Syms.moved δ syms) (ln.moved δ) op = .ok out := by
  obtain ⟨hl, target, hv, rfl⟩ := encodeCall_eq_ok.mp h
  exact encodeCall_eq_ok.mpr ⟨hl, target + δ, hm.target_value ht hv, by rw [offset_moved]⟩

end Targets

/-- Every encoder gives the words it gave. -/
theorem accepted_moved (hm : ln.Movable py syms) (hop : ln.op = some op)
    (h : Accepted py syms ln out op) :
    Accepted py (Syms.moved δ syms) (ln.moved δ) out op := by
  cases h with
  | reg ho h => exact .reg ho (encodeR_eq_ok.mpr (encodeR_eq_ok.mp h))
  | imm ho h =>
    refine .imm ho (encodeIAlu_moved hm ?_ h)
    unfold iAluTable at ho
    split at ho <;> cases ho <;> simp [Line.immediates, hop]
  | load ho h =>
    refine .load ho (encodeLoad_moved hm ?_ h)
    unfold loadTable at ho
    split at ho <;> cases ho <;> simp [Line.immediates, hop]
  | store ho h =>
    refine .store ho (encodeStore_moved hm ?_ h)
    unfold storeTable at ho
    split at ho <;> cases ho <;> simp [Line.immediates, hop]
  | branch ho h =>
    refine .branch ho (encodeBranch_moved hm ?_ h)
    unfold branchTable at ho
    split at ho <;> cases ho <;> simp [Line.target, hop]
  | shift ho h =>
    refine .shift ho (encodeShift_moved hm ?_ h)
    rcases ho with rfl | rfl | rfl <;> simp [Line.immediates, hop]
  | jal h => exact .jal (encodeJal_moved hm hop h)
  | jalr h => exact .jalr (encodeJalr_moved hm hop h)
  | upper ho h =>
    refine .upper ho (encodeUpper_moved hm ?_ h)
    rcases ho with rfl | rfl <;> simp [Line.immediates, hop]
  | fence h => exact .fence h
  | fenceI h => exact .fenceI h
  | ecall h => exact .ecall h
  | ebreak h => exact .ebreak h
  | nop h => exact .nop h
  | mv h => exact .mv (encodeMove_eq_ok.mpr (encodeMove_eq_ok.mp h))
  | not h => exact .not (encodeMove_eq_ok.mpr (encodeMove_eq_ok.mp h))
  | neg h => exact .neg (encodeNeg_eq_ok.mpr (encodeNeg_eq_ok.mp h))
  | j h => exact .j (encodeJ_moved hm (by simp [Line.target, hop]) h)
  | jr h => exact .jr (encodeJr_eq_ok.mpr (encodeJr_eq_ok.mp h))
  | ret h => exact .ret h
  | beqz h => exact .beqz (encodeBranchZero_moved hm (by simp [Line.target, hop]) h)
  | bnez h => exact .bnez (encodeBranchZero_moved hm (by simp [Line.target, hop]) h)
  | li h => exact .li (encodeLi_moved hm (by simp [Line.immediates, hop]) h)
  | la h => exact .la (encodeLa_moved hm (by simp [Line.target, hop]) h)
  | call h => exact .call (encodeCall_moved hm (by simp [Line.target, hop]) h)

theorem mapM_congr_mem {α β : Type} {f g : α → Asm β} {as : List α} (h : ∀ a ∈ as, f a = g a) :
    as.mapM f = as.mapM g := by
  induction as with
  | nil => rfl
  | cons a as ih =>
    rw [List.mapM_cons, List.mapM_cons, h a List.mem_cons_self,
      ih fun b hb => h b (List.mem_cons_of_mem a hb)]

theorem encodeData_moved {mask : ℤ} (h : ∀ tok ∈ ln.args, syms.lookup (strip tok) = none) :
    encodeData py (Syms.moved δ syms) (ln.moved δ) mask = encodeData py syms ln mask := by
  have hr : ∀ tok ∈ ln.args, resolve py (Syms.moved δ syms) tok ln.lineno ln.raw =
      resolve py syms tok ln.lineno ln.raw := by
    intro tok ht
    refine resolve_of_not_label ?_ (h tok ht)
    rw [lookup_moved, h tok ht]
    rfl
  exact mapM_congr_mem fun tok ht => congrArg (· >>= fun v => pure (v &&& mask)) (hr tok ht)

theorem encodeLine_moved (hm : ln.Movable py syms) (h : encodeLine py syms ln = .ok out) :
    encodeLine py (Syms.moved δ syms) (ln.moved δ) = .ok out := by
  have hop : (ln.moved δ).op = ln.op := rfl
  unfold encodeLine at h ⊢
  rw [hop]
  split at h
  next => exact h
  next => exact h
  next => exact h
  next => exact h
  next hop =>
    rw [encodeData_moved fun tok ht => hm.immediate tok (by simpa [Line.immediates, hop] using ht)]
    exact h
  next hop =>
    rw [encodeData_moved fun tok ht => hm.immediate tok (by simpa [Line.immediates, hop] using ht)]
    exact h
  next op _ _ _ _ _ hop =>
    exact (accepted_moved hm hop (encodeInstruction_accepted h)).encodes

end Encoding

section Runs
variable {py : Python} {syms : Syms} {st st' : Layout} {ln ln' : Line} {lines lines' : List Line}
  {image image' : Image} {δ : ℤ}

theorem emitLine_moved (hm : ln.Movable py syms) (h : emitLine py syms image ln = .ok image') :
    emitLine py (Syms.moved δ syms) (image.moved δ) (ln.moved δ) = .ok (image'.moved δ) := by
  rw [emitLine_eq] at h ⊢
  cases hb : ln.bytes py syms with
  | error e =>
    rw [hb] at h
    cases h
  | ok bs =>
    rw [hb] at h
    cases h
    obtain ⟨out, he, rfl⟩ := bytes_eq_ok.mp hb
    rw [bytes_eq_ok.mpr ⟨out, encodeLine_moved hm he, rfl⟩]
    exact congrArg Except.ok (write_moved ln.pc _)

theorem emit_moved (hm : ∀ ln ∈ lines, ln.Movable py syms)
    (h : lines.foldlM (emitLine py syms) image = .ok image') :
    (lines.map (Line.moved δ)).foldlM (emitLine py (Syms.moved δ syms)) (image.moved δ) =
      .ok (image'.moved δ) := by
  induction lines generalizing image with
  | nil =>
    cases h
    rfl
  | cons ln lines ih =>
    rw [List.foldlM_cons] at h
    obtain ⟨image₁, hl, h⟩ := bind_eq_ok.mp h
    rw [List.map_cons, List.foldlM_cons]
    exact bind_eq_ok.mpr ⟨_, emitLine_moved (hm ln List.mem_cons_self) hl,
      ih (fun m hi => hm m (List.mem_cons_of_mem ln hi)) h⟩

/-- The symbol table holds nothing but labels of the lines. -/
theorem Pass1.lookup_none (h : Pass1 py st lines lines' st') {label : String}
    (hn : ∀ ln ∈ lines, ln.label ≠ some label) (hs : st.syms.lookup label = none) :
    st'.syms.lookup label = none := by
  induction h with
  | nil => exact hs
  | @cons st st₁ st' ln ln' lines lines' head tail ih =>
    refine ih (fun m hm => hn m (List.mem_cons_of_mem ln hm)) ?_
    rw [head.syms]
    cases hl : ln.label with
    | none => exact hs
    | some l =>
      have hne : label ≠ l := by
        rintro rfl
        exact hn ln List.mem_cons_self hl
      rw [List.lookup_cons, beq_eq_false_iff_ne.mpr hne]
      exact hs

theorem movable_placed (hm : ln.Movable py syms) (sec : Section) (pc size : ℤ) :
    ({ ln with sec := sec, pc := pc, size := size } : Line).Movable py syms := by
  refine ⟨fun tok ht => hm.target tok ?_, fun tok ht => hm.immediate tok ?_⟩
  · simp only [Line.target] at ht ⊢
    exact ht
  · simp only [Line.immediates, Line.jalrImmediates, Line.reg, Line.value] at ht ⊢
    exact ht

/-- Placing a line does not change what it says. -/
theorem Pass1.movable (h : Pass1 py st lines lines' st')
    (hm : ∀ ln ∈ lines, ln.Movable py syms) : ∀ ln' ∈ lines', ln'.Movable py syms := by
  induction h with
  | nil => simp
  | @cons st st₁ st' ln ln' lines lines' head tail ih =>
    intro m hmem
    rcases List.mem_cons.mp hmem with rfl | hmem
    · rw [head.line]
      exact movable_placed (hm ln List.mem_cons_self) _ _ _
    · exact ih (fun m hi => hm m (List.mem_cons_of_mem ln hi)) m hmem

variable {source : String} {words : List ℤ} {textBase : ℤ}

theorem assemble_moved (h : PcRelative py (tokenize py source)) (hδ : 4096 ∣ δ)
    (ha : assemble py source textBase none = .ok words) :
    assemble py source (textBase + δ) none = .ok words := by
  obtain ⟨lines, st, hlay, image, he, rfl⟩ := assemble_eq_ok.mp ha
  obtain ⟨sizes, -, hp⟩ := layOut_eq_ok.mp hlay
  have hrun := pass1From_ok hp
  have hm : ∀ ln ∈ tokenize py source, ln.Movable py st.syms := by
    intro ln hln
    refine ⟨h.targets ln hln, fun tok htok => ?_⟩
    refine hrun.lookup_none (fun m hmem hlabel => ?_) rfl
    exact h.immediates ln hln tok htok ⟨m, hmem, hlabel⟩
  have hpack : packWords (image.moved δ) = packWords image := packWords_moved (by omega)
  exact assemble_eq_ok.mpr
    ⟨_, _, layOut_moved hδ hlay, _, emit_moved (hrun.movable hm) he, hpack.symm⟩

/-- Bases that agree modulo the largest alignment give the same words, or both none. -/
theorem position_independent (h : PcRelative py (tokenize py source)) {b₁ b₂ : ℤ}
    (hb : b₁ % 4096 = b₂ % 4096) :
    assemble py source b₁ none = .ok words ↔ assemble py source b₂ none = .ok words := by
  constructor
  · intro ha
    have h2 := assemble_moved (δ := b₂ - b₁) h (by omega) ha
    rwa [add_sub_cancel] at h2
  · intro ha
    have h1 := assemble_moved (δ := b₁ - b₂) h (by omega) ha
    rwa [add_sub_cancel] at h1

/-- A loop with a call, an alignment, the address of a datum, and a label with the name of a
register. -/
def relocatable : String :=
  "loop: beqz a0, done\n call loop\n.align 3\ndone: la t0, table\n" ++
    "t0: jalr ra, 4(t0)\n j t0\n.data\ntable: .word 1\n"

theorem position_independent_relocatable :
    ∃ words, assemble .plain relocatable 0 none = .ok words ∧
      assemble .plain relocatable 8192 none = .ok words := by
  have ht : ∀ ln ∈ tokenize .plain relocatable, ∀ tok ∈ ln.target,
      IsLabel (tokenize .plain relocatable) tok := by decide +kernel
  have h : PcRelative .plain (tokenize .plain relocatable) :=
    ⟨fun ln hl tok htok => isSymbol_of_isLabel (ht ln hl tok htok), by decide +kernel⟩
  have hok : (assemble .plain relocatable 0 none).toOption.isSome = true := by decide +kernel
  cases ha : assemble .plain relocatable 0 none with
  | error e =>
    rw [ha] at hok
    cases hok
  | ok words => exact ⟨words, rfl, (position_independent h (by decide)).mp ha⟩

end Runs
end RiscForge.Assembler
