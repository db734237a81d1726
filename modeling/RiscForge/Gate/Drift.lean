import Mathlib.Data.List.Infix
import RiscForge.Gate.Constants

/-! Definitions inside of comments, which the parser of constants reads. -/
namespace RiscForge.Gate

open Lib

section Comments
variable {P Q : List Char → Prop} {line : List Char} {text text' name : String}

theorem Commented.mono (h : Commented P text text') (hq : ∀ l, P l → Q l) :
    Commented Q text text' := by
  obtain ⟨lines, lines', tail, ht, ht', hs⟩ := h
  exact ⟨lines, lines', tail, ht, ht', hs.mono hq⟩

/-- The text with lines before its first one. -/
def onTop (new : List (List Char)) (text : String) : String :=
  String.ofList (unlines new ++ text.toList)

theorem commented_onTop {new : List (List Char)} (h : ∀ l ∈ new, P l) :
    Commented P text (onTop new text) :=
  ⟨[], new, text.toList, by simp [unlines], rfl, .of_forall h⟩

theorem forall_of_all {p : Char → Prop} [DecidablePred p] {cs : List Char}
    (h : (cs.all fun c => decide (p c)) = true) : ∀ c ∈ cs, p c := by
  simpa using h

theorem isLineBreak_eq_false {c : Char} (h : isSpace c = false) : isLineBreak c = false := by
  rw [Bool.eq_false_iff] at h ⊢
  refine fun hb => h ?_
  simp only [isLineBreak, isSpace, Bool.or_eq_true, Bool.and_eq_true, decide_eq_true_eq,
    beq_iff_eq] at hb ⊢
  omega

/-- A comment with a definition in it. -/
def deadLine (name : String) (value : List Char) : List Char :=
  '/' :: '/' :: (" localparam int ".toList ++ (name.toList ++ '=' :: (value ++ [';'])))

theorem plainComment_deadLine {value : List Char} (hn : IsName name)
    (hv : ∀ c ∈ value, isSpace c = false) : PlainComment (deadLine name value) := by
  have hl : ∀ c ∈ " localparam int ".toList, isLineBreak c = false :=
    forall_of_all (by decide)
  have hb : ∀ c ∈ deadLine name value, isLineBreak c = false := by
    intro c hc
    simp only [deadLine, List.mem_append, List.mem_cons, List.not_mem_nil, or_false] at hc
    rcases hc with rfl | rfl | hc | hc | rfl | hc | rfl
    · rfl
    · rfl
    · exact hl c hc
    · exact isLineBreak_eq_false (hn c hc)
    · rfl
    · exact isLineBreak_eq_false (hv c hc)
    · rfl
  refine ⟨⟨[], _, rfl, nofun, fun hm => ?_⟩, hb⟩
  cases hb '\n' (List.mem_cons_of_mem _ (List.mem_cons_of_mem _ hm))

end Comments

section Constants
variable {name : String} {val value rest cs mid mid' : List Char}

/-- One blank before something else. -/
theorem blanks_unique {blanks xs ys : List Char} {c d : Char} (h : c :: d :: xs = blanks ++ ys)
    (hne : blanks ≠ []) (hb : ∀ x ∈ blanks, isSpace x = true) (hd : isSpace d = false) :
    ys = d :: xs := by
  obtain ⟨b, bs, rfl⟩ := List.exists_cons_of_ne_nil hne
  obtain ⟨-, h⟩ := List.cons.inj h
  cases bs with
  | nil => exact h.symm
  | cons e es =>
    obtain ⟨rfl, -⟩ := List.cons.inj h
    rw [hb d (by simp)] at hd
    cases hd

/-- After the name comes the value. -/
theorem value_unique {w w' : List Char} (hv : ∀ c ∈ value, isSpace c = false ∧ c ≠ ';')
    (hne : value ≠ [])
    (h : [] ++ '=' :: (value ++ ';' :: cs) = w ++ '=' :: (w' ++ (val ++ ';' :: rest)))
    (hw : ∀ c ∈ w, isSpace c = true) (hw' : ∀ c ∈ w', isSpace c = true) (hs : ∀ c ∈ val, c ≠ ';') :
    val = value := by
  obtain ⟨rfl, -, h⟩ := Pattern.run_unique (p := isSpace) h nofun hw rfl rfl
  obtain ⟨c, t, rfl⟩ := List.exists_cons_of_ne_nil hne
  have hc := (hv c List.mem_cons_self).1
  have hw0 : w' = [] := by
    cases w' with
    | nil => rfl
    | cons d w' =>
      obtain ⟨rfl, -⟩ := List.cons.inj h
      rw [hw' c List.mem_cons_self] at hc
      cases hc
  subst hw0
  have hr := Pattern.run_unique (p := fun x => x != ';') h (fun x hx => bne_iff_ne.mpr (hv x hx).2)
    (fun x hx => bne_iff_ne.mpr (hs x hx)) rfl rfl
  exact hr.1.symm

theorem name_first (hn : IsName name) (cs : List Char) :
    ∃ d xs, name.toList ++ '=' :: cs = d :: xs ∧ isSpace d = false := by
  cases h : name.toList with
  | nil => exact ⟨'=', cs, rfl, rfl⟩
  | cons d ds => exact ⟨d, _, rfl, hn d (h ▸ List.mem_cons_self)⟩

theorem not_mem_localparamPat {c : Char} (h : c ≠ 'l') :
    (val, rest) ∉ localparamPat name (c :: cs) := by
  intro hm
  obtain ⟨_, _, _, _, _, he, -⟩ := mem_localparamPat.mp hm
  exact h (List.cons.inj he).1

/-- The type is not taken for the name. -/
theorem name_ne_type {w : List Char} {d : Char} (hn : IsName name) (hd : isSpace d = false)
    (hi : name.toList = "int".toList → d ≠ '=')
    (h : "int".toList ++ ' ' :: d :: cs = name.toList ++ (w ++ '=' :: rest))
    (hw : ∀ c ∈ w, isSpace c = true) : False := by
  rcases List.append_eq_append_iff.mp h with ⟨z, hz, h⟩ | ⟨z, hz, h⟩
  · cases z with
    | nil =>
      have hb : [' '] ++ d :: cs = w ++ '=' :: rest := h
      have hr := Pattern.run_unique (p := isSpace) hb (forall_of_all (by decide)) hw hd rfl
      exact hi (by simpa using hz) hr.2.1
    | cons c z =>
      obtain ⟨rfl, -⟩ := List.cons.inj h
      cases hn ' ' (by simp [hz])
  · cases z with
    | nil =>
      have hb : [' '] ++ d :: cs = w ++ '=' :: rest := h.symm
      have hr := Pattern.run_unique (p := isSpace) hb (forall_of_all (by decide)) hw hd rfl
      exact hi (by simpa using hz.symm) hr.2.1
    | cons c z =>
      have hc : c ∈ "int".toList := by simp [hz]
      have ht : ∀ x ∈ "int".toList, isSpace x = false ∧ x ≠ '=' :=
        forall_of_all (by decide)
      have hb : w ++ '=' :: rest = [] ++ c :: (z ++ ' ' :: d :: cs) := h
      have hr := Pattern.run_unique (p := isSpace) hb hw nofun rfl (ht c hc).1
      exact (ht c hc).2 hr.2.1.symm

/-- In a definition with the type `int`, the name stands after the type. -/
theorem mem_localparamPat_int {d : Char} (hn : IsName name) (hd : isSpace d = false)
    (hi : name.toList = "int".toList → d ≠ '=') (h : (val, rest) ∈
      localparamPat name ("localparam".toList ++ ' ' :: ("int".toList ++ ' ' :: d :: cs))) :
    ∃ w w', d :: cs = name.toList ++ (w ++ '=' :: (w' ++ (val ++ ';' :: rest))) ∧
      (∀ c ∈ w, isSpace c = true) ∧ (∀ c ∈ w', isSpace c = true) ∧ ∀ c ∈ val, c ≠ ';' := by
  obtain ⟨blanks, mid, mid', w, w', he, hb, hs, ht, rfl, hw, hw', -, hsemi⟩ :=
    mem_localparamPat.mp h
  have he := List.append_cancel_left he
  obtain rfl : mid = "int".toList ++ ' ' :: d :: cs := blanks_unique he hb hs rfl
  rcases ht with ht | ht | ht
  · cases mem_logicType_head ht
  · obtain ⟨blanks, ht, hb, hs⟩ := mem_intType.mp ht
    have ht := List.append_cancel_left ht
    exact ⟨w, w', (blanks_unique ht hb hs hd).symm, hw, hw', hsemi⟩
  · cases name_ne_type hn hd hi ht.symm hw

theorem search_deadLine (hn : IsName name) (hv : ∀ c ∈ value, isSpace c = false ∧ c ≠ ';')
    (hne : value ≠ []) :
    (localparamPat name).search (deadLine name value ++ rest) = some value := by
  have hd : deadLine name value ++ rest = "// ".toList ++ ("localparam".toList ++
      ([' '] ++ ("int".toList ++ ([' '] ++ (name.toList ++ ([] ++ '=' :: ([] ++
        (value ++ ';' :: rest)))))))) := by
    simp [deadLine]
  have hl : ∀ c ∈ "// ".toList, c ≠ 'l' := forall_of_all (by decide)
  rw [hd, Pattern.search_append fun c hc _ _ _ => not_mem_localparamPat (hl c hc)]
  have hb : ∀ c ∈ [' '], isSpace c = true := forall_of_all (by decide)
  refine Pattern.search_eq_some (mem_localparamPat.mpr
    ⟨[' '], _, _, [], [], rfl, by simp, hb, .inr (.inl (mem_intType.mpr
      ⟨[' '], rfl, by simp, hb⟩)), rfl, nofun, nofun, hne, fun c hc => (hv c hc).2⟩) ?_
  intro val r hm
  obtain ⟨d, xs, hx, hd⟩ := name_first hn (value ++ ';' :: rest)
  have hi : name.toList = "int".toList → d ≠ '=' := by
    rintro he rfl
    rw [he] at hx
    cases hx
  simp only [List.nil_append, List.singleton_append, hx] at hm
  obtain ⟨w, w', he, hw, hw', hsemi⟩ := mem_localparamPat_int hn hd hi hm
  exact value_unique hv hne (List.append_cancel_left (hx.trans he)) hw hw' hsemi

end Constants

section Others
variable {name other : String} {val value rest cs : List Char}

/-- A definition that no search for another constant stops at. -/
def Quiet (name : String) (value : List Char) : Prop :=
  (∀ c ∈ name.toList, isSpace c = false ∧ c ≠ '=' ∧ c ≠ 'l') ∧ name.toList ≠ [] ∧
    (∀ c ∈ value, isSpace c = false ∧ c ≠ ';' ∧ c ≠ 'l') ∧ value ≠ []

theorem Quiet.isName (h : Quiet name value) : IsName name := fun c hc => (h.1 c hc).1

theorem localparamPat_other (hq : Quiet name val) (ho : Quiet other value) (hne : name ≠ other)
    {found : List Char} : (found, rest) ∉
      localparamPat name ("localparam".toList ++ ' ' :: ("int".toList ++ ' ' ::
        (other.toList ++ '=' :: cs))) := by
  obtain ⟨d, xs, hx⟩ := List.exists_cons_of_ne_nil ho.2.1
  obtain ⟨hd, he, -⟩ := ho.1 d (hx ▸ List.mem_cons_self)
  have hx' : other.toList ++ '=' :: cs = d :: (xs ++ '=' :: cs) := by rw [hx, List.cons_append]
  intro h
  rw [hx'] at h
  obtain ⟨w, w', hm, hw, -⟩ := mem_localparamPat_int hq.isName hd (fun _ => he) h
  rw [← hx'] at hm
  have hp : ∀ s v, Quiet s v → ∀ c ∈ s.toList, (!isSpace c && c != '=') = true := by
    intro s v hs c hc
    simp [hs.1 c hc]
  cases w with
  | nil =>
    have hr := Pattern.run_unique hm (hp _ _ ho) (hp _ _ hq) rfl rfl
    exact hne (String.toList_inj.mp hr.1.symm)
  | cons c w =>
    have hc : isSpace c = true := hw c List.mem_cons_self
    have hr := Pattern.run_unique hm (hp _ _ ho) (hp _ _ hq) rfl (by simp [hc])
    rw [← hr.2.1] at hc
    cases hc

theorem search_other (hq : Quiet name val) (ho : Quiet other value) (hne : name ≠ other) :
    (localparamPat name).search (deadLine other value ++ '\n' :: rest) =
      (localparamPat name).search rest := by
  have hd : deadLine other value ++ '\n' :: rest = "// ".toList ++ 'l' :: ("oca".toList ++ 'l' ::
      ("param int ".toList ++ (other.toList ++ '=' :: (value ++ [';', '\n'])) ++ rest)) := by
    simp [deadLine]
  have hl : ∀ s ∈ ["// ", "oca", "param int "], ∀ c ∈ s.toList, c ≠ 'l' := by
    simp only [List.forall_mem_cons]
    exact ⟨forall_of_all (by decide), forall_of_all (by decide), forall_of_all (by decide), nofun⟩
  have hskip : ∀ c : Char, c ≠ 'l' → ∀ cs a r, (a, r) ∉ localparamPat name (c :: cs) :=
    fun c hc _ _ _ => not_mem_localparamPat hc
  rw [hd, Pattern.search_append fun c hc => hskip c (hl _ (by simp) c hc),
    Pattern.search_cons, Pattern.search_append fun c hc => hskip c (hl _ (by simp) c hc),
    Pattern.search_cons, Pattern.search_append]
  · intro c hc
    refine hskip c ?_
    simp only [List.mem_append, List.mem_cons, List.not_mem_nil, or_false] at hc
    rcases hc with hc | hc | rfl | hc | rfl | rfl
    · exact hl _ (by simp) c hc
    · exact (ho.1 c hc).2.2
    · decide
    · exact (ho.2.2.1 c hc).2.2
    · decide
    · decide
  · intro a r h
    obtain ⟨_, _, _, _, _, he, -⟩ := mem_localparamPat.mp h
    cases (List.cons.inj (List.cons.inj he).2).1
  · intro a r
    have hm : (a, r) ∉ localparamPat name ("localparam".toList ++ ' ' :: ("int".toList ++ ' ' ::
        (other.toList ++ '=' :: (value ++ ';' :: '\n' :: rest)))) := localparamPat_other hq ho hne
    simpa using hm

theorem search_deadLines {defs : List (String × List Char)} (hq : ∀ p ∈ defs, Quiet p.1 p.2)
    (h : defs.lookup name = some value) :
    (localparamPat name).search (unlines (defs.map fun p => deadLine p.1 p.2) ++ rest) =
      some value := by
  induction defs with
  | nil => cases h
  | cons p defs ih =>
    obtain ⟨other, v⟩ := p
    obtain ⟨hp, ht⟩ := List.forall_mem_cons.mp hq
    have hu : unlines (((other, v) :: defs).map fun p => deadLine p.1 p.2) ++ rest =
        deadLine other v ++ '\n' :: (unlines (defs.map fun p => deadLine p.1 p.2) ++ rest) := by
      simp [unlines]
    rw [hu]
    rw [List.lookup_cons] at h
    by_cases he : name = other
    · subst he
      obtain rfl : v = value := by simpa using h
      exact search_deadLine hp.isName (fun c hc => ⟨(hp.2.2.1 c hc).1, (hp.2.2.1 c hc).2.1⟩) hp.2.2.2
    · rw [beq_eq_false_iff_ne.mpr he] at h
      obtain ⟨l, r, hlr, -⟩ := List.lookup_eq_some_iff.mp h
      have hmem : (name, value) ∈ defs := by simp [hlr]
      rw [search_other (ht _ hmem) hp he, ih ht h]

end Others

section Acceptance
variable {py : Python} {wide : Char → Bool} {text text' : String} {m : EnumMapping}

theorem checkEnum_commented (hc : Commented PlainComment text text') {errors : List String}
    (h : checkEnum py wide text m = .ok errors) : checkEnum py wide text' m = .ok errors := by
  have hm : ∃ d, parseSvEnum py wide text m.typedefName = .ok d := by
    cases hd : parseSvEnum py wide text m.typedefName with
    | ok d => exact ⟨d, rfl⟩
    | error e =>
      rw [checkEnum, hd] at h
      cases h
  obtain ⟨d, hd⟩ := hm
  rw [checkEnum, hd] at h
  rw [checkEnum, parseSvEnum_commented hc hd]
  exact h

theorem mapM_ok {α β : Type} {f g : α → Check β} {l : List α} {bs : List β}
    (h : ∀ a ∈ l, ∀ b, f a = .ok b → g a = .ok b) (hf : l.mapM f = .ok bs) : l.mapM g = .ok bs := by
  induction l generalizing bs with
  | nil => exact hf
  | cons a l ih =>
    obtain ⟨ha, h⟩ := List.forall_mem_cons.mp h
    rw [List.mapM_cons] at hf ⊢
    cases hb : f a with
    | error e =>
      rw [hb] at hf
      cases hf
    | ok b =>
      cases hl : l.mapM f with
      | error e =>
        rw [hb, hl] at hf
        cases hf
      | ok bs' =>
        rw [hb, hl] at hf
        rw [ha b hb, ih h hl]
        exact hf

theorem localparams_names : ∀ p ∈ localparams, IsName p.1 ∧ ';' ∉ p.1.toList := by
  have hall : (localparams.all fun p => p.1.toList.all fun c =>
      decide (isSpace c = false ∧ c ≠ ';')) = true := by decide
  intro p hp
  have hc := forall_of_all (List.all_eq_true.mp hall p hp)
  exact ⟨fun c hm => (hc c hm).1, fun hm => (hc ';' hm).2 rfl⟩

/-- Where all constants are defined on one line, comments that do not speak of them leave the
verdict of the script as it is. -/
theorem main_commented {n : ℕ} (ho : ∀ p ∈ localparams, OnOneLine p.1 text.toList)
    (hc : Commented Silent text text') (h : main py wide text = .ok n) :
    main py wide text' = .ok n := by
  have hplain : Commented PlainComment text text' := hc.mono fun _ hl => hl.toPlainComment
  have hconst : ∀ p ∈ localparams, checkLocalparam py text' p = checkLocalparam py text p := by
    intro p hp
    obtain ⟨hn, hs⟩ := localparams_names p hp
    rw [checkLocalparam, checkLocalparam, parseSvLocalparam_commented hn hs (ho p hp) hc]
  rw [main, driftErrors] at h
  cases he : enumMappings.mapM (checkEnum py wide text) with
  | error e =>
    rw [he] at h
    cases h
  | ok enums =>
    cases hk : localparams.mapM (checkLocalparam py text) with
    | error e =>
      rw [he, hk] at h
      cases h
    | ok constants =>
      rw [he, hk] at h
      rw [main, driftErrors, mapM_ok (fun m _ _ => checkEnum_commented hplain) he,
        mapM_ok (fun p hp _ => (hconst p hp).trans) hk]
      exact h

/-- Definitions of all constants, with the values that the script wants. -/
def deadConstants : List (String × List Char) :=
  [("XLEN", ['3', '2']), ("F7_DEFAULT", ['0']), ("F7_ALT", ['3', '2']), ("F12_ECALL", ['0']),
    ("F12_EBREAK", ['1'])]

theorem quiet_deadConstants : ∀ p ∈ deadConstants, Quiet p.1 p.2 := by
  have hq : ∀ name value, (name.toList.all fun c => decide (isSpace c = false ∧ c ≠ '=' ∧ c ≠ 'l')) =
      true → name.toList ≠ [] →
      (value.all fun c => decide (isSpace c = false ∧ c ≠ ';' ∧ c ≠ 'l')) = true → value ≠ [] →
      Quiet name value :=
    fun _ _ h1 h2 h3 h4 => ⟨forall_of_all h1, h2, forall_of_all h3, h4⟩
  simp only [deadConstants, List.forall_mem_cons]
  exact ⟨hq _ _ (by decide) (by decide) (by decide) (by decide),
    hq _ _ (by decide) (by decide) (by decide) (by decide),
    hq _ _ (by decide) (by decide) (by decide) (by decide),
    hq _ _ (by decide) (by decide) (by decide) (by decide),
    hq _ _ (by decide) (by decide) (by decide) (by decide), nofun⟩

/-- The text below comments that define all constants. -/
def disguised (text : String) : String :=
  onTop (deadConstants.map fun p => deadLine p.1 p.2) text

theorem commented_disguised : Commented PlainComment text (disguised text) := by
  refine commented_onTop fun l hl => ?_
  obtain ⟨p, hp, rfl⟩ := List.mem_map.mp hl
  have hq := quiet_deadConstants p hp
  exact plainComment_deadLine hq.isName fun c hc => (hq.2.2.1 c hc).1

theorem checkLocalparam_disguised :
    ∀ p ∈ localparams, checkLocalparam py (disguised text) p = .ok [] := by
  have hs : ∀ name value, deadConstants.lookup name = some value →
      parseSvLocalparam py (disguised text) name = parseSvIntLiteral py (String.ofList value) := by
    intro name value h
    rw [parseSvLocalparam, disguised, onTop, String.toList_ofList,
      search_deadLines quiet_deadConstants h]
  intro p hp
  simp only [localparams, List.mem_cons, List.not_mem_nil, or_false] at hp
  rcases hp with rfl | rfl | rfl | rfl | rfl <;> rw [checkLocalparam, hs _ _ rfl] <;> rfl

theorem mapM_nil {α : Type} {f : α → Check (List String)} {l : List α} (h : ∀ a ∈ l, f a = .ok []) :
    l.mapM f = .ok (l.map fun _ => []) := by
  induction l with
  | nil => rfl
  | cons a l ih =>
    obtain ⟨ha, h⟩ := List.forall_mem_cons.mp h
    rw [List.mapM_cons, ha, ih h]
    rfl

/-- Where the enumerations agree, comments make the script accept any constants. -/
theorem main_disguised (h : ∀ m ∈ enumMappings, checkEnum py wide text m = .ok []) :
    main py wide (disguised text) = .ok 0 := by
  rw [main, driftErrors, mapM_nil fun m hm => checkEnum_commented commented_disguised (h m hm),
    mapM_nil checkLocalparam_disguised]
  rfl

end Acceptance

section Dependence
variable {py : Python} {wide : Char → Bool} {text typedefName name : String}

/-- Comments on lines of their own change neither what is read of an enumeration nor of a
constant. -/
def IgnoresComments (py : Python) (wide : Char → Bool) (text typedefName name : String) : Prop :=
  ∀ text', Commented IsComment text text' →
    parseSvEnum py wide text' typedefName = parseSvEnum py wide text typedefName ∧
      parseSvLocalparam py text' name = parseSvLocalparam py text name

theorem parseSvLocalparam_deadLine (hn : IsName name) {value : List Char}
    (hv : ∀ c ∈ value, isSpace c = false ∧ c ≠ ';') (hne : value ≠ []) :
    parseSvLocalparam py (onTop [deadLine name value] text) name =
      parseSvIntLiteral py (String.ofList value) := by
  have ht : (onTop [deadLine name value] text).toList =
      deadLine name value ++ '\n' :: text.toList := by
    simp [onTop, unlines]
  rw [parseSvLocalparam, ht, search_deadLine hn hv hne]

theorem commented_deadLine (hn : IsName name) (value : List Char)
    (hv : ∀ c ∈ value, isSpace c = false) :
    Commented IsComment text (onTop [deadLine name value] text) :=
  commented_onTop fun _ hl => List.mem_singleton.mp hl ▸ (plainComment_deadLine hn hv).comment

theorem parseSvIntLiteral_zero : parseSvIntLiteral py (String.ofList ['0']) = .ok 0 := rfl

theorem parseSvIntLiteral_one : parseSvIntLiteral py (String.ofList ['1']) = .ok 1 := rfl

theorem not_ignoresComments_deadLine (hn : IsName name) :
    ¬ IgnoresComments py wide text typedefName name := by
  intro h
  have h0 : parseSvLocalparam py (onTop [deadLine name ['0']] text) name = .ok 0 :=
    (parseSvLocalparam_deadLine hn (forall_of_all (by decide)) (by simp)).trans parseSvIntLiteral_zero
  have h1 : parseSvLocalparam py (onTop [deadLine name ['1']] text) name = .ok 1 :=
    (parseSvLocalparam_deadLine hn (forall_of_all (by decide)) (by simp)).trans parseSvIntLiteral_one
  have c0 := h _ (commented_deadLine hn ['0'] (forall_of_all (by decide)))
  have c1 := h _ (commented_deadLine hn ['1'] (forall_of_all (by decide)))
  have he := (h0.symm.trans (c0.2.trans c1.2.symm)).trans h1
  cases he

/-- Above any package, a comment can change what is read of a constant; and where only the
constants disagree with the script, comments make it accept the package. Enumerations are safe, and
all is safe from comments that do not speak of constants. -/
theorem not_ignoresComments (hn : IsName name) :
    ¬ IgnoresComments py wide text typedefName name ∧
      ((∀ m ∈ enumMappings, checkEnum py wide text m = .ok []) →
        ∃ text', Commented IsComment text text' ∧ main py wide text' = .ok 0) ∧
      (∀ text' d, Commented PlainComment text text' →
        parseSvEnum py wide text typedefName = .ok d →
          parseSvEnum py wide text' typedefName = .ok d) ∧
      (';' ∉ name.toList → OnOneLine name text.toList → ∀ text', Commented Silent text text' →
        parseSvLocalparam py text' name = parseSvLocalparam py text name) ∧
      ((∀ p ∈ localparams, OnOneLine p.1 text.toList) → ∀ text' n, Commented Silent text text' →
        main py wide text = .ok n → main py wide text' = .ok n) :=
  ⟨not_ignoresComments_deadLine hn,
    fun h => ⟨_, commented_disguised.mono fun _ hl => hl.comment, main_disguised h⟩,
    fun _ _ hc hd => parseSvEnum_commented hc hd,
    fun hs ho _ hc => parseSvLocalparam_commented hn hs ho hc,
    fun ho _ _ hc h => main_commented ho hc h⟩

/-- A package with a constant of 64 bits. -/
def widePackage : String :=
  "typedef enum logic [1:0] \x7b\n  MEM_B = 2'd0 // byte\n\x7d mem_size_e;\nlocalparam int XLEN = 64;\n"

theorem onOneLine_widePackage : OnOneLine "XLEN" widePackage.toList := by
  have hall : ∀ s ∈ widePackage.toList.tails, "localparam".toList <+: s →
      s = "localparam".toList ++ " int XLEN = 64;\n".toList := by decide +kernel
  intro r hr
  obtain rfl := List.append_cancel_left
    (hall _ ((List.mem_tails _ _).mpr hr) (List.prefix_append _ _))
  refine .inl ⟨" int XLEN = 64".toList, [], by decide, fun s hs => ?_⟩
  exact absurd (hs.subset List.mem_cons_self) (by decide)

theorem not_ignoresComments_widePackage :
    ¬ IgnoresComments .plain (fun _ => false) widePackage "mem_size_e" "XLEN" ∧
      ∀ text', Commented Silent widePackage text' →
        parseSvEnum .plain (fun _ => false) text' "mem_size_e" = .ok [("MEM_B", 0)] ∧
          parseSvLocalparam .plain text' "XLEN" = .ok 64 := by
  have hn : IsName "XLEN" := forall_of_all (by decide)
  obtain ⟨hnot, -, henum, hconst, -⟩ := @not_ignoresComments .plain (fun _ => false) widePackage
    "mem_size_e" "XLEN" hn
  refine ⟨hnot, fun text' hc => ⟨?_, ?_⟩⟩
  · refine henum text' _ (hc.mono fun _ hl => hl.toPlainComment) ?_
    decide +kernel
  · rw [hconst (by decide) onOneLine_widePackage text' hc]
    decide +kernel

/-- The constant of a comment is read in place of the one of the package. -/
theorem dead_definition_read :
    let text' := onTop [deadLine "XLEN" ['3', '2']] widePackage
    Commented IsComment widePackage text' ∧
      parseSvEnum .plain (fun _ => false) widePackage "mem_size_e" = .ok [("MEM_B", 0)] ∧
      parseSvLocalparam .plain widePackage "XLEN" = .ok 64 ∧
      parseSvLocalparam .plain text' "XLEN" = .ok 32 := by
  have hn : IsName "XLEN" := forall_of_all (by decide)
  refine ⟨commented_deadLine hn _ (forall_of_all (by decide)), ?_, ?_, ?_⟩
  · decide +kernel
  · decide +kernel
  · rw [parseSvLocalparam_deadLine hn (forall_of_all (by decide)) (by simp)]
    rfl

end Dependence

end RiscForge.Gate
