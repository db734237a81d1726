import Mathlib.Data.Nat.Digits.Defs
import RiscForge.Lib.HexText

/-! The texts that Python reads as an integer, and the integer that each of them names. -/
namespace RiscForge.Lib

section Numerals
variable {b n : ℕ} {cs ds : List Char}

/-- Digits of base `b`, at least one, with their positional value. -/
structure Numeral (b : ℕ) (ds : List Char) (n : ℕ) : Prop where
  nonempty : ds ≠ []
  value : ∃ vals : List ℕ, ds.map (digitVal b) = vals.map some ∧ Nat.ofDigits b vals.reverse = n

theorem digitsVal_eq_some : digitsVal b ds = some n ↔
    ∃ vals : List ℕ, ds.map (digitVal b) = vals.map some ∧ Nat.ofDigits b vals.reverse = n := by
  induction ds using List.reverseRecOn generalizing n with
  | nil =>
    constructor
    · rintro ⟨⟩
      exact ⟨[], rfl, rfl⟩
    · rintro ⟨vals, hv, rfl⟩
      obtain rfl : vals = [] := by simpa using hv.symm
      rfl
  | append_singleton ds c ih =>
    rw [digitsVal_concat]
    constructor
    · intro h
      obtain ⟨m, hm, h⟩ := Option.bind_eq_some_iff.mp h
      obtain ⟨d, hd, rfl⟩ := Option.map_eq_some_iff.mp h
      obtain ⟨vals, hv, rfl⟩ := ih.mp hm
      refine ⟨vals ++ [d], by simp [hv, hd], ?_⟩
      rw [List.reverse_append, List.reverse_singleton, List.singleton_append, Nat.ofDigits_cons,
        Nat.mul_comm]
      exact Nat.add_comm ..
    · rintro ⟨vals, hv, rfl⟩
      rcases List.eq_nil_or_concat vals with rfl | ⟨vals, d, rfl⟩
      · simp at hv
      · rw [List.map_append, List.concat_eq_append, List.map_append] at hv
        obtain ⟨h1, h2⟩ := List.append_inj' hv rfl
        obtain ⟨h2, -⟩ := List.cons.inj h2
        rw [ih.mpr ⟨vals, h1, rfl⟩, Option.bind_some, h2, Option.map_some]
        rw [List.concat_eq_append, List.reverse_append, List.reverse_singleton,
          List.singleton_append, Nat.ofDigits_cons, Nat.mul_comm, Nat.add_comm]

theorem numeral_iff : Numeral b ds n ↔ ds ≠ [] ∧ digitsVal b ds = some n :=
  ⟨fun h => ⟨h.nonempty, digitsVal_eq_some.mpr h.value⟩,
    fun h => ⟨h.1, digitsVal_eq_some.mp h.2⟩⟩

theorem Numeral.unique {m : ℕ} (h : Numeral b ds m) (h' : Numeral b ds n) : m = n := by
  rw [numeral_iff] at h h'
  exact Option.some.inj (h.2.symm.trans h'.2)

theorem Numeral.digit (h : Numeral b ds n) {c : Char} (hc : c ∈ ds) : ∃ d, digitVal b c = some d := by
  obtain ⟨vals, hv, -⟩ := h.value
  have hm : digitVal b c ∈ vals.map some := hv ▸ List.mem_map_of_mem hc
  obtain ⟨d, -, hd⟩ := List.mem_map.mp hm
  exact ⟨d, hd.symm⟩

end Numerals

section Characters
variable {b d : ℕ} {c : Char}

theorem digitVal_alnum (h : digitVal b c = some d) : 48 ≤ c.toNat ∧ c.toNat ≤ 57 ∨
    65 ≤ c.toNat ∧ c.toNat ≤ 90 ∨ 97 ≤ c.toNat ∧ c.toNat ≤ 122 := by
  by_contra hc
  push Not at hc
  have h1 : ¬ (48 ≤ c.toNat ∧ c.toNat ≤ 57) := by omega
  have h2 : ¬ (97 ≤ c.toNat ∧ c.toNat ≤ 122) := by omega
  have h3 : ¬ (65 ≤ c.toNat ∧ c.toNat ≤ 90) := by omega
  simp only [digitVal, if_neg h1, if_neg h2, if_neg h3, if_neg (Nat.lt_irrefl b)] at h
  cases h

theorem digitVal_ascii (h : digitVal b c = some d) : isAscii c = true := by
  have := digitVal_alnum h
  simp only [isAscii, decide_eq_true_eq]
  omega

theorem digitVal_blank (h : isBlank c = true) : digitVal b c = none := by
  cases hd : digitVal b c with
  | none => rfl
  | some d =>
    exfalso
    have := digitVal_alnum hd
    simp only [isBlank, Bool.or_eq_true, beq_iff_eq, Bool.and_eq_true, decide_eq_true_eq] at h
    rcases h with rfl | h
    · simp at this
    · omega

/-- The letter that follows the `0` in the prefix of base `b`. -/
def IsBaseLetter (b : ℕ) (c : Char) : Prop :=
  b = 16 ∧ (c = 'x' ∨ c = 'X') ∨ b = 8 ∧ (c = 'o' ∨ c = 'O') ∨ b = 2 ∧ (c = 'b' ∨ c = 'B')

theorem toLower_eq_iff {l u : Char} (hl : 97 ≤ l.toNat ∧ l.toNat ≤ 122)
    (hu : u.toNat + 32 = l.toNat) : c.toLower = l ↔ c = l ∨ c = u := by
  simp only [← Char.toNat_inj]
  unfold Char.toLower
  split
  case isTrue h =>
    have hc : 65 ≤ c.toNat ∧ c.toNat ≤ 90 := h
    have hv : (c.val + ('a'.val - 'A'.val)).toNat = c.toNat + 32 := by
      rw [UInt32.toNat_add]
      exact Nat.mod_eq_of_lt (by change c.toNat + 32 < _; omega)
    change (c.val + _).toNat = _ ↔ _
    omega
  case isFalse h =>
    have hc : ¬ (65 ≤ c.toNat ∧ c.toNat ≤ 90) := h
    omega

theorem isBaseLetter_iff : IsBaseLetter b c ↔
    b = 16 ∧ c.toLower = 'x' ∨ b = 8 ∧ c.toLower = 'o' ∨ b = 2 ∧ c.toLower = 'b' := by
  rw [toLower_eq_iff (u := 'X') (by decide) (by decide),
    toLower_eq_iff (u := 'O') (by decide) (by decide),
    toLower_eq_iff (u := 'B') (by decide) (by decide)]
  rfl

theorem digitVal_baseLetter (h : IsBaseLetter b c) : digitVal b c = none := by
  rcases h with ⟨rfl, rfl | rfl⟩ | ⟨rfl, rfl | rfl⟩ | ⟨rfl, rfl | rfl⟩ <;> rfl

end Characters

section Texts
variable {b n : ℕ} {cs ds pre post rest pfx sgn : List Char} {neg : Bool} {v : ℤ}

/-- A sign, and whether it negates. -/
inductive SignText : List Char → Bool → Prop
  | empty : SignText [] false
  | plus : SignText ['+'] false
  | minus : SignText ['-'] true

inductive PrefixText (b : ℕ) : List Char → Prop
  | empty : PrefixText b []
  | letter {c : Char} (h : IsBaseLetter b c) : PrefixText b ['0', c]

def signed (neg : Bool) (n : ℕ) : ℤ := if neg then -(n : ℤ) else n

/-- The texts without underscores that `int` reads in base `b`. -/
inductive IntText (b : ℕ) : List Char → ℤ → Prop
  | mk {pre sgn pfx ds post : List Char} {neg : Bool} {n : ℕ} (hpre : ∀ c ∈ pre, isBlank c = true)
      (hs : SignText sgn neg) (hp : PrefixText b pfx) (hd : Numeral b ds n)
      (hl : b = 10 → ds.length ≤ intMaxStrDigits) (hpost : ∀ c ∈ post, isBlank c = true) :
      IntText b (pre ++ (sgn ++ (pfx ++ (ds ++ post)))) (signed neg n)

/-- The blanks before a text that does not begin with one. -/
theorem dropWhile_pre (hpre : ∀ c ∈ pre, isBlank c = true)
    (hr : ∀ c ∈ rest.head?, isBlank c = false) : (pre ++ rest).dropWhile isBlank = rest := by
  rw [List.dropWhile_append_of_pos hpre]
  cases rest with
  | nil => rfl
  | cons c rest => rw [List.dropWhile_cons, hr c rfl, if_neg (by simp)]

theorem splitSign_eq_of_head (h : ∀ c ∈ rest.head?, c ≠ '-' ∧ c ≠ '+') :
    splitSign rest = (false, rest) := by
  unfold splitSign
  split
  · exact absurd rfl (h '-' rfl).1
  · exact absurd rfl (h '+' rfl).2
  · rfl

theorem splitSign_append (hs : SignText sgn neg) (h : ∀ c ∈ rest.head?, c ≠ '-' ∧ c ≠ '+') :
    splitSign (sgn ++ rest) = (neg, rest) := by
  cases hs with
  | empty => exact splitSign_eq_of_head h
  | plus => rfl
  | minus => rfl

/-- Every text has its sign and the rest. -/
theorem splitSign_text (h : splitSign cs = (neg, rest)) :
    ∃ sgn, SignText sgn neg ∧ cs = sgn ++ rest := by
  unfold splitSign at h
  split at h <;> cases h
  · exact ⟨_, .minus, rfl⟩
  · exact ⟨_, .plus, rfl⟩
  · exact ⟨_, .empty, rfl⟩

theorem dropBasePrefix_of_none (h : ∀ c ∈ cs, ¬ IsBaseLetter b c) : dropBasePrefix b cs = cs := by
  unfold dropBasePrefix
  split
  case h_1 c cs => rw [if_neg fun hc => h c (by simp) (isBaseLetter_iff.mpr hc)]
  case h_2 => rfl

theorem dropBasePrefix_append (hp : PrefixText b pfx) (hn : ∀ c ∈ rest, ¬ IsBaseLetter b c)
    (hu : '_' ∉ rest) : dropBasePrefix b (pfx ++ rest) = rest := by
  cases hp with
  | empty => exact dropBasePrefix_of_none hn
  | letter h =>
    simp only [List.cons_append, List.nil_append, dropBasePrefix]
    rw [if_pos (isBaseLetter_iff.mp h)]
    split
    · simp at hu
    · rfl

theorem dropBasePrefix_text (hu : '_' ∉ cs) :
    ∃ pfx, PrefixText b pfx ∧ cs = pfx ++ dropBasePrefix b cs := by
  unfold dropBasePrefix
  split
  case h_1 c cs =>
    split
    case isTrue h =>
      refine ⟨['0', c], .letter (isBaseLetter_iff.mpr h), ?_⟩
      split
      · simp at hu
      · rfl
    case isFalse => exact ⟨[], .empty, rfl⟩
  case h_2 => exact ⟨[], .empty, rfl⟩

theorem not_baseLetter_of_blank {c : Char} (h : isBlank c = true) : ¬ IsBaseLetter b c := by
  rintro (⟨-, rfl | rfl⟩ | ⟨-, rfl | rfl⟩ | ⟨-, rfl | rfl⟩) <;> cases h

theorem digitVal_mark {c : Char} {d : ℕ} (h : digitVal b c = some d) :
    isBlank c = false ∧ c ≠ '-' ∧ c ≠ '+' := by
  have hn := digitVal_alnum h
  refine ⟨?_, ?_, ?_⟩
  · cases hb : isBlank c with
    | false => rfl
    | true => rw [digitVal_blank hb] at h; cases h
  all_goals
    rintro rfl
    simp at hn

/-- What follows the sign of a text that `int` reads begins with a digit. -/
theorem head_digits (hp : PrefixText b pfx) (hd : Numeral b ds n) (post : List Char) :
    ∀ c ∈ (pfx ++ (ds ++ post)).head?, isBlank c = false ∧ c ≠ '-' ∧ c ≠ '+' := by
  intro c hc
  cases hp with
  | letter h =>
    cases hc
    decide
  | empty =>
    obtain ⟨x, ds, rfl⟩ := List.exists_cons_of_ne_nil hd.nonempty
    cases hc
    obtain ⟨d, h⟩ := hd.digit List.mem_cons_self
    exact digitVal_mark h

theorem rdropWhile_post (hd : Numeral b ds n) (hpost : ∀ c ∈ post, isBlank c = true) :
    (ds ++ post).rdropWhile isBlank = ds := by
  have hr : ∀ c ∈ ds.reverse.head?, isBlank c = false := by
    intro c hc
    obtain ⟨d, h⟩ := hd.digit (List.mem_reverse.mp (List.mem_of_mem_head? hc))
    exact (digitVal_mark h).1
  rw [List.rdropWhile, List.reverse_append, dropWhile_pre (by simpa using hpost) hr,
    List.reverse_reverse]

theorem underscore_not_mem_rest (hu : '_' ∉ cs)
    (hs : splitSign (cs.dropWhile isBlank) = (neg, rest)) : '_' ∉ rest := by
  obtain ⟨sgn, -, he⟩ := splitSign_text hs
  intro h
  have hd : '_' ∈ cs.dropWhile isBlank := he ▸ List.mem_append_right sgn h
  exact hu ((List.dropWhile_suffix isBlank).subset hd)

/-- Of a text without underscores. -/
theorem pyInt_eq_some {py : Python} (hu : '_' ∉ toAscii py cs)
    (hs : splitSign ((toAscii py cs).dropWhile isBlank) = (neg, rest))
    (hr : (dropBasePrefix b rest).rdropWhile isBlank = ds) :
    pyInt py b cs = some v ↔ (b = 10 → ds.length ≤ intMaxStrDigits) ∧
      ∃ n, Numeral b ds n ∧ signed neg n = v := by
  have hrest := underscore_not_mem_rest hu hs
  have hds : '_' ∉ ds := by
    obtain ⟨pfx, -, he⟩ := dropBasePrefix_text (b := b) hrest
    intro h
    rw [he] at hrest
    exact hrest (List.mem_append_right pfx ((List.rdropWhile_prefix isBlank _).subset (hr ▸ h)))
  simp only [pyInt, hs, hr, List.splitOn_eq_singleton hds, List.any_cons, List.any_nil,
    List.flatten_cons, List.flatten_nil, List.append_nil, Bool.or_false, List.isEmpty_iff,
    numeral_iff]
  split
  case isTrue h =>
    refine iff_of_false (by rintro ⟨⟩) ?_
    rintro ⟨-, n, ⟨hne, -⟩, -⟩
    exact hne h
  case isFalse hne =>
    split
    case isTrue h =>
      refine iff_of_false (by rintro ⟨⟩) ?_
      rintro ⟨hl, -⟩
      exact absurd (hl h.1) (Nat.not_le.mpr h.2)
    case isFalse h =>
      have hl : b = 10 → ds.length ≤ intMaxStrDigits :=
        fun hb => Nat.not_lt.mp fun hlt => h ⟨hb, hlt⟩
      cases digitsVal b ds with
      | none => simp
      | some n =>
        constructor
        · intro hv
          exact ⟨hl, n, ⟨hne, rfl⟩, by simpa [signed] using hv⟩
        · rintro ⟨-, m, ⟨-, hm⟩, rfl⟩
          cases hm
          simp [signed]

/-- The parts of a text in the grammar are those that `int` takes apart. -/
theorem splitSign_intText (post : List Char) (hpre : ∀ c ∈ pre, isBlank c = true) (hs : SignText sgn neg)
    (hp : PrefixText b pfx) (hd : Numeral b ds n) :
    splitSign ((pre ++ (sgn ++ (pfx ++ (ds ++ post)))).dropWhile isBlank) =
      (neg, pfx ++ (ds ++ post)) := by
  have hh := head_digits hp hd post
  rw [dropWhile_pre hpre]
  · exact splitSign_append hs fun c hc => (hh c hc).2
  · intro c hc
    cases hs with
    | empty => exact (hh c hc).1
    | plus => cases hc; rfl
    | minus => cases hc; rfl

/-- `int` reads the texts of `IntText`, once they are brought to ASCII. -/
theorem pyInt_iff {py : Python} (hu : '_' ∉ toAscii py cs) :
    pyInt py b cs = some v ↔ IntText b (toAscii py cs) v := by
  constructor
  · intro h
    obtain ⟨neg, rest, hs⟩ : ∃ neg rest,
      splitSign ((toAscii py cs).dropWhile isBlank) = (neg, rest) := ⟨_, _, rfl⟩
    obtain ⟨hl, n, hd, rfl⟩ := (pyInt_eq_some hu hs rfl).mp h
    obtain ⟨sgn, hsgn, he⟩ := splitSign_text hs
    obtain ⟨pfx, hp, hr⟩ := dropBasePrefix_text (b := b) (underscore_not_mem_rest hu hs)
    have hpre : toAscii py cs = (toAscii py cs).takeWhile isBlank ++
        (toAscii py cs).dropWhile isBlank := List.takeWhile_append_dropWhile.symm
    rw [he, hr, ← List.rdropWhile_append_rtakeWhile (p := isBlank) (l := dropBasePrefix b rest)]
      at hpre
    rw [hpre]
    exact .mk (fun c hc => List.mem_takeWhile_imp hc) hsgn hp hd hl
      fun c hc => List.mem_rtakeWhile_imp hc
  · intro h
    generalize ha : toAscii py cs = text at h
    cases h with
    | @mk pre sgn pfx ds post neg n hpre hsgn hp hd hl hpost =>
      have hs := splitSign_intText post hpre hsgn hp hd
      rw [← ha] at hs
      refine (pyInt_eq_some hu hs ?_).mpr ⟨hl, _, hd, rfl⟩
      rw [dropBasePrefix_append hp, rdropWhile_post hd hpost]
      · intro c hc hb
        rcases List.mem_append.mp hc with hc | hc
        · obtain ⟨d, h⟩ := hd.digit hc
          rw [digitVal_baseLetter hb] at h
          cases h
        · exact not_baseLetter_of_blank (hpost c hc) hb
      · rw [ha] at hu
        simp only [List.mem_append, not_or] at hu ⊢
        exact hu.2.2.2

end Texts

/-- `int(s, 0)`: the prefix gives the base, and a decimal number has no leading zeros. -/
def pyIntAnyBase (py : Python) (cs : List Char) : Option ℤ :=
  match (splitSign ((toAscii py cs).dropWhile isBlank)).2 with
  | '0' :: c :: _ =>
    if c.toLower = 'x' then pyInt py 16 cs
    else if c.toLower = 'o' then pyInt py 8 cs
    else if c.toLower = 'b' then pyInt py 2 cs
    else (pyInt py 10 cs).filter (· == 0)
  | _ => pyInt py 10 cs

end RiscForge.Lib
