import RiscForge.Lib.IntText
import RiscForge.Assembler.Source

/-! Which tokens `parse_int` reads: the literals of the language, and those that `int` adds. -/
namespace RiscForge.Assembler

open Lib

section Grammar
variable {b n : ℕ} {t body ds : List Char} {neg : Bool} {v w : ℤ}

def minusText (neg : Bool) : List Char := if neg then ['-'] else []

/-- An optional minus sign and decimal digits, or a base prefix and digits of that base. -/
inductive Literal : List Char → ℤ → Prop
  | decimal {neg : Bool} {ds : List Char} {n : ℕ} (h : Numeral 10 ds n) :
      Literal (minusText neg ++ ds) (signed neg n)
  | prefixed {neg : Bool} {b : ℕ} {c : Char} {ds : List Char} {n : ℕ} (hc : IsBaseLetter b c)
      (h : Numeral b ds n) : Literal (minusText neg ++ '0' :: c :: ds) (signed neg n)

/-- The token as `parse_int` looks at it: trimmed, without underscores. -/
def literalText (tok : String) : List Char := (strip tok).toList.filter (· ≠ '_')

/-- The minus sign and the base that `parse_int` cuts off, and the rest that it gives to `int`. -/
def cutPrefix : List Char → Bool × ℕ × List Char
  | '-' :: '0' :: 'x' :: ds | '-' :: '0' :: 'X' :: ds => (true, 16, ds)
  | '0' :: 'x' :: ds | '0' :: 'X' :: ds => (false, 16, ds)
  | '-' :: '0' :: 'b' :: ds | '-' :: '0' :: 'B' :: ds => (true, 2, ds)
  | '0' :: 'b' :: ds | '0' :: 'B' :: ds => (false, 2, ds)
  | '-' :: '0' :: 'o' :: ds | '-' :: '0' :: 'O' :: ds => (true, 8, ds)
  | '0' :: 'o' :: ds | '0' :: 'O' :: ds => (false, 8, ds)
  | ds => (false, 10, ds)

theorem cutPrefix_prefixed {c : Char} (hc : IsBaseLetter b c) :
    cutPrefix (minusText neg ++ '0' :: c :: ds) = (neg, b, ds) := by
  rcases hc with ⟨rfl, rfl | rfl⟩ | ⟨rfl, rfl | rfl⟩ | ⟨rfl, rfl | rfl⟩ <;> cases neg <;> rfl

theorem intLiteral_prefixed (py : Python) {c : Char} (hc : IsBaseLetter b c) :
    intLiteral py (minusText neg ++ '0' :: c :: ds) =
      (pyInt py b ds).map fun w => if neg then -w else w := by
  rcases hc with ⟨rfl, rfl | rfl⟩ | ⟨rfl, rfl | rfl⟩ | ⟨rfl, rfl | rfl⟩ <;> cases neg <;>
    simp [minusText, intLiteral]

/-- Either there is a prefix to cut, or the whole text is decimal. -/
theorem cutPrefix_cases (t : List Char) :
    (∃ neg b c ds, IsBaseLetter b c ∧ t = minusText neg ++ '0' :: c :: ds) ∨
      cutPrefix t = (false, 10, t) ∧ ∀ py, intLiteral py t = pyInt py 10 t := by
  unfold cutPrefix
  split
  case h_13 h1 h2 h3 h4 h5 h6 h7 h8 h9 h10 h11 h12 =>
    exact .inr ⟨rfl, fun py => intLiteral.eq_13 py t h1 h2 h3 h4 h5 h6 h7 h8 h9 h10 h11 h12⟩
  all_goals left
  case h_1 ds | h_2 ds => exact ⟨true, 16, _, ds, by simp [IsBaseLetter], rfl⟩
  case h_3 ds | h_4 ds => exact ⟨false, 16, _, ds, by simp [IsBaseLetter], rfl⟩
  case h_5 ds | h_6 ds => exact ⟨true, 2, _, ds, by simp [IsBaseLetter], rfl⟩
  case h_7 ds | h_8 ds => exact ⟨false, 2, _, ds, by simp [IsBaseLetter], rfl⟩
  case h_9 ds | h_10 ds => exact ⟨true, 8, _, ds, by simp [IsBaseLetter], rfl⟩
  case h_11 ds | h_12 ds => exact ⟨false, 8, _, ds, by simp [IsBaseLetter], rfl⟩

theorem intLiteral_eq (py : Python) (h : cutPrefix t = (neg, b, body)) :
    intLiteral py t = (pyInt py b body).map fun w => if neg then -w else w := by
  rcases cutPrefix_cases t with ⟨neg', b', c, ds, hc, rfl⟩ | ⟨ht, hl⟩
  · rw [cutPrefix_prefixed hc] at h
    cases h
    exact intLiteral_prefixed py hc
  · rw [ht] at h
    cases h
    rw [hl py]
    simp

/-- What may follow the prefix: digits, and a minus sign before those of a decimal literal. -/
inductive Body (b : ℕ) : List Char → ℤ → Prop
  | mk {neg : Bool} {ds : List Char} {n : ℕ} (hn : neg = true → b = 10) (h : Numeral b ds n) :
      Body b (minusText neg ++ ds) (signed neg n)

theorem mem_minusText {c : Char} (h : c ∈ minusText neg) : c = '-' ∧ neg = true := by
  cases neg <;> simp_all [minusText]

/-- A text of digits and minus signs has no base prefix. -/
theorem not_prefixed {neg' : Bool} {ds' : List Char} {c : Char} (hc : IsBaseLetter b c)
    (h : Numeral 10 ds n) : minusText neg ++ ds ≠ minusText neg' ++ '0' :: c :: ds' := by
  intro he
  have hm : c ∈ minusText neg ++ ds := by
    rw [he]
    simp
  rcases List.mem_append.mp hm with hm | hm
  · obtain ⟨rfl, -⟩ := mem_minusText hm
    simp [IsBaseLetter] at hc
  · obtain ⟨d, hd⟩ := h.digit hm
    rcases hc with ⟨-, rfl | rfl⟩ | ⟨-, rfl | rfl⟩ | ⟨-, rfl | rfl⟩ <;> cases hd

/-- A literal is its prefix and a body. -/
theorem literal_iff_body (h : cutPrefix t = (neg, b, body)) :
    Literal t v ↔ ∃ w, Body b body w ∧ (if neg then -w else w) = v := by
  rcases cutPrefix_cases t with ⟨neg', b', c, ds, hc, rfl⟩ | ⟨ht, -⟩
  · have hp : cutPrefix (minusText neg' ++ '0' :: c :: ds) = (neg', b', ds) := cutPrefix_prefixed hc
    obtain ⟨rfl, rfl, rfl⟩ : neg' = neg ∧ b' = b ∧ ds = body := by simpa [hp] using h
    constructor
    · intro hl
      generalize ht : minusText neg' ++ '0' :: c :: ds = t at hl hp
      cases hl with
      | decimal hd => exact absurd ht.symm (not_prefixed hc hd)
      | @prefixed neg b c' ds n hc' hd =>
        rw [cutPrefix_prefixed hc'] at hp
        cases hp
        refine ⟨signed false n, @Body.mk _ false _ _ nofun hd, ?_⟩
        cases neg' <;> rfl
    · rintro ⟨w, hb, rfl⟩
      cases hb with
      | @mk neg ds n hn hd =>
        have hf : neg = false := by
          cases neg with
          | false => rfl
          | true => rw [hn rfl] at hc; simp [IsBaseLetter] at hc
        rw [hf]
        cases neg' with
        | false => exact @Literal.prefixed false _ _ _ _ hc hd
        | true => exact @Literal.prefixed true _ _ _ _ hc hd
  · rw [ht] at h
    cases h
    constructor
    · intro hl
      cases hl with
      | decimal hd => exact ⟨_, .mk (fun _ => rfl) hd, rfl⟩
      | prefixed hc hd =>
        rw [cutPrefix_prefixed hc, Prod.mk.injEq, Prod.mk.injEq] at ht
        rw [ht.2.1] at hc
        simp [IsBaseLetter] at hc
    · rintro ⟨w, hb, rfl⟩
      cases hb with
      | mk _ hd => exact .decimal hd

/-- Only digits of the base, or, when it is decimal, minus signs. -/
def Plain (b : ℕ) (cs : List Char) : Prop :=
  ∀ c ∈ cs, (∃ d, digitVal b c = some d) ∨ b = 10 ∧ c = '-'

theorem Body.plain (h : Body b body w) : Plain b body := by
  cases h with
  | mk hn hd =>
    intro c hc
    rcases List.mem_append.mp hc with hc | hc
    · obtain ⟨rfl, hneg⟩ := mem_minusText hc
      exact .inr ⟨hn hneg, rfl⟩
    · exact .inl (hd.digit hc)

theorem Plain.toAscii_eq {py : Python} (h : Plain b body) : toAscii py body = body := by
  rw [toAscii, if_pos]
  refine List.all_eq_true.mpr fun c hc => ?_
  rcases h c hc with ⟨d, hd⟩ | ⟨-, rfl⟩
  · exact digitVal_ascii hd
  · rfl

theorem Plain.not_blank (h : Plain b body) {c : Char} (hc : c ∈ body) : isBlank c = false := by
  rcases h c hc with ⟨d, hd⟩ | ⟨-, rfl⟩
  · exact (digitVal_mark hd).1
  · rfl

theorem eq_nil_of_blank {cs : List Char} (h : ∀ c ∈ cs, isBlank c = true)
    (hn : ∀ c ∈ cs, isBlank c = false) : cs = [] := by
  refine List.eq_nil_iff_forall_not_mem.mpr fun c hc => ?_
  have ht := h c hc
  rw [hn c hc] at ht
  cases ht

theorem Plain.prefixText {pfx : List Char} (h : Plain b body) (hp : PrefixText b pfx)
    (hsub : pfx ⊆ body) : pfx = [] := by
  cases hp with
  | empty => rfl
  | @letter c hc =>
    exfalso
    rcases h c (hsub (by simp)) with ⟨d, hd⟩ | ⟨-, rfl⟩
    · rw [digitVal_baseLetter hc] at hd
      cases hd
    · simp [IsBaseLetter] at hc

theorem Plain.signText {sgn : List Char} (h : Plain b body) (hs : SignText sgn neg)
    (hsub : sgn ⊆ body) : sgn = minusText neg ∧ (neg = true → b = 10) := by
  cases hs with
  | empty => exact ⟨rfl, by rintro ⟨⟩⟩
  | minus =>
    refine ⟨rfl, fun _ => ?_⟩
    rcases h '-' (hsub (by simp)) with ⟨d, hd⟩ | ⟨hb, -⟩
    · exact absurd rfl (digitVal_mark hd).2.1
    · exact hb
  | plus =>
    rcases h '+' (hsub (by simp)) with ⟨d, hd⟩ | ⟨-, he⟩
    · exact absurd rfl (digitVal_mark hd).2.2
    · cases he

/-- What `int` reads in digits and minus signs is one sign and the digits. -/
theorem Plain.digits (h : Plain b body) (hi : IntText b body w) :
    ∃ neg ds n, body = minusText neg ++ ds ∧ (neg = true → b = 10) ∧ Numeral b ds n ∧
      w = signed neg n ∧ (b = 10 → ds.length ≤ intMaxStrDigits) := by
  cases hi with
  | @mk pre sgn pfx ds post neg n hpre hs hp hd hl hpost =>
    obtain rfl : pre = [] := eq_nil_of_blank hpre fun c hc => h.not_blank (by simp [hc])
    obtain rfl : post = [] := eq_nil_of_blank hpost fun c hc => h.not_blank (by simp [hc])
    obtain rfl : pfx = [] := h.prefixText hp fun c hc => by simp [hc]
    obtain ⟨rfl, hb⟩ := h.signText hs fun c hc => by simp [hc]
    exact ⟨neg, ds, n, by simp, hb, hd, rfl, hl⟩

theorem intText_of_body (hd : Numeral b ds n) (hl : b = 10 → ds.length ≤ intMaxStrDigits) :
    IntText b (minusText neg ++ ds) (signed neg n) := by
  have hs : SignText (minusText neg) neg := by
    cases neg
    · exact .empty
    · exact .minus
  simpa using @IntText.mk b [] _ [] ds [] neg n nofun hs .empty hd hl nofun

end Grammar

section Tokens
variable {py : Python} {tok src : String} {lineno b n : ℕ} {t body ds : List Char} {neg : Bool}
  {v w : ℤ}

/-- What `int` gets is in its grammar, but does not consist of digits alone. -/
def Loose (py : Python) (t : List Char) : Prop :=
  ∃ neg b body, cutPrefix t = (neg, b, body) ∧ (∃ w, IntText b (toAscii py body) w) ∧
    ¬ Plain b body

/-- A decimal literal with more digits than `int` converts. -/
def LongDecimal (t : List Char) : Prop :=
  ∃ neg ds n, t = minusText neg ++ ds ∧ Numeral 10 ds n ∧ intMaxStrDigits < ds.length

/-- The token is read if and only if it is a literal, as its value, and otherwise reported. -/
structure ParsesExactly (py : Python) (tok : String) (lineno : ℕ) (src : String) : Prop where
  accepts : ∀ v, parseInt py tok lineno src = .ok v ↔ Literal (literalText tok) v
  rejects : (∀ v, ¬ Literal (literalText tok) v) →
    ∃ e, parseInt py tok lineno src = .error (.asm e) ∧ e.lineno = lineno

theorem toAscii_no_underscore (h : '_' ∉ t) : '_' ∉ toAscii py t := by
  unfold toAscii
  split
  · exact h
  · intro hm
    obtain ⟨c, hc, he⟩ := List.mem_map.mp hm
    have hdigit : ∀ d : Fin 10, Char.ofNat (48 + d) ≠ '_' := by decide
    split_ifs at he with h1 h2
    · exact h (he ▸ hc)
    · cases he
    · split at he
      · exact hdigit _ he
      · cases he

theorem cutPrefix_subset (h : cutPrefix t = (neg, b, body)) : body ⊆ t := by
  rcases cutPrefix_cases t with ⟨neg', b', c, ds, hc, rfl⟩ | ⟨ht, -⟩
  · rw [cutPrefix_prefixed hc] at h
    cases h
    intro x hx
    simp [hx]
  · rw [ht] at h
    cases h
    exact List.Subset.refl t

theorem cutPrefix_decimal (h : Numeral 10 ds n) :
    cutPrefix (minusText neg ++ ds) = (false, 10, minusText neg ++ ds) := by
  rcases cutPrefix_cases (minusText neg ++ ds) with ⟨_, _, _, _, hc, he⟩ | ⟨ht, -⟩
  · exact absurd he (not_prefixed hc h)
  · exact ht

/-- With a decimal base nothing has been cut. -/
theorem cutPrefix_ten (h : cutPrefix t = (neg, 10, body)) : body = t := by
  rcases cutPrefix_cases t with ⟨neg', b', c, ds, hc, rfl⟩ | ⟨ht, -⟩
  · rw [cutPrefix_prefixed hc, Prod.mk.injEq, Prod.mk.injEq] at h
    rw [h.2.1] at hc
    simp [IsBaseLetter] at hc
  · rw [ht] at h
    cases h
    rfl

theorem intLiteral_iff (hu : '_' ∉ t) (h : cutPrefix t = (neg, b, body)) :
    intLiteral py t = some v ↔
      ∃ w, IntText b (toAscii py body) w ∧ (if neg then -w else w) = v := by
  have hb : '_' ∉ toAscii py body := toAscii_no_underscore fun hm => hu (cutPrefix_subset h hm)
  rw [intLiteral_eq py h, Option.map_eq_some_iff]
  simp only [pyInt_iff hb]

theorem minusText_append_inj {neg' : Bool} {b' n' : ℕ} {ds' : List Char} (h : Numeral b ds n)
    (h' : Numeral b' ds' n') (he : minusText neg ++ ds = minusText neg' ++ ds') : ds = ds' := by
  have hm : ∀ {b n ds}, Numeral b ds n → ds.head? ≠ some '-' := by
    intro b n ds hd hh
    obtain ⟨d, hc⟩ := hd.digit (List.mem_of_mem_head? hh)
    exact absurd rfl (digitVal_mark hc).2.1
  cases neg <;> cases neg' <;> simp only [minusText, if_true, Bool.false_eq_true, if_false,
    List.nil_append, List.cons_append, List.cons.injEq, true_and] at he
  · exact he
  · exact absurd (by rw [he]; rfl) (hm h)
  · exact absurd (by rw [← he]; rfl) (hm h')
  · exact he

/-- `int` reads what follows the prefix of a literal, unless it is too long. -/
theorem intText_of_literal (hl : ¬ LongDecimal t) (hc : cutPrefix t = (neg, b, body))
    (h : Body b body w) : IntText b (toAscii py body) w := by
  rw [h.plain.toAscii_eq]
  cases h with
  | @mk neg' ds n hn hd =>
    refine intText_of_body hd fun hb => Nat.not_lt.mp fun hlt => ?_
    subst hb
    exact hl ⟨neg', ds, n, (cutPrefix_ten hc).symm, hd, hlt⟩

theorem parseInt_eq_ok : parseInt py tok lineno src = .ok v ↔
    intLiteral py (literalText tok) = some v := by
  unfold parseInt literalText
  split
  case h_1 w hw => rw [hw, Except.ok.injEq, Option.some.injEq]
  case h_2 hn =>
    rw [hn]
    exact iff_of_false nofun nofun

theorem parseInt_rejects (h : ∀ v, parseInt py tok lineno src ≠ .ok v) :
    ∃ e, parseInt py tok lineno src = .error (.asm e) ∧ e.lineno = lineno := by
  unfold parseInt at h ⊢
  split at h
  case h_1 w hw => exact absurd rfl (h w)
  case h_2 hn => exact ⟨_, rfl, rfl⟩

/-- A sign behind the prefix, which `int` reads as well. -/
theorem sign_behind_prefix : parseInt .plain "0x-5" 1 "" = .ok (-5) ∧
    ∀ v, ¬ Literal (literalText "0x-5") v := by
  refine ⟨by decide +kernel, fun v hl => ?_⟩
  have hc : cutPrefix (literalText "0x-5") = (false, 16, ['-', '5']) := by decide +kernel
  obtain ⟨w, hb, -⟩ := (literal_iff_body hc).mp hl
  rcases hb.plain '-' (by simp) with ⟨d, hd⟩ | ⟨hb, -⟩
  · cases hd
  · cases hb

theorem ParsesExactly.not_loose (h : ParsesExactly py tok lineno src) :
    ¬ Loose py (literalText tok) := by
  rintro ⟨neg, b, body, hc, ⟨w, hw⟩, hn⟩
  have hu : '_' ∉ literalText tok := by simp [literalText]
  have hv := (intLiteral_iff hu hc).mpr ⟨w, hw, rfl⟩
  have hl := (h.accepts _).mp (parseInt_eq_ok.mpr hv)
  obtain ⟨w', hb, -⟩ := (literal_iff_body hc).mp hl
  exact hn hb.plain

theorem ParsesExactly.not_longDecimal (h : ParsesExactly py tok lineno src) :
    ¬ LongDecimal (literalText tok) := by
  rintro ⟨neg, ds, n, ht, hd, hlt⟩
  have hu : '_' ∉ literalText tok := by simp [literalText]
  have hl : Literal (literalText tok) (signed neg n) := ht ▸ .decimal hd
  have hc : cutPrefix (minusText neg ++ ds) = (false, 10, minusText neg ++ ds) :=
    cutPrefix_decimal hd
  rw [← ht] at hc
  obtain ⟨w, hw, -⟩ := (intLiteral_iff hu hc).mp (parseInt_eq_ok.mp ((h.accepts _).mpr hl))
  obtain ⟨w', hb, -⟩ := (literal_iff_body hc).mp hl
  rw [hb.plain.toAscii_eq] at hw
  obtain ⟨neg', ds', n', he, -, hd', -, hle⟩ := hb.plain.digits hw
  rw [ht] at he
  rw [minusText_append_inj hd hd' he] at hlt
  exact absurd (hle rfl) (Nat.not_le.mpr hlt)

theorem parsesExactly_of (hl : ¬ Loose py (literalText tok))
    (ht : ¬ LongDecimal (literalText tok)) : ParsesExactly py tok lineno src := by
  have hu : '_' ∉ literalText tok := by simp [literalText]
  obtain ⟨⟨neg, b, body⟩, hc⟩ : ∃ p, cutPrefix (literalText tok) = p := ⟨_, rfl⟩
  have ha : ∀ v, parseInt py tok lineno src = .ok v ↔ Literal (literalText tok) v := by
    intro v
    rw [parseInt_eq_ok, intLiteral_iff hu hc, literal_iff_body hc]
    refine exists_congr fun w => and_congr_left fun _ => ⟨fun h => ?_, intText_of_literal ht hc⟩
    have hp : Plain b body := by_contra fun hp => hl ⟨neg, b, body, hc, ⟨w, h⟩, hp⟩
    rw [hp.toAscii_eq] at h
    obtain ⟨neg', ds, n, rfl, hn, hd, rfl, -⟩ := hp.digits h
    exact .mk hn hd
  exact ⟨ha, fun hn => parseInt_rejects fun v h => hn v ((ha v).mp h)⟩

/-- Apart from what `int` reads on its own and from its limit, literals are read exactly. -/
theorem parsesExactly_iff :
    ParsesExactly py tok lineno src ↔ ¬ Loose py (literalText tok) ∧ ¬ LongDecimal (literalText tok) := by
  constructor
  · intro h
    exact ⟨h.not_loose, h.not_longDecimal⟩
  · rintro ⟨hl, ht⟩
    exact parsesExactly_of hl ht

end Tokens
end RiscForge.Assembler
