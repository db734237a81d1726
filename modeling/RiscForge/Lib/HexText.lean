import RiscForge.Lib.PyStr

/-! Hexadecimal numbers in text: what `hexPad` prints, one number a line, reads back. -/
namespace RiscForge.Lib

section Digits

/-- A lowercase hexadecimal digit. -/
def IsHex (c : Char) : Prop := ∃ d < 16, c = Nat.digitChar d

theorem IsHex.cases {P : Char → Prop} {c : Char} (h : IsHex c)
    (hp : ∀ d : Fin 16, P (Nat.digitChar d)) : P c := by
  obtain ⟨d, hd, rfl⟩ := h
  exact hp ⟨d, hd⟩

theorem digitVal_digitChar {d : ℕ} (hd : d < 16) : digitVal 16 (Nat.digitChar d) = some d := by
  have h : ∀ d : Fin 16, digitVal 16 (Nat.digitChar d) = some d.val := by decide
  exact h ⟨d, hd⟩

theorem digitsVal_concat (b : ℕ) (cs : List Char) (c : Char) :
    digitsVal b (cs ++ [c]) =
      (digitsVal b cs).bind fun v => (digitVal b c).map (v * b + ·) := by
  simp [digitsVal, List.foldlM_append]

theorem digitsVal_toDigits (n : ℕ) : digitsVal 16 (Nat.toDigits 16 n) = some n := by
  induction n using Nat.strong_induction_on with
  | _ n ih =>
    rw [Nat.toDigits_eq_if (by omega)]
    split
    case isTrue h =>
      simp [digitsVal, digitVal_digitChar h]
    case isFalse h =>
      rw [digitsVal_concat, ih (n / 16) (by omega), digitVal_digitChar (Nat.mod_lt n (by omega))]
      simp only [Option.bind_some, Option.map_some, Option.some.injEq]
      omega

/-- Leading zeros do not count. -/
theorem digitsVal_zeros (k : ℕ) (cs : List Char) :
    digitsVal 16 (List.replicate k '0' ++ cs) = digitsVal 16 cs := by
  induction k with
  | zero => rfl
  | succ k ih =>
    rw [← ih, List.replicate_succ, List.cons_append]
    rfl

theorem isHex_toDigits (n : ℕ) : ∀ c ∈ Nat.toDigits 16 n, IsHex c := by
  induction n using Nat.strong_induction_on with
  | _ n ih =>
    rw [Nat.toDigits_eq_if (by omega)]
    split
    case isTrue h =>
      intro c hc
      exact ⟨n, h, List.mem_singleton.mp hc⟩
    case isFalse h =>
      intro c hc
      rcases List.mem_append.mp hc with hc | hc
      · exact ih (n / 16) (by omega) c hc
      · exact ⟨n % 16, Nat.mod_lt n (by omega), List.mem_singleton.mp hc⟩

end Digits

section Print
variable (w n : ℕ)

/-- The characters of a padded number. -/
def hexChars : List Char :=
  List.replicate (w - (Nat.toDigits 16 n).length) '0' ++ Nat.toDigits 16 n

theorem toList_hexPad : (hexPad w (n : ℤ)).toList = hexChars w n := by
  rw [hexPad, Int.natAbs_natCast, if_neg (by omega), String.toList_ofList, hexChars]

variable {w n}

theorem isHex_hexChars {c : Char} (h : c ∈ hexChars w n) : IsHex c := by
  rcases List.mem_append.mp h with h | h
  · exact ⟨0, by omega, (List.mem_replicate.mp h).2⟩
  · exact isHex_toDigits n c h

theorem hexChars_ne_nil : hexChars w n ≠ [] := by
  simp [hexChars]

end Print

section Read
variable {py : Python} {cs : List Char}

theorem IsHex.not_space {c : Char} (h : IsHex c) : isSpace c = false := by
  apply h.cases
  decide

theorem IsHex.not_blank {c : Char} (h : IsHex c) : isBlank c = false := by
  apply h.cases
  decide

theorem IsHex.ascii {c : Char} (h : IsHex c) : isAscii c = true := by
  apply h.cases
  decide

theorem IsHex.not_mark {c : Char} (h : IsHex c) : c ≠ '-' ∧ c ≠ '+' ∧ c ≠ '_' ∧ c.toLower ≠ 'x' := by
  apply h.cases
  decide

theorem dropWhile_of_none {α : Type} {p : α → Bool} {l : List α} (h : ∀ x ∈ l, p x = false) :
    l.dropWhile p = l := by
  cases l with
  | nil => rfl
  | cons x l => rw [List.dropWhile_cons, h x (List.mem_cons_self ..), if_neg (by simp)]

theorem rdropWhile_of_none {α : Type} {p : α → Bool} {l : List α} (h : ∀ x ∈ l, p x = false) :
    l.rdropWhile p = l := by
  rw [List.rdropWhile, dropWhile_of_none (by simpa using h), List.reverse_reverse]

theorem splitSign_hex (h : ∀ c ∈ cs, IsHex c) : splitSign cs = (false, cs) := by
  cases cs with
  | nil => rfl
  | cons c cs =>
    obtain ⟨h1, h2, -⟩ := (h c (List.mem_cons_self ..)).not_mark
    unfold splitSign
    split <;> simp_all

theorem dropBasePrefix_hex (h : ∀ c ∈ cs, IsHex c) : dropBasePrefix 16 cs = cs := by
  unfold dropBasePrefix
  split
  next c cs =>
    have hx := (h c (by simp)).not_mark.2.2.2
    rw [if_neg (by simp [hx])]
  next => rfl

/-- A string of digits without a base prefix is read as their value, unless it is too long. -/
theorem pyInt_digits {b : ℕ} (h : ∀ c ∈ cs, IsHex c) (hne : cs ≠ [])
    (hb : dropBasePrefix b cs = cs) :
    pyInt py b cs = if b = 10 ∧ intMaxStrDigits < cs.length then none
      else (digitsVal b cs).map fun v : ℕ => (v : ℤ) := by
  have hascii : toAscii py cs = cs := by
    rw [toAscii, if_pos]
    simpa using fun c hc => (h c hc).ascii
  have hunder : '_' ∉ cs := fun hc => (h _ hc).not_mark.2.2.1 rfl
  simp only [pyInt, hascii, dropWhile_of_none fun c hc => (h c hc).not_blank, splitSign_hex h,
    hb, rdropWhile_of_none fun c hc => (h c hc).not_blank, List.splitOn_eq_singleton hunder]
  simp [hne, Option.map_eq_bind]

/-- A string of hexadecimal digits is read as their value. -/
theorem pyInt_hex (h : ∀ c ∈ cs, IsHex c) (hne : cs ≠ []) :
    pyInt py 16 cs = (digitsVal 16 cs).map fun v : ℕ => (v : ℤ) := by
  rw [pyInt_digits h hne (dropBasePrefix_hex h), if_neg (by simp)]

theorem isHex_of_isDigit {c : Char} (h : c.isDigit = true) : IsHex c := by
  have hr : 48 ≤ c.toNat ∧ c.toNat ≤ 57 := Char.isDigit_iff_toNat.mp h
  have hc : ∀ d : Fin 10, Char.ofNat (d.val + 48) = Nat.digitChar d.val := by decide
  refine ⟨c.toNat - 48, by omega, ?_⟩
  have hd := hc ⟨c.toNat - 48, by omega⟩
  rwa [Nat.sub_add_cancel hr.1, Char.ofNat_toNat] at hd

/-- A string of decimal digits is read as their value, unless it is too long. -/
theorem pyInt_isDigit (h : cs.all Char.isDigit = true) (hne : cs ≠ []) :
    pyInt py 10 cs = if intMaxStrDigits < cs.length then none
      else (digitsVal 10 cs).map fun v : ℕ => (v : ℤ) := by
  have hb : dropBasePrefix 10 cs = cs := by
    unfold dropBasePrefix
    split
    next => rw [if_neg (by simp)]
    next => rfl
  rw [pyInt_digits (fun c hc => isHex_of_isDigit (List.all_eq_true.mp h c hc)) hne hb]
  simp only [true_and]

theorem digitVal_isDigit {c : Char} (h : c.isDigit = true) :
    digitVal 10 c = some (c.toNat - 48) := by
  have hr : 48 ≤ c.toNat ∧ c.toNat ≤ 57 := Char.isDigit_iff_toNat.mp h
  simp only [digitVal, hr, and_self, if_true]
  rw [if_pos (by omega)]

theorem digitsVal_isDigit (h : cs.all Char.isDigit = true) : ∃ v, digitsVal 10 cs = some v := by
  unfold digitsVal
  generalize 0 = acc
  induction cs generalizing acc with
  | nil => exact ⟨acc, rfl⟩
  | cons c cs ih =>
    rw [List.all_cons, Bool.and_eq_true] at h
    rw [List.foldlM_cons, digitVal_isDigit h.1]
    exact ih h.2 _

theorem pyInt_decimal_eq_none (h : cs.all Char.isDigit = true) (hne : cs ≠ []) :
    pyInt py 10 cs = none ↔ intMaxStrDigits < cs.length := by
  obtain ⟨v, hv⟩ := digitsVal_isDigit h
  rw [pyInt_isDigit h hne, hv]
  split <;> simp [*]

/-- A string of decimal digits that is read is read as their value. -/
theorem pyInt_decimal {n : ℤ} (h : cs.all Char.isDigit = true) (hne : cs ≠ [])
    (hn : pyInt py 10 cs = some n) : digitsVal 10 cs = some n.toNat := by
  rw [pyInt_isDigit h hne] at hn
  split at hn
  · cases hn
  · obtain ⟨v, hv, rfl⟩ := Option.map_eq_some_iff.mp hn
    rw [hv, Int.toNat_natCast]

theorem pyInt_hexChars (w n : ℕ) : pyInt py 16 (hexChars w n) = some (n : ℤ) := by
  rw [pyInt_hex (fun c hc => isHex_hexChars hc) hexChars_ne_nil, hexChars, digitsVal_zeros,
    digitsVal_toDigits]
  rfl

theorem strip_hexPad (w n : ℕ) : (strip (hexPad w (n : ℤ))).toList = hexChars w n := by
  have hs : ∀ c ∈ hexChars w n, isSpace c = false := fun c hc => (isHex_hexChars hc).not_space
  rw [strip, String.toList_ofList, stripChars, toList_hexPad, dropWhile_of_none hs,
    rdropWhile_of_none hs]

end Read

section Words

theorem wordsFrom_append {w : List Char} (h : ∀ c ∈ w, isSpace c = false) (cur rest : List Char) :
    wordsFrom cur (w ++ rest) = wordsFrom (w.reverse ++ cur) rest := by
  induction w generalizing cur with
  | nil => rfl
  | cons c w ih =>
    rw [List.cons_append, wordsFrom, h c (List.mem_cons_self ..), if_neg (by simp),
      ih fun d hd => h d (List.mem_cons_of_mem c hd)]
    simp

/-- The words of a text with one word a line. -/
theorem wordsFrom_lines {ws : List String}
    (h : ∀ w ∈ ws, w.toList ≠ [] ∧ ∀ c ∈ w.toList, isSpace c = false) :
    wordsFrom [] (ws.flatMap fun w => w.toList ++ ['\n']) = ws := by
  induction ws with
  | nil => rfl
  | cons w ws ih =>
    obtain ⟨hne, hs⟩ := h w (List.mem_cons_self ..)
    rw [List.flatMap_cons, List.append_assoc, wordsFrom_append hs]
    simp only [List.append_nil, List.singleton_append]
    rw [wordsFrom, if_pos (by decide), if_neg (by simpa using hne), List.reverse_reverse,
      String.ofList_toList, ih fun v hv => h v (List.mem_cons_of_mem w hv)]

end Words
end RiscForge.Lib
