import RiscForge.Lib.Sprinkle
import RiscForge.Gate.EncodingCheck

/-! Comments on lines of their own, and the parser of enumerations, which does not see them. -/
namespace RiscForge.Gate

open Lib

section Texts

/-- Lines, each ended by a newline. -/
def unlines (lines : List (List Char)) : List Char := lines.flatMap (· ++ ['\n'])

/-- A line with nothing but a comment. -/
def IsComment (line : List Char) : Prop :=
  ∃ blanks content, line = blanks ++ '/' :: '/' :: content ∧ (∀ c ∈ blanks, c = ' ' ∨ c = '\t') ∧
    '\n' ∉ content

/-- The second text is the first with comments put in as further lines. -/
def Commented (P : List Char → Prop) (text text' : String) : Prop :=
  ∃ lines lines' tail, text = String.ofList (unlines lines ++ tail) ∧
    text' = String.ofList (unlines lines' ++ tail) ∧ Sprinkled P lines lines'

/-- A comment that is a single line for `str.splitlines` as well. -/
structure PlainComment (line : List Char) : Prop where
  comment : IsComment line
  unbroken : ∀ c ∈ line, isLineBreak c = false

end Texts

section Lines
variable {cur cs rest line : List Char} {lines lines' : List (List Char)} {tail : List Char}

theorem linesFrom_cons {c : Char} (h : c = '\r' → cs.head? ≠ some '\n') :
    linesFrom cur (c :: cs) =
      if isLineBreak c then String.ofList cur.reverse :: linesFrom [] cs
      else linesFrom (c :: cur) cs := by
  rw [linesFrom]
  rintro rest rfl rfl
  exact h rfl rfl

/-- A newline ends a line, whatever comes before it. -/
theorem linesFrom_newline :
    linesFrom cur (cs ++ '\n' :: rest) = linesFrom cur (cs ++ ['\n']) ++ linesFrom [] rest := by
  fun_induction linesFrom cur cs with
  | case1 cur h => rfl
  | case2 cur h => rfl
  | case3 cur cs ih =>
    simp only [List.cons_append, linesFrom]
    rw [ih]
  | case4 cur c cs hcr hb ih =>
    by_cases hc : c = '\r' ∧ cs = []
    · obtain ⟨rfl, rfl⟩ := hc
      rfl
    · have hh : ∀ l, c = '\r' → (cs ++ '\n' :: l).head? ≠ some '\n' := by
        intro l hr hd
        cases cs with
        | nil => exact hc ⟨hr, rfl⟩
        | cons d cs =>
          obtain rfl : d = '\n' := Option.some.inj hd
          exact hcr cs hr rfl
      rw [List.cons_append, List.cons_append, linesFrom_cons (hh rest), linesFrom_cons (hh []),
        if_pos hb, if_pos hb, ih]
      rfl
  | case5 cur c cs hcr hb ih =>
    have hh : ∀ l, c = '\r' → (cs ++ '\n' :: l).head? ≠ some '\n' := by
      rintro l rfl
      exact absurd rfl hb
    rw [List.cons_append, List.cons_append, linesFrom_cons (hh rest), linesFrom_cons (hh []),
      if_neg hb, if_neg hb, ih]

theorem splitlines_unlines :
    splitlines (String.ofList (unlines lines ++ tail)) =
      lines.flatMap (fun l => linesFrom [] (l ++ ['\n'])) ++ linesFrom [] tail := by
  unfold splitlines
  rw [String.toList_ofList]
  induction lines with
  | nil => rfl
  | cons l lines ih =>
    rw [unlines, List.flatMap_cons, List.flatMap_cons, List.append_assoc, List.append_assoc,
      List.append_assoc, ← ih]
    exact linesFrom_newline

theorem linesFrom_unbroken (h : ∀ c ∈ cs, isLineBreak c = false) :
    linesFrom cur (cs ++ ['\n']) = [String.ofList (cur.reverse ++ cs)] := by
  induction cs generalizing cur with
  | nil => simp [linesFrom, isLineBreak]
  | cons c cs ih =>
    obtain ⟨hc, h⟩ := List.forall_mem_cons.mp h
    have hr : c = '\r' → (cs ++ ['\n']).head? ≠ some '\n' := by
      rintro rfl
      cases hc
    rw [List.cons_append, linesFrom_cons hr, if_neg (by simp [hc]), ih h]
    simp

/-- A line that no parser of enumerations looks at. -/
def IsCommentLine (line : String) : Prop :=
  ∃ blanks content, line.toList = blanks ++ '/' :: '/' :: content ∧ ∀ c ∈ blanks, c = ' ' ∨ c = '\t'

theorem sprinkled_splitlines {text text' : String} (h : Commented PlainComment text text') :
    Sprinkled IsCommentLine (splitlines text) (splitlines text') := by
  obtain ⟨lines, lines', tail, rfl, rfl, hs⟩ := h
  rw [splitlines_unlines, splitlines_unlines]
  refine (hs.flatMap fun l hl b hb => ?_).append (.refl _)
  rw [linesFrom_unbroken hl.unbroken, List.mem_singleton] at hb
  obtain ⟨blanks, content, rfl, hblank, -⟩ := hl.comment
  exact ⟨blanks, content, by simp [hb], hblank⟩

end Lines

section Enums
variable {py : Python} {wide : Char → Bool} {typedefName line : String} {members d : Dict}
  {lines lines' : List String}

/-- The first character that is no blank is the slash. -/
theorem isCommentLine_first {taken rest : List Char} {c : Char} (h : IsCommentLine line)
    (he : line.toList = taken ++ c :: rest) (ht : ∀ x ∈ taken, isSpace x = true)
    (hc : isSpace c = false) : c = '/' := by
  obtain ⟨blanks, content, hl, hb⟩ := h
  have hblank : ∀ x ∈ blanks, isSpace x = true := by
    intro x hx
    rcases hb x hx with rfl | rfl <;> rfl
  exact (Pattern.run_unique (he.symm.trans hl) ht hblank hc rfl).2.1

theorem isCommentLine_closes (h : IsCommentLine line) : closes typedefName line = false := by
  rw [Bool.eq_false_iff, closes, Ne, Pattern.matches?_iff]
  rintro ⟨_, rest, hm⟩
  simp only [closePat, Pattern.mem_bind, Pattern.mem_star, Pattern.mem_lit] at hm
  obtain ⟨taken, _, ⟨he, ht⟩, _, _, rfl, -⟩ := hm
  cases isCommentLine_first h he ht rfl

theorem isCommentLine_opens (h : IsCommentLine line) : opens wide line = false := by
  rw [Bool.eq_false_iff, opens, Ne, Pattern.matches?_iff]
  rintro ⟨_, rest, hm⟩
  simp only [openPat, Pattern.mem_bind, Pattern.mem_star, Pattern.mem_lit] at hm
  obtain ⟨taken, _, ⟨he, ht⟩, _, _, rfl, -⟩ := hm
  cases isCommentLine_first h he ht rfl

theorem dropLineComment_comment {blanks content : List Char}
    (hb : ∀ c ∈ blanks, c = ' ' ∨ c = '\t') :
    dropLineComment (blanks ++ '/' :: '/' :: content) = blanks := by
  induction blanks with
  | nil => rfl
  | cons c blanks ih =>
    obtain ⟨hc, ht⟩ := List.forall_mem_cons.mp hb
    rcases hc with rfl | rfl <;> simp [dropLineComment, ih ht]

theorem isCommentLine_addMember (h : IsCommentLine line) :
    addMember py typedefName members line = .ok members := by
  obtain ⟨blanks, content, hl, hb⟩ := h
  have hs : strip (String.ofList blanks) = "" := by
    have hd : blanks.dropWhile isSpace = [] := by
      refine List.dropWhile_eq_nil_iff.mpr fun c hc => ?_
      rcases hb c hc with rfl | rfl <;> rfl
    rw [strip, String.toList_ofList, stripChars, hd]
    rfl
  have ht : memberText line = "" := by
    rw [memberText, hl, dropLineComment_comment hb, hs]
    rfl
  rw [addMember, ht]
  rfl

/-- The lines of an enumeration: what is before it, its opening line, its members, its closing
line and what is after it. -/
structure EnumAt (wide : Char → Bool) (typedefName : String) (lines pre : List String)
    (opener : String) (body : List String) (closer : String) (post : List String) : Prop where
  lines_eq : lines = pre ++ opener :: (body ++ closer :: post)
  opener_opens : opens wide opener = true
  closer_closes : closes typedefName closer = true
  body_open : ∀ l ∈ body, opens wide l = false
  before : ∀ l ∈ pre ++ opener :: body, closes typedefName l = false

/-- The last index below `n` with a property. -/
theorem find?_reverse_range {p : ℕ → Bool} {n i : ℕ} : (List.range n).reverse.find? p = some i ↔
    i < n ∧ p i = true ∧ ∀ j, i < j → j < n → p j = false := by
  induction n with
  | zero => simp
  | succ n ih =>
    rw [List.range_succ, List.reverse_append, List.reverse_singleton, List.singleton_append,
      List.find?_cons]
    split
    case h_1 hp =>
      rw [Option.some.injEq]
      constructor
      · rintro rfl
        exact ⟨Nat.lt_succ_self _, hp, fun j h1 h2 => by omega⟩
      · rintro ⟨h1, -, h3⟩
        by_contra hne
        rw [h3 n (by omega) (Nat.lt_succ_self n)] at hp
        cases hp
    case h_2 hp =>
      rw [ih]
      constructor
      · rintro ⟨h1, h2, h3⟩
        refine ⟨by omega, h2, fun j h4 h5 => ?_⟩
        rcases Nat.lt_succ_iff_lt_or_eq.mp h5 with h | rfl
        · exact h3 j h4 h
        · exact hp
      · rintro ⟨h1, h2, h3⟩
        rcases Nat.lt_succ_iff_lt_or_eq.mp h1 with h | rfl
        · exact ⟨h, h2, fun j h4 h5 => h3 j h4 (by omega)⟩
        · rw [hp] at h2
          cases h2

theorem eq_take_append {α : Type} {l : List α} {i : ℕ} (h : i < l.length) :
    l = l.take i ++ l[i] :: l.drop (i + 1) := by
  rw [List.getElem_cons_drop, List.take_append_drop]

theorem enumOfLines_enumAt (h : enumOfLines py wide typedefName lines = .ok d) :
    ∃ pre opener body closer post, EnumAt wide typedefName lines pre opener body closer post ∧
      body.foldlM (addMember py typedefName) [] = .ok d := by
  unfold enumOfLines at h
  split at h
  case h_1 => cases h
  case h_2 c hc =>
    obtain ⟨hlt, hcl, hbefore⟩ := List.findIdx?_eq_some_iff_getElem.mp hc
    split at h
    case h_1 => cases h
    case h_2 o ho =>
      obtain ⟨hoc, hop, hbody⟩ := find?_reverse_range.mp ho
      have hget : ∀ j (hj : j < (lines.take c).length), (lines.take c)[j] = lines.getD j "" := by
        intro j hj
        rw [List.getElem_take, List.getD_eq_getElem]
      have hol : o < (lines.take c).length := by
        rw [List.length_take]
        omega
      refine ⟨(lines.take c).take o, (lines.take c)[o], _, lines[c], lines.drop (c + 1), ?_, h⟩
      have hsplit := eq_take_append hol
      constructor
      · rw [← List.cons_append, ← List.append_assoc, ← hsplit]
        exact eq_take_append hlt
      · rw [hget]
        exact hop
      · exact hcl
      · intro l hl
        obtain ⟨j, hj, rfl⟩ := List.mem_iff_getElem.mp hl
        rw [List.getElem_drop, hget]
        refine hbody _ (by omega) ?_
        rw [List.length_drop, List.length_take] at hj
        omega
      · rw [← hsplit]
        intro l hl
        obtain ⟨j, hj, rfl⟩ := List.mem_iff_getElem.mp hl
        rw [List.getElem_take]
        rw [List.length_take] at hj
        simpa using hbefore j (by omega)

theorem EnumAt.enumOfLines {pre body post : List String} {opener closer : String}
    (h : EnumAt wide typedefName lines pre opener body closer post) :
    enumOfLines py wide typedefName lines = body.foldlM (addMember py typedefName) [] := by
  have hl : lines = (pre ++ opener :: body) ++ closer :: post := by
    rw [h.lines_eq, List.append_assoc, List.cons_append]
  have hc : lines.findIdx? (closes typedefName) = some (pre ++ opener :: body).length := by
    rw [hl, List.findIdx?_append, List.findIdx?_eq_none_iff.mpr h.before, List.findIdx?_cons,
      if_pos h.closer_closes]
    simp
  have ho : ((List.range (pre ++ opener :: body).length).reverse.find? fun i =>
      opens wide (lines.getD i "")) = some pre.length := by
    refine find?_reverse_range.mpr ⟨by simp, ?_, fun j h1 h2 => ?_⟩
    · rw [h.lines_eq, List.getD_append_right _ _ _ _ le_rfl, Nat.sub_self]
      exact h.opener_opens
    · obtain ⟨k, rfl⟩ := Nat.exists_eq_add_of_lt h1
      have hk : k < body.length := by
        simp only [List.length_append, List.length_cons] at h2
        omega
      rw [h.lines_eq, List.getD_append_right _ _ _ _ (by omega),
        show pre.length + k + 1 - pre.length = k + 1 by omega, List.getD_cons_succ,
        List.getD_append _ _ _ _ hk, List.getD_eq_getElem _ _ hk]
      exact h.body_open _ (List.getElem_mem hk)
  unfold Gate.enumOfLines
  rw [hc]
  dsimp only
  rw [ho]
  dsimp only
  rw [hl, List.take_left, List.drop_length_add_append]
  rfl

/-- Comments between the lines of a text do not change its enumerations. -/
theorem enumOfLines_sprinkled (hs : Sprinkled IsCommentLine lines lines')
    (h : enumOfLines py wide typedefName lines = .ok d) :
    enumOfLines py wide typedefName lines' = .ok d := by
  obtain ⟨pre, opener, body, closer, post, hat, hd⟩ := enumOfLines_enumAt h
  rw [hat.lines_eq] at hs
  obtain ⟨pre', rest, rfl, hpre, hs⟩ := hs.append_left
  obtain ⟨new, rest, rfl, hnew, hs⟩ := hs.cons_left
  obtain ⟨body', rest, rfl, hbody, hs⟩ := hs.append_left
  obtain ⟨new', post', rfl, hnew', -⟩ := hs.cons_left
  have hpre' : Sprinkled IsCommentLine pre (pre' ++ new) := by
    simpa using hpre.append (.of_forall hnew)
  have hbody' : Sprinkled IsCommentLine body (body' ++ new') := by
    simpa using hbody.append (.of_forall hnew')
  have hat' : EnumAt wide typedefName
      (pre' ++ (new ++ opener :: (body' ++ (new' ++ closer :: post')))) (pre' ++ new) opener
      (body' ++ new') closer post' :=
    { lines_eq := by simp
      opener_opens := hat.opener_opens
      closer_closes := hat.closer_closes
      body_open := hbody'.forall_mem (fun _ hl => isCommentLine_opens hl) hat.body_open
      before := (hpre'.append (.keep opener hbody')).forall_mem
        (fun _ hl => isCommentLine_closes hl) hat.before }
  rw [hat'.enumOfLines, ← hd]
  exact hbody'.foldlM_eq (fun members _ hl => isCommentLine_addMember hl) []

theorem parseSvEnum_commented {text text' : String} (hc : Commented PlainComment text text')
    (h : parseSvEnum py wide text typedefName = .ok d) :
    parseSvEnum py wide text' typedefName = .ok d :=
  enumOfLines_sprinkled (sprinkled_splitlines hc) h

end Enums
end RiscForge.Gate
