import RiscForge.Gate.Comments

/-! Constants that are defined on one line, and comments that define none. -/
namespace RiscForge.Gate

open Lib

section Matches
variable {name : String} {val rest cs mid mid' : List Char}

/-- What the names of constants are made of. -/
def IsName (name : String) : Prop := ∀ c ∈ name.toList, isSpace c = false

theorem mem_localparamPat : (val, rest) ∈ localparamPat name cs ↔ ∃ blanks mid mid' w w',
    cs = "localparam".toList ++ (blanks ++ mid) ∧ blanks ≠ [] ∧ (∀ c ∈ blanks, isSpace c = true) ∧
    (((), mid') ∈ logicType mid ∨ ((), mid') ∈ intType mid ∨ mid' = mid) ∧
    mid' = name.toList ++ (w ++ '=' :: (w' ++ (val ++ ';' :: rest))) ∧
    (∀ c ∈ w, isSpace c = true) ∧ (∀ c ∈ w', isSpace c = true) ∧ val ≠ [] ∧ ∀ c ∈ val, c ≠ ';' := by
  simp only [localparamPat, Pattern.mem_bind, Pattern.mem_lit, Pattern.mem_plus, Pattern.mem_opt,
    Pattern.mem_alt, Pattern.mem_star, Pattern.mem_pure, bne_iff_ne]
  constructor
  · rintro ⟨-, _, rfl, blanks, mid, ⟨rfl, hne, hb⟩, ⟨⟩, mid', ht, -, _, hn, w, _, ⟨rfl, hw⟩, -, _,
      rfl, w', _, ⟨rfl, hw'⟩, v, _, ⟨rfl, hv, hs⟩, -, _, rfl, rfl, rfl⟩
    exact ⟨blanks, mid, mid', w, w', rfl, hne, hb, or_assoc.mp ht, by simpa using hn, hw, hw', hv, hs⟩
  · rintro ⟨blanks, mid, mid', w, w', rfl, hne, hb, ht, hn, hw, hw', hv, hs⟩
    exact ⟨(), _, rfl, blanks, mid, ⟨rfl, hne, hb⟩, (), mid', or_assoc.mpr ht, (), _, hn, w, _,
      ⟨rfl, hw⟩, (), _, rfl, w', _, ⟨rfl, hw'⟩, val, _, ⟨rfl, hv, hs⟩, (), _, rfl, rfl, rfl⟩

theorem mem_intType : ((), mid') ∈ intType mid ↔ ∃ blanks, mid = "int".toList ++ (blanks ++ mid') ∧
    blanks ≠ [] ∧ ∀ c ∈ blanks, isSpace c = true := by
  simp only [intType, Pattern.mem_bind, Pattern.mem_lit, Pattern.mem_plus, Pattern.mem_pure]
  constructor
  · rintro ⟨-, _, rfl, blanks, _, ⟨rfl, hne, hb⟩, -, rfl⟩
    exact ⟨blanks, rfl, hne, hb⟩
  · rintro ⟨blanks, rfl, hne, hb⟩
    exact ⟨(), _, rfl, blanks, _, ⟨rfl, hne, hb⟩, trivial, rfl⟩

theorem mem_logicType_head (h : ((), mid') ∈ logicType mid) : mid.head? = some 'l' := by
  simp only [logicType, Pattern.mem_bind, Pattern.mem_lit] at h
  obtain ⟨-, _, rfl, -⟩ := h
  rfl

end Matches

section Closed
variable {name : String} {t taken mid ext : List Char}

/-- A definition that ends where it is: there is a `;`, and a `]` for each `[` before it. -/
def Closed (t : List Char) : Prop :=
  ∃ u v, t = u ++ ';' :: v ∧ ∀ s, '[' :: s <:+ u → ']' ∈ s

theorem Closed.mem (h : Closed t) : ';' ∈ t := by
  obtain ⟨u, v, rfl, -⟩ := h
  simp

theorem Closed.append (h : Closed t) : Closed (t ++ ext) := by
  obtain ⟨u, v, rfl, hb⟩ := h
  exact ⟨u, v ++ ext, by simp, hb⟩

theorem Closed.of_append (h : Closed (taken ++ mid)) (ht : ';' ∉ taken) : Closed mid := by
  obtain ⟨u, v, he, hb⟩ := h
  rcases List.append_eq_append_iff.mp he with ⟨z, rfl, rfl⟩ | ⟨z, rfl, hz⟩
  · exact ⟨z, v, rfl, fun s hs => hb s (hs.trans (List.suffix_append _ _))⟩
  · cases z with
    | nil => exact ⟨[], v, by simpa using hz.symm, fun s hs => by simp at hs⟩
    | cons c z =>
      obtain ⟨rfl, -⟩ := List.cons.inj hz
      simp at ht

/-- Between brackets, the first `]` comes before the `;`. -/
theorem Closed.of_brackets (h : Closed ('[' :: (taken ++ mid))) (ht : ']' ∉ taken) :
    ']' ∈ mid ∧ Closed mid := by
  obtain ⟨u, v, he, hb⟩ := h
  cases u with
  | nil => cases he
  | cons c u =>
    obtain ⟨rfl, ht'⟩ := List.cons.inj he
    have hu : ']' ∈ u := hb u List.suffix_rfl
    rcases List.append_eq_append_iff.mp ht' with ⟨z, rfl, rfl⟩ | ⟨z, rfl, -⟩
    · have hz : ']' ∈ z := (List.mem_append.mp hu).resolve_left ht
      refine ⟨List.mem_append_left _ hz, z, v, rfl, fun s hs => hb s ?_⟩
      exact hs.trans ((List.suffix_append _ _).trans (List.suffix_cons _ _))
    · exact absurd (List.mem_append_left _ hu) ht

theorem settles_lit {text : List Char} (h : ';' ∉ text) : Pattern.Settles Closed (.lit text) := by
  intro t ht
  refine ⟨Pattern.local_lit ⟨';', ht.mem, h⟩, fun _ mid hm => ?_⟩
  obtain rfl := Pattern.mem_lit.mp hm
  exact ht.of_append h

section Runs
variable {p : Char → Bool}

theorem settles_star (h : p ';' = false) : Pattern.Settles Closed (.star p) := by
  intro t ht
  refine ⟨Pattern.local_star ⟨';', ht.mem, h⟩, fun taken mid hm => ?_⟩
  obtain ⟨rfl, hp⟩ := Pattern.mem_star.mp hm
  refine ht.of_append fun hs => ?_
  rw [hp _ hs] at h
  cases h

theorem settles_plus (h : p ';' = false) : Pattern.Settles Closed (.plus p) := by
  intro t ht
  refine ⟨Pattern.local_plus ⟨';', ht.mem, h⟩, fun taken mid hm => ?_⟩
  obtain ⟨rfl, -, hp⟩ := Pattern.mem_plus.mp hm
  refine ht.of_append fun hs => ?_
  rw [hp _ hs] at h
  cases h

end Runs

/-- The width of a type, which may not contain a `]` but may contain a `;`. -/
theorem settles_width {k : Pattern Unit} (hk : Pattern.Settles Closed k) :
    Pattern.Settles Closed (do
      Pattern.lit ['[']
      let _ ← Pattern.plus (· != ']')
      Pattern.lit [']']
      k) := by
  have hrest : Pattern.Settles Closed (do
      Pattern.lit [']']
      k) := (settles_lit (by decide)).bind fun _ => hk
  have htake : ∀ inner taken mid, Closed ('[' :: inner) →
      (taken, mid) ∈ Pattern.plus (· != ']') inner → Closed mid := by
    intro inner taken mid ht hm
    obtain ⟨rfl, -, hp⟩ := Pattern.mem_plus.mp hm
    exact (ht.of_brackets fun hs => by simpa using hp _ hs).2
  intro t ht
  refine ⟨(settles_lit (by decide) t ht).1.bind fun _ inner hm => ?_, fun _ rest hm => ?_⟩
  · obtain rfl := Pattern.mem_lit.mp hm
    have ht' : Closed ('[' :: ([] ++ inner)) := ht
    have hin : ']' ∈ inner := (ht'.of_brackets (by simp)).1
    exact (Pattern.local_plus ⟨']', hin, rfl⟩).bind fun taken mid hm =>
      (hrest mid (htake inner taken mid ht hm)).1
  · rw [Pattern.mem_bind] at hm
    obtain ⟨_, inner, hl, hm⟩ := hm
    obtain rfl := Pattern.mem_lit.mp hl
    rw [Pattern.mem_bind] at hm
    obtain ⟨taken, mid, hp, hm⟩ := hm
    exact (hrest mid (htake inner taken mid ht hp)).2 _ rest hm

theorem settles_logicType : Pattern.Settles Closed logicType :=
  (settles_lit (by decide)).bind fun _ => (settles_star rfl).bind fun _ =>
    settles_width ((settles_plus rfl).bind fun _ => Pattern.settles_pure)

theorem settles_intType : Pattern.Settles Closed intType :=
  (settles_lit (by decide)).bind fun _ => (settles_plus rfl).bind fun _ => Pattern.settles_pure

theorem local_value (h : Closed t) : Pattern.Local (do
    let val ← Pattern.plus (· != ';')
    Pattern.lit [';']
    return val) t := by
  refine (Pattern.local_plus ⟨';', h.mem, rfl⟩).bind fun val rest hm => ?_
  obtain ⟨rfl, -, hv⟩ := Pattern.mem_plus.mp hm
  have hs : ';' ∈ rest := by
    refine (List.mem_append.mp h.mem).resolve_left fun hs => ?_
    simpa using hv _ hs
  have hlen : [';'].length ≤ rest.length := List.length_pos_of_mem hs
  exact (Pattern.local_lit_of_length hlen).bind fun _ _ _ => Pattern.local_pure

/-- A definition is matched without a look at what follows it. -/
theorem local_localparamPat (hs : ';' ∉ name.toList) (h : Closed t) :
    Pattern.Local (localparamPat name) ("localparam".toList ++ t) := by
  refine (Pattern.local_lit ⟨';', by simp [h.mem], by decide⟩).bind fun _ mid hm => ?_
  obtain rfl := List.append_cancel_left (Pattern.mem_lit.mp hm)
  have htype := (settles_logicType.alt settles_intType).opt
  exact (settles_plus rfl).local_bind (fun _ _ h => htype.local_bind (fun _ _ h =>
    (settles_lit hs).local_bind (fun _ _ h => (settles_star rfl).local_bind (fun _ _ h =>
      (settles_lit (by decide)).local_bind (fun _ _ h => (settles_star rfl).local_bind
        (fun _ _ h => local_value h) h) h) h) h) h) h

end Closed

section Lines
variable {name : String} {t ext line text tail : List Char} {lines lines' : List (List Char)}

/-- A word that is neither a type nor the name, as in a comment about constants. -/
def Idle (name : String) (t : List Char) : Prop :=
  ∃ blanks c rest, t = blanks ++ c :: rest ∧ (∀ x ∈ blanks, isSpace x = true) ∧ isSpace c = false ∧
    c ≠ 'l' ∧ c ≠ 'i' ∧ (name.toList ++ ['=']).head? ≠ some c

theorem Idle.append (h : Idle name t) : Idle name (t ++ ext) := by
  obtain ⟨blanks, c, rest, rfl, h⟩ := h
  exact ⟨blanks, c, rest ++ ext, by simp, h⟩

theorem localparamPat_idle (hn : IsName name) (h : Idle name t) :
    localparamPat name ("localparam".toList ++ t) = [] := by
  obtain ⟨blanks, c, rest, rfl, hb, hc, hl, hi, hh⟩ := h
  refine List.eq_nil_iff_forall_not_mem.mpr fun ⟨val, r⟩ hm => ?_
  obtain ⟨blanks', mid, mid', w, w', he, -, hb', ht, rfl, hw, -⟩ := mem_localparamPat.mp hm
  have he := List.append_cancel_left he
  have hfirst : ∀ d ds, mid = d :: ds → isSpace d = false → c = d := by
    rintro d ds rfl hd
    exact (Pattern.run_unique he hb hb' hc hd).2.1
  rcases ht with ht | ht | ht
  · cases mid with
    | nil => cases mem_logicType_head ht
    | cons d ds =>
      obtain rfl : d = 'l' := Option.some.inj (mem_logicType_head ht)
      exact hl (hfirst _ _ rfl rfl)
  · obtain ⟨_, rfl, -⟩ := mem_intType.mp ht
    exact hi (hfirst _ _ rfl rfl)
  · cases hname : name.toList with
    | nil =>
      rw [hname] at ht hh
      rw [← ht, List.nil_append, ← List.append_assoc] at he
      have hbw : ∀ x ∈ blanks' ++ w, isSpace x = true := by
        intro x hx
        exact (List.mem_append.mp hx).elim (hb' x) (hw x)
      obtain rfl := (Pattern.run_unique he hb hbw hc rfl).2.1
      exact hh rfl
    | cons d ds =>
      rw [hname] at ht hh
      obtain rfl := hfirst d _ ht.symm (hn d (hname ▸ List.mem_cons_self))
      exact hh rfl

/-- What the text says of constants ends on the line where it begins. -/
def OnOneLine (name : String) (text : List Char) : Prop :=
  ∀ r, "localparam".toList ++ r <:+ text →
    Closed (r.takeWhile (· != '\n')) ∨ Idle name (r.takeWhile (· != '\n'))

theorem OnOneLine.of_suffix (h : OnOneLine name text) (hs : t <:+ text) : OnOneLine name t :=
  fun r hr => h r (hr.trans hs)

theorem takeWhile_append_of_mem {p : Char → Bool} {c : Char} (hc : c ∈ t) (hp : p c = false) :
    (t ++ ext).takeWhile p = t.takeWhile p := by
  rw [List.takeWhile_append, if_neg]
  intro hl
  have he := (List.takeWhile_prefix p).eq_of_length hl
  rw [List.takeWhile_eq_self_iff.mp he c hc] at hp
  cases hp

theorem newline_mem_of_suffix (hs : t <:+ line ++ ['\n']) (hne : t ≠ []) : '\n' ∈ t := by
  rcases List.suffix_concat_iff.mp hs with rfl | ⟨u, rfl, -⟩
  · cases hne rfl
  · simp

theorem newline_mem_of_localparam (h : '\n' ∈ "localparam".toList ++ t) : '\n' ∈ t :=
  (List.mem_append.mp h).resolve_left (by decide)

theorem OnOneLine.of_line (h : OnOneLine name (line ++ '\n' :: ext)) :
    OnOneLine name (line ++ ['\n']) := by
  intro r hr
  have hnl : '\n' ∈ r := newline_mem_of_localparam (newline_mem_of_suffix hr (by simp))
  have ht : (r ++ ext).takeWhile (· != '\n') = r.takeWhile (· != '\n') :=
    takeWhile_append_of_mem hnl rfl
  rw [← ht]
  refine h _ ?_
  obtain ⟨u, hu⟩ := hr
  exact ⟨u, by rw [← List.append_assoc, ← List.append_assoc, List.append_assoc u, hu]; simp⟩

/-- No match of the search reaches from a line into the next one. -/
theorem local_of_onOneLine (hn : IsName name) (hs : ';' ∉ name.toList)
    (h : OnOneLine name (line ++ ['\n'])) (ht : t <:+ line ++ ['\n']) (hne : t ≠ []) :
    Pattern.Local (localparamPat name) t := by
  have hnl := newline_mem_of_suffix ht hne
  by_cases hp : "localparam".toList <+: t
  · obtain ⟨r, rfl⟩ := hp
    rw [← List.takeWhile_append_dropWhile (p := (· != '\n')) (l := r)]
    rcases h r ht with hc | hi
    · exact local_localparamPat hs hc.append
    · intro ext
      rw [List.append_assoc, localparamPat_idle hn hi.append, localparamPat_idle hn]
      · rfl
      · rw [List.append_assoc]
        exact hi.append
  · refine (Pattern.local_lit ⟨'\n', hnl, by decide⟩).bind fun _ mid hm => ?_
    exact absurd ⟨mid, (Pattern.mem_lit.mp hm).symm⟩ hp

theorem search_line (hn : IsName name) (hs : ';' ∉ name.toList)
    (h : OnOneLine name (line ++ ['\n'])) (ext : List Char) :
    (localparamPat name).search (line ++ '\n' :: ext) =
      ((localparamPat name).search (line ++ ['\n'])).or ((localparamPat name).search ext) := by
  rw [← Pattern.search_append_of_local rfl fun _ ht hne => local_of_onOneLine hn hs h ht hne,
    List.append_assoc, List.singleton_append]

/-- A comment that does not speak of constants. -/
structure Silent (line : List Char) : Prop extends PlainComment line where
  silent : ¬ "localparam".toList <:+: line

theorem Silent.not_suffix (h : Silent line) : ¬ "localparam".toList ++ t <:+ line ++ ['\n'] := by
  intro hs
  have hi : "localparam".toList <:+: line ++ ['\n'] :=
    (List.prefix_append _ t).isInfix.trans hs.isInfix
  rcases List.infix_concat_iff.mp hi with hc | hi
  · exact absurd (newline_mem_of_suffix hc (by decide)) (by decide)
  · exact h.silent hi

theorem Silent.search (h : Silent line) (hn : IsName name) (hs : ';' ∉ name.toList) :
    (localparamPat name).search (line ++ '\n' :: ext) = (localparamPat name).search ext := by
  have hnone : (localparamPat name).search (line ++ ['\n']) = none := by
    refine Pattern.search_eq_none fun t ht => List.eq_nil_iff_forall_not_mem.mpr ?_
    rintro ⟨val, rest⟩ hm
    obtain ⟨_, _, _, _, _, rfl, -⟩ := mem_localparamPat.mp hm
    exact h.not_suffix ht
  rw [search_line hn hs fun r hr => absurd hr h.not_suffix, hnone, Option.none_or]

/-- Comments that do not speak of constants do not change them. -/
theorem search_sprinkled (hn : IsName name) (hs : ';' ∉ name.toList)
    (h : Sprinkled Silent lines lines') (ho : OnOneLine name (unlines lines ++ tail)) :
    (localparamPat name).search (unlines lines' ++ tail) =
      (localparamPat name).search (unlines lines ++ tail) := by
  have hcons : ∀ line lines, unlines (line :: lines) ++ tail =
      line ++ '\n' :: (unlines lines ++ tail) := by
    simp [unlines]
  induction h with
  | nil => rfl
  | @keep line lines _ h ih =>
    rw [hcons] at ho
    have hext := (List.suffix_cons '\n' (unlines lines ++ tail)).trans (List.suffix_append line _)
    rw [hcons, hcons, search_line hn hs ho.of_line (unlines _ ++ tail),
      search_line hn hs ho.of_line (unlines _ ++ tail), ih (ho.of_suffix hext)]
  | add hline h ih => rw [hcons, hline.search hn hs, ih ho]

theorem parseSvLocalparam_commented {py : Python} {text text' : String} (hn : IsName name)
    (hs : ';' ∉ name.toList) (ho : OnOneLine name text.toList) (h : Commented Silent text text') :
    parseSvLocalparam py text' name = parseSvLocalparam py text name := by
  obtain ⟨lines, lines', tail, rfl, rfl, hl⟩ := h
  rw [String.toList_ofList] at ho
  rw [parseSvLocalparam, parseSvLocalparam, String.toList_ofList, String.toList_ofList,
    search_sprinkled hn hs hl ho]

end Lines
end RiscForge.Gate
