import Mathlib.Data.List.Basic

/-! Regular expressions with captures, matched by backtracking. -/
namespace RiscForge.Lib

/-- The ways in which a pattern matches the beginning of a text, in the order in which they are
tried: what is captured, and what is left of the text. -/
def Pattern (α : Type) := List Char → List (α × List Char)

namespace Pattern
variable {α β : Type}

instance : Monad Pattern where
  pure a := fun cs => [(a, cs)]
  bind x f := fun cs => (x cs).flatMap fun p => f p.1 p.2

/-- One character of a class. -/
def one (p : Char → Bool) : Pattern Char
  | [] => []
  | c :: cs => if p c then [(c, cs)] else []

/-- `[p]*`, which takes as much as it can first. -/
def star (p : Char → Bool) : Pattern (List Char)
  | [] => [([], [])]
  | c :: cs =>
    if p c then (star p cs).map (fun q => (c :: q.1, q.2)) ++ [([], c :: cs)]
    else [([], c :: cs)]

/-- `[p]+`. -/
def plus (p : Char → Bool) : Pattern (List Char) := do
  let c ← one p
  let cs ← star p
  return c :: cs

/-- A literal text. -/
def lit (text : List Char) : Pattern Unit := fun cs =>
  if text <+: cs then [((), cs.drop text.length)] else []

/-- `(x)?`, which is tried with `x` first. -/
def opt (x : Pattern Unit) : Pattern Unit := fun cs => x cs ++ [((), cs)]

def alt (x y : Pattern α) : Pattern α := fun cs => x cs ++ y cs

/-- The end of a word, for a pattern that has just matched a character of one: `\b`. -/
def wordEnd (isWord : Char → Bool) : Pattern Unit
  | [] => [((), [])]
  | c :: cs => if isWord c then [] else [((), c :: cs)]

/-- `re.match`: whether the pattern matches at the beginning. -/
def matches? (x : Pattern α) (cs : List Char) : Bool := !(x cs).isEmpty

/-- `re.fullmatch`. -/
def fullMatch (x : Pattern α) (cs : List Char) : Option α :=
  ((x cs).find? fun p => p.2.isEmpty).map Prod.fst

/-- `re.search`: the first way to match at the leftmost place where there is one. -/
def search (x : Pattern α) (cs : List Char) : Option α :=
  match x cs with
  | (a, _) :: _ => some a
  | [] =>
    match cs with
    | [] => none
    | _ :: cs => search x cs

section Rules
variable {x : Pattern α} {f : α → Pattern β} {a : α} {b : β} {c : Char} {p : Char → Bool}
  {cs text taken rest : List Char}

theorem mem_bind : (b, rest) ∈ (x >>= f) cs ↔ ∃ a mid, (a, mid) ∈ x cs ∧ (b, rest) ∈ f a mid := by
  change (b, rest) ∈ (x cs).flatMap _ ↔ _
  simp only [List.mem_flatMap, Prod.exists]

theorem mem_pure {a' : α} : (a', rest) ∈ (pure a : Pattern α) cs ↔ a' = a ∧ rest = cs := by
  change (a', rest) ∈ [(a, cs)] ↔ _
  simp

theorem mem_one : (c, rest) ∈ one p cs ↔ p c = true ∧ cs = c :: rest := by
  cases cs with
  | nil => simp [one]
  | cons d cs =>
    change (c, rest) ∈ (if p d then [(d, cs)] else []) ↔ _
    split
    case isTrue h =>
      simp only [List.mem_singleton, Prod.mk.injEq, List.cons.injEq]
      constructor
      · rintro ⟨rfl, rfl⟩
        exact ⟨h, rfl, rfl⟩
      · rintro ⟨-, rfl, rfl⟩
        exact ⟨rfl, rfl⟩
    case isFalse h =>
      simp only [List.not_mem_nil, List.cons.injEq, false_iff, not_and]
      rintro hc rfl
      exact absurd hc h

theorem mem_star : (taken, rest) ∈ star p cs ↔ cs = taken ++ rest ∧ ∀ c ∈ taken, p c = true := by
  induction cs generalizing taken with
  | nil =>
    simp only [star, List.mem_singleton, Prod.mk.injEq, List.nil_eq, List.append_eq_nil_iff]
    constructor
    · rintro ⟨rfl, rfl⟩
      exact ⟨⟨rfl, rfl⟩, nofun⟩
    · exact And.left
  | cons d cs ih =>
    rw [star]
    cases taken with
    | nil =>
      have hc : rest = d :: cs ↔ d :: cs = rest := eq_comm
      split <;> simp [hc]
    | cons c taken =>
      split
      case isTrue h =>
        simp only [List.mem_append, List.mem_map, Prod.exists, Prod.mk.injEq, List.cons.injEq,
          List.mem_singleton, reduceCtorEq, false_and, or_false, List.cons_append,
          List.forall_mem_cons]
        constructor
        · rintro ⟨t, r, hm, ⟨rfl, rfl⟩, rfl⟩
          obtain ⟨he, ha⟩ := ih.mp hm
          exact ⟨⟨rfl, he⟩, h, ha⟩
        · rintro ⟨⟨rfl, he⟩, -, ha⟩
          exact ⟨taken, rest, ih.mpr ⟨he, ha⟩, ⟨rfl, rfl⟩, rfl⟩
      case isFalse h =>
        simp only [List.mem_singleton, Prod.mk.injEq, reduceCtorEq, false_and, List.cons_append,
          List.cons.injEq, List.forall_mem_cons, false_iff]
        rintro ⟨⟨rfl, -⟩, hc, -⟩
        exact h hc

theorem mem_plus : (taken, rest) ∈ plus p cs ↔
    cs = taken ++ rest ∧ taken ≠ [] ∧ ∀ c ∈ taken, p c = true := by
  simp only [plus, mem_bind, mem_pure, mem_one, mem_star]
  constructor
  · rintro ⟨c, mid, ⟨hc, rfl⟩, t, r, ⟨rfl, ht⟩, rfl, rfl⟩
    exact ⟨rfl, by simp, List.forall_mem_cons.mpr ⟨hc, ht⟩⟩
  · rintro ⟨rfl, hne, ht⟩
    obtain ⟨c, t, rfl⟩ := List.exists_cons_of_ne_nil hne
    obtain ⟨hc, ht⟩ := List.forall_mem_cons.mp ht
    exact ⟨c, t ++ rest, ⟨hc, rfl⟩, t, rest, ⟨rfl, ht⟩, rfl, rfl⟩

theorem mem_lit {u : Unit} : (u, rest) ∈ lit text cs ↔ cs = text ++ rest := by
  unfold lit
  split
  case isTrue h =>
    obtain ⟨r, rfl⟩ := h
    simp [eq_comm]
  case isFalse h =>
    refine iff_of_false (List.not_mem_nil) ?_
    rintro rfl
    exact h (List.prefix_append _ _)

theorem mem_opt {y : Pattern Unit} {u : Unit} :
    (u, rest) ∈ opt y cs ↔ (u, rest) ∈ y cs ∨ rest = cs := by
  simp [opt]

theorem mem_alt {y : Pattern α} : (a, rest) ∈ alt x y cs ↔ (a, rest) ∈ x cs ∨ (a, rest) ∈ y cs :=
  List.mem_append

theorem matches?_iff : matches? x cs = true ↔ ∃ a rest, (a, rest) ∈ x cs := by
  simp only [matches?, Bool.not_eq_true', List.isEmpty_eq_false_iff_exists_mem, Prod.exists]

/-- Where all ways capture the same, the search finds it. -/
theorem search_eq_some (h : (a, rest) ∈ x cs) (hu : ∀ b r, (b, r) ∈ x cs → b = a) :
    search x cs = some a := by
  unfold search
  split
  case h_1 b r ps hx => rw [hu b r (hx ▸ List.mem_cons_self)]
  case h_2 hx =>
    rw [hx] at h
    cases h

theorem search_eq_none (h : ∀ s, s <:+ cs → x s = []) : search x cs = none := by
  induction cs with
  | nil => rw [search, h [] List.suffix_rfl]
  | cons c cs ih =>
    rw [search, h _ List.suffix_rfl]
    exact ih fun s hs => h s (hs.trans (List.suffix_cons _ _))

theorem search_cons (h : ∀ a r, (a, r) ∉ x (c :: cs)) : search x (c :: cs) = search x cs := by
  have hx : x (c :: cs) = [] := List.eq_nil_iff_forall_not_mem.mpr fun q => h q.1 q.2
  rw [search, hx]

/-- The search passes over what no match begins with. -/
theorem search_append {skipped : List Char} (h : ∀ c ∈ skipped, ∀ cs a r, (a, r) ∉ x (c :: cs)) :
    search x (skipped ++ rest) = search x rest := by
  induction skipped with
  | nil => rfl
  | cons c skipped ih =>
    obtain ⟨hc, h⟩ := List.forall_mem_cons.mp h
    rw [List.cons_append, search_cons (hc _), ih h]

/-- A run of characters of a class ends in one place. -/
theorem run_unique {as bs xs ys : List Char} {y z : Char} (h : as ++ y :: xs = bs ++ z :: ys)
    (ha : ∀ c ∈ as, p c = true) (hb : ∀ c ∈ bs, p c = true) (hy : p y = false) (hz : p z = false) :
    as = bs ∧ y = z ∧ xs = ys := by
  induction as generalizing bs with
  | nil =>
    cases bs with
    | nil =>
      obtain ⟨rfl, rfl⟩ := List.cons.inj h
      exact ⟨rfl, rfl, rfl⟩
    | cons b bs =>
      obtain ⟨rfl, -⟩ := List.cons.inj h
      rw [hb y List.mem_cons_self] at hy
      cases hy
  | cons a as ih =>
    cases bs with
    | nil =>
      obtain ⟨rfl, -⟩ := List.cons.inj h
      rw [ha a List.mem_cons_self] at hz
      cases hz
    | cons b bs =>
      obtain ⟨rfl, ht⟩ := List.cons.inj h
      obtain ⟨rfl, hr⟩ := ih ht (List.forall_mem_cons.mp ha).2 (List.forall_mem_cons.mp hb).2
      exact ⟨rfl, hr⟩

end Rules

section Locality
variable {x y : Pattern α} {f : α → Pattern β} {a : α} {p : Char → Bool}
  {cs text ext : List Char}

/-- What follows the text neither adds a way to match nor takes one away. -/
def Local (x : Pattern α) (cs : List Char) : Prop :=
  ∀ ext, x (cs ++ ext) = (x cs).map fun q => (q.1, q.2 ++ ext)

theorem local_pure : Local (pure a) cs := fun _ => rfl

theorem Local.bind (hx : Local x cs) (hf : ∀ a mid, (a, mid) ∈ x cs → Local (f a) mid) :
    Local (x >>= f) cs := by
  intro ext
  change (x (cs ++ ext)).flatMap (fun q => f q.1 q.2) =
    ((x cs).flatMap fun q => f q.1 q.2).map _
  rw [hx ext, List.flatMap_map, List.map_flatMap]
  exact List.flatMap_congr fun q hq => hf q.1 q.2 hq ext

theorem Local.alt (hx : Local x cs) (hy : Local y cs) : Local (alt x y) cs := by
  intro ext
  rw [Pattern.alt, Pattern.alt, hx ext, hy ext, List.map_append]

theorem Local.opt {x : Pattern Unit} (hx : Local x cs) : Local (opt x) cs := by
  intro ext
  rw [Pattern.opt, Pattern.opt, hx ext, List.map_append]
  rfl

theorem local_one (h : cs ≠ []) : Local (one p) cs := by
  intro ext
  obtain ⟨c, cs, rfl⟩ := List.exists_cons_of_ne_nil h
  rw [List.cons_append, one, one]
  split <;> rfl

/-- A run of characters ends where one stands that is not of the class. -/
theorem local_star (h : ∃ c ∈ cs, p c = false) : Local (star p) cs := by
  intro ext
  induction cs with
  | nil =>
    obtain ⟨_, hc, -⟩ := h
    cases hc
  | cons d cs ih =>
    rw [List.cons_append, star, star]
    split
    case isFalse => rfl
    case isTrue hd =>
      obtain ⟨c, hc, hp⟩ := h
      rcases List.mem_cons.mp hc with rfl | hc
      · rw [hd] at hp
        cases hp
      · simp [ih ⟨c, hc, hp⟩, Function.comp_def]

theorem local_plus (h : ∃ c ∈ cs, p c = false) : Local (plus p) cs := by
  obtain ⟨c, hc, hp⟩ := h
  refine (local_one (List.ne_nil_of_mem hc)).bind fun d mid hd => ?_
  obtain ⟨hpd, rfl⟩ := mem_one.mp hd
  refine (local_star ⟨c, ?_, hp⟩).bind fun _ _ _ => local_pure
  refine (List.mem_cons.mp hc).resolve_left ?_
  rintro rfl
  rw [hpd] at hp
  cases hp

theorem local_lit_of (h : ∀ ext, text <+: cs ++ ext → text <+: cs) : Local (lit text) cs := by
  intro ext
  unfold lit
  by_cases ht : text <+: cs
  · rw [if_pos ht, if_pos (ht.trans (List.prefix_append _ _)),
      List.drop_append_of_le_length ht.length_le]
    rfl
  · rw [if_neg ht, if_neg (mt (h ext) ht)]
    rfl

theorem local_lit (h : ∃ c ∈ cs, c ∉ text) : Local (lit text) cs := by
  obtain ⟨c, hc, hn⟩ := h
  refine local_lit_of fun ext hp => ?_
  refine (List.prefix_or_prefix_of_prefix hp (List.prefix_append cs ext)).resolve_right ?_
  exact fun hr => hn (hr.subset hc)

theorem local_lit_of_length (h : text.length ≤ cs.length) : Local (lit text) cs :=
  local_lit_of fun ext hp => List.prefix_of_prefix_length_le hp (List.prefix_append cs ext) h

/-- On the texts of a class, a pattern matches locally and leaves a text of the class. -/
def Settles (C : List Char → Prop) (x : Pattern α) : Prop :=
  ∀ cs, C cs → Local x cs ∧ ∀ a rest, (a, rest) ∈ x cs → C rest

section Settles
variable {C : List Char → Prop}

theorem Settles.local_bind (hx : Settles C x) (hf : ∀ a mid, C mid → Local (f a) mid)
    (hc : C cs) : Local (x >>= f) cs :=
  (hx cs hc).1.bind fun a mid hm => hf a mid ((hx cs hc).2 a mid hm)

theorem Settles.bind (hx : Settles C x) (hf : ∀ a, Settles C (f a)) : Settles C (x >>= f) := by
  intro cs hc
  refine ⟨hx.local_bind (fun a mid hm => (hf a mid hm).1) hc, fun b rest hb => ?_⟩
  obtain ⟨a, mid, ha, hb⟩ := mem_bind.mp hb
  exact (hf a mid ((hx cs hc).2 a mid ha)).2 b rest hb

theorem settles_pure : Settles C (pure a) := by
  intro cs hc
  refine ⟨local_pure, fun _ _ hm => ?_⟩
  obtain ⟨-, rfl⟩ := mem_pure.mp hm
  exact hc

theorem Settles.alt (hx : Settles C x) (hy : Settles C y) : Settles C (alt x y) := by
  intro cs hc
  refine ⟨(hx cs hc).1.alt (hy cs hc).1, fun a rest hm => ?_⟩
  rcases mem_alt.mp hm with hm | hm
  · exact (hx cs hc).2 a rest hm
  · exact (hy cs hc).2 a rest hm

theorem Settles.opt {x : Pattern Unit} (hx : Settles C x) : Settles C (opt x) := by
  intro cs hc
  refine ⟨(hx cs hc).1.opt, fun a rest hm => ?_⟩
  rcases mem_opt.mp hm with hm | rfl
  · exact (hx cs hc).2 a rest hm
  · exact hc

end Settles

/-- A search goes through the pieces of a text one after the other where no match reaches from one
into the next. -/
theorem search_append_of_local (hnil : x [] = []) (h : ∀ s, s <:+ cs → s ≠ [] → Local x s) :
    search x (cs ++ ext) = (search x cs).or (search x ext) := by
  induction cs with
  | nil =>
    have hs : search x [] = none := by rw [search, hnil]
    rw [hs, List.nil_append, Option.none_or]
  | cons c cs ih =>
    have hl : x (c :: (cs ++ ext)) = _ := h _ List.suffix_rfl (List.cons_ne_nil _ _) ext
    have ih := ih fun s hs => h s (hs.trans (List.suffix_cons _ _))
    rw [List.cons_append, search, search, hl]
    cases x (c :: cs) with
    | nil => exact ih
    | cons q qs => rfl

end Locality
end Pattern
end RiscForge.Lib
