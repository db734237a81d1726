import RiscForge.Assembler.Faithful

/-! Where the returned word list starts. -/
namespace RiscForge.Assembler

open Lib

section Indexing
variable {py : Python} {source : String} {textBase : ℤ} {words : List ℤ} {sizes : Sizes}
  {lines : List Line} {st : Layout} {image : Image}

/-- Some line of `.text` emits a byte. -/
def EmitsText (py : Python) (source : String) (textBase : ℤ) : Prop :=
  ∃ lines st, layOut py source textBase none = .ok (lines, st) ∧
    ∃ ln ∈ lines, ln.sec = .text ∧ ∃ a b, ln.Writes py st.syms a b

/-- Every emitted byte is found in the word list, counted from the text base. -/
def IndexedFromBase (py : Python) (source : String) (textBase : ℤ) (words : List ℤ) : Prop :=
  ∀ lines st, layOut py source textBase none = .ok (lines, st) →
    ∀ ln ∈ lines, ∀ a b, ln.Writes py st.syms a b → textBase ≤ a ∧
      ∃ w, words[((a - textBase) / 4).toNat]? = some w ∧ leByte w.toNat (a % 4).toNat = b

/-- What the program puts into `.data`. -/
def dataItems (py : Python) (source : String) : List Item :=
  itemsOf py .data .text (tokenize py source)

/-- Where `.data` starts by default: behind `.text` as it is laid from 0, on a word boundary. -/
def dataStart (py : Python) (source : String) (textBase : ℤ) : ℤ :=
  textBase + (stopAt (textItems py source) 0 + padBelow (stopAt (textItems py source) 0) 2)

/-- No byte of `.text` and byte of `.data` go to one address. -/
def SectionsApart (py : Python) (source : String) (textBase : ℤ) : Prop :=
  ∀ a, Occupies (textItems py source) textBase a →
    ¬ Occupies (dataItems py source) (dataStart py source textBase) a

section Written
variable {syms : Syms} {st' : Layout} {ln ln' : Line} {lines' : List Line} {bs : List (BitVec 8)}
  {sec : Section} {a : ℤ}

theorem writes_iff (hb : ln.bytes py syms = .ok bs) :
    (∃ b, ln.Writes py syms a b) ↔ ln.pc ≤ a ∧ a < ln.pc + bs.length := by
  constructor
  · rintro ⟨b, cs, hc, i, rfl, hi⟩
    rw [hb] at hc
    cases hc
    have hlt := (List.getElem?_eq_some_iff.mp hi).1
    omega
  · rintro ⟨h1, h2⟩
    have hlt : (a - ln.pc).toNat < bs.length := by omega
    exact ⟨bs[(a - ln.pc).toNat], bs, hb, (a - ln.pc).toNat, by omega,
      List.getElem?_eq_getElem hlt⟩

/-- A line writes where its item goes. -/
theorem Placed.writes_iff (h : Placed py st ln ln' st') (hb : ln'.bytes py syms = .ok bs) :
    (ln'.sec = sec ∧ ∃ b, ln'.Writes py syms a b) ↔
      Occupies (if st.current = sec then ln.items py else []) (st.pc sec) a := by
  have hi : ln'.items py = ln.items py := by
    rw [h.line]
    simp only [Line.items]
  have hop : ln'.op = ln.op := by rw [h.line]
  rw [Assembler.writes_iff hb]
  rcases items_cases py ln with hn | ⟨k, hk⟩ | ⟨n, hn⟩
  · have hlen : bs.length = 0 := by
      by_cases ha : ln'.op = some ".align"
      · rw [bytes_align hb ha]
        rfl
      · have hs := bytes_items hb ha 0
        rw [hi, hn, stopAt_nil] at hs
        omega
    rw [hn, ite_self]
    refine iff_of_false (fun hr => ?_) id
    omega
  · have hlen : bs = [] := bytes_align hb (hop.trans (op_of_align hk))
    refine iff_of_false (fun hr => ?_) fun ho => ?_
    · rw [hlen, List.length_nil] at hr
      omega
    · split at ho
      · rw [hk] at ho
        exact not_occupies_align k ho
      · exact ho
  · have hs := bytes_items hb (by rw [hop]; exact op_of_bytes hn) 0
    rw [hi, hn, stopAt_bytes] at hs
    have hsec : ln'.sec = st.current := by
      rw [h.line]
      by_contra hne
      rw [items_of_switch hne] at hn
      cases hn
    have hpc := h.range.1
    rw [hsec] at hpc ⊢
    by_cases hc : st.current = sec
    · rw [if_pos hc, hn, occupies_bytes, hpc, hc]
      refine (and_iff_right rfl).trans ?_
      omega
    · rw [if_neg hc]
      exact iff_of_false (fun hr => hc hr.1) id

/-- The lines of a section write where its items go. -/
theorem Pass1.writes_iff (h : Pass1 py st lines lines' st')
    (hb : ∀ ln ∈ lines', ∃ bs, ln.bytes py syms = .ok bs) :
    (∃ ln ∈ lines', ln.sec = sec ∧ ∃ b, ln.Writes py syms a b) ↔
      Occupies (itemsOf py sec st.current lines) (st.pc sec) a := by
  induction h with
  | nil => simp [itemsOf, Occupies]
  | @cons st st₁ st' ln ln' lines lines' head tail ih =>
    obtain ⟨bs, hbs⟩ := hb ln' List.mem_cons_self
    rw [itemsOf, occupies_append, ← head.pc_eq sec, ← head.current,
      ← ih fun m hm => hb m (List.mem_cons_of_mem _ hm), ← head.writes_iff hbs]
    simp only [List.mem_cons, exists_eq_or_imp]

end Written

theorem Assembled.dataBase_eq (h : Assembled py source textBase sizes lines st image) :
    sizes.dataBase textBase = dataStart py source textBase := by
  have hsz : sizes.sizes .text = stopAt (textItems py source) 0 := sizeLines_ok h.sizing .text
  rw [Assembler.dataBase_eq, hsz, dataStart]

theorem Assembled.writes_text (h : Assembled py source textBase sizes lines st image) {a : ℤ} :
    (∃ ln ∈ lines, ln.sec = .text ∧ ∃ b, ln.Writes py st.syms a b) ↔
      Occupies (textItems py source) textBase a :=
  h.pass1.writes_iff fun _ hl => h.pass2.bytes hl

theorem Assembled.writes_data (h : Assembled py source textBase sizes lines st image) {a : ℤ} :
    (∃ ln ∈ lines, ln.sec = .data ∧ ∃ b, ln.Writes py st.syms a b) ↔
      Occupies (dataItems py source) (dataStart py source textBase) a := by
  rw [← h.dataBase_eq]
  exact h.pass1.writes_iff fun _ hl => h.pass2.bytes hl

/-- The sections overlap exactly if a line of the one writes where a line of the other does. -/
theorem Assembled.sectionsApart_iff (h : Assembled py source textBase sizes lines st image) :
    SectionsApart py source textBase ↔
      ∀ ln ∈ lines, ∀ m ∈ lines, ln.sec = .text → m.sec = .data → ∀ a b c,
        ln.Writes py st.syms a b → ¬ m.Writes py st.syms a c := by
  constructor
  · intro hs ln hl m hm ht hd a b c hb hc
    exact hs a (h.writes_text.mp ⟨ln, hl, ht, b, hb⟩) (h.writes_data.mp ⟨m, hm, hd, c, hc⟩)
  · intro hs a ht hd
    obtain ⟨ln, hl, hln, b, hb⟩ := h.writes_text.mpr ht
    obtain ⟨m, hm, hsec, c, hc⟩ := h.writes_data.mpr hd
    exact hs ln hl m hm hln hsec a b c hb hc

/-- It is enough that `.text` needs no more padding from its base than from 0. -/
theorem sectionsApart_of_padding (h4 : 4 ∣ textBase)
    (hp : padding (textItems py source) textBase ≤ padding (textItems py source) 0) :
    SectionsApart py source textBase := by
  intro a ht hd
  have hle := (stopAt_le_iff (textItems py source) h4).mpr hp
  have h1 := ht.range.2
  have h2 := hd.range.1
  rw [dataStart] at h2
  omega

/-- So it is that every alignment in `.text` divides the base. -/
theorem sectionsApart_of_dvd (h4 : 4 ∣ textBase)
    (hk : ∀ k, Item.align k ∈ textItems py source → (2 : ℤ) ^ k ∣ textBase) :
    SectionsApart py source textBase :=
  sectionsApart_of_padding h4 (padding_eq_of_dvd _ (by simpa using hk)).le

/-- Two lines that write one address are one line, if the sections are apart. -/
theorem Assembled.unique_of_apart (h : Assembled py source textBase sizes lines st image)
    (hs : SectionsApart py source textBase) {a : ℤ} {b c : BitVec 8} {ln m : Line}
    (hl : ln ∈ lines) (hm : m ∈ lines) (hb : ln.Writes py st.syms a b)
    (hc : m.Writes py st.syms a c) : b = c := by
  rw [h.sectionsApart_iff] at hs
  have hsym : Std.Symm fun a b : Line => a.sec = b.sec →
      a.pc + a.size ≤ b.pc ∨ b.pc + b.size ≤ a.pc := ⟨fun _ _ hd he => (hd he.symm).symm⟩
  have hserial : lines.Pairwise fun a b => a.sec = b.sec →
      a.pc + a.size ≤ b.pc ∨ b.pc + b.size ≤ a.pc := h.pass1.serial.imp fun hd he => .inl (hd he)
  by_cases he : ln = m
  · subst he
    exact hb.unique hc
  have h1 := h.pass1.writes_range hl hb
  have h2 := h.pass1.writes_range hm hc
  cases hln : ln.sec <;> cases hsec : m.sec
  case text.text | data.data =>
    have hd := hserial.forall hl hm he (hln.trans hsec.symm)
    omega
  case text.data =>
    exact (hs ln hl m hm hln hsec a b c hb hc).elim
  case data.text =>
    exact (hs m hm ln hl hsec hln a c b hc hb).elim

theorem Assembled.content_pos (h : Assembled py source textBase sizes lines st image)
    (ht : EmitsText py source textBase) : 0 < content (textItems py source) := by
  obtain ⟨lines', st', hl, ln, hm, hsec, a, b, hw⟩ := ht
  rw [h.layOut] at hl
  cases hl
  obtain ⟨ha, h1, h2⟩ := h.pass1.writes_range hm hw
  exact (h.pass1.start_le hm hsec (by omega) ha).2

theorem emitsText_of_content (h : assemble py source textBase none = .ok words)
    (hc : 0 < content (textItems py source)) : EmitsText py source textBase := by
  obtain ⟨sizes, lines, st, image, hr, -⟩ := assembled_of_ok h
  rcases hr.pass1.first .text with h0 | ⟨ln, hm, hsec, -, hz, ha⟩
  · exact (hc.ne' h0).elim
  · obtain ⟨bs, hbs⟩ := hr.pass2.bytes hm
    obtain ⟨b, hw⟩ := hr.pass1.writes_pc hm ha hz hbs
    exact ⟨lines, st, hr.layOut, ln, hm, hsec, ln.pc, b, hw⟩

theorem Assembled.dataBase_gt (h : Assembled py source textBase sizes lines st image)
    (hc : 0 < content (textItems py source)) : textBase + 4 ≤ sizes.dataBase textBase := by
  have hst := stopAt_eq (textItems py source) 0
  have hp := padding_nonneg (textItems py source) 0
  have hd := dvd_add_padBelow (stopAt (textItems py source) 0) 2
  have hnn := padBelow_nonneg (stopAt (textItems py source) 0) 2
  rw [h.dataBase_eq, dataStart]
  norm_num at hd
  omega

/-- Everything is written at or above the first byte of `.text` or in `.data`. -/
theorem Assembled.writes_ge (h : Assembled py source textBase sizes lines st image)
    {ln : Line} {a : ℤ} {b : BitVec 8} (hl : ln ∈ lines) (hw : ln.Writes py st.syms a b) :
    start (textItems py source) textBase ≤ a ∨ sizes.dataBase textBase ≤ a := by
  obtain ⟨ha, h1, h2⟩ := h.pass1.writes_range hl hw
  cases hsec : ln.sec with
  | text =>
    left
    have hs := (h.pass1.start_le hl hsec (by omega) ha).1
    exact hs.trans h1
  | data =>
    right
    have hr := (h.pass1.range hl).1
    rw [hsec] at hr
    exact hr.trans h1

theorem Assembled.has_ge (h : Assembled py source textBase sizes lines st image)
    (hc : 0 < content (textItems py source)) {a : ℤ} (ha : image.Has a) :
    start (textItems py source) textBase ≤ a ∨ textBase + 4 ≤ a := by
  obtain ⟨ln, hl, b, hw⟩ := h.pass2.has_iff.mp ha
  rcases h.writes_ge hl hw with hs | hd
  · exact .inl hs
  · exact .inr ((h.dataBase_gt hc).trans hd)

theorem Assembled.has_start (h : Assembled py source textBase sizes lines st image)
    (hc : 0 < content (textItems py source)) :
    image.Has (start (textItems py source) textBase) := by
  rcases h.pass1.first .text with h0 | ⟨ln, hm, -, hpc, hz, ha⟩
  · exact (hc.ne' h0).elim
  · obtain ⟨bs, hbs⟩ := h.pass2.bytes hm
    obtain ⟨b, hw⟩ := h.pass1.writes_pc hm ha hz hbs
    rw [hpc] at hw
    exact h.pass2.has_iff.mpr ⟨ln, hm, b, hw⟩

/-- The word list starts at the text base exactly if the first byte of `.text` goes there. -/
theorem Assembled.first_word (h : Assembled py source textBase sizes lines st image)
    (hc : 0 < content (textItems py source)) (h4 : 4 ∣ textBase) {lo : ℤ}
    (hp : Packed image lo words) :
    (start (textItems py source) textBase = textBase ∧ lo = textBase) ∨
      (start (textItems py source) textBase ≠ textBase ∧ textBase + 4 ≤ lo) := by
  obtain ⟨a, ha, hlo⟩ := hp.first
  have hle := le_start (textItems py source) textBase
  have hd : 4 ∣ start (textItems py source) textBase := start_dvd (b := 2) h4
  have hge := h.has_ge hc ha
  by_cases hs : start (textItems py source) textBase = textBase
  · have hcov := (hp.covers _ (h.has_start hc)).1
    left
    omega
  · right
    omega

theorem Packed.byte_at {lo a : ℤ} (hp : Packed image lo words) (h4 : 4 ∣ lo) (ha : image.Has a) :
    ∃ w, words[((a - lo) / 4).toNat]? = some w ∧ leByte w.toNat (a % 4).toNat = image.byte a := by
  obtain ⟨h1, h2⟩ := hp.covers a ha
  have hk : ((a - lo) / 4).toNat < words.length := by omega
  refine ⟨_, hp.word _ hk, ?_⟩
  rw [Int.toNat_natCast, leByte_leNat (by omega)]
  congr 1
  omega

/-- If the first byte of `.text` goes elsewhere, the last byte is not found. -/
theorem Assembled.start_of_indexed (h : Assembled py source textBase sizes lines st image)
    (hc : 0 < content (textItems py source)) (h4 : 4 ∣ textBase) {lo : ℤ}
    (hp : Packed image lo words) (hI : IndexedFromBase py source textBase words) :
    start (textItems py source) textBase = textBase := by
  rcases h.first_word hc h4 hp with ⟨hs, -⟩ | ⟨-, hlo⟩
  · exact hs
  · exfalso
    obtain ⟨a, ha, hlast⟩ := hp.last
    obtain ⟨ln, hl, b, hw⟩ := h.pass2.has_iff.mp ha
    obtain ⟨-, w, hw', -⟩ := hI lines st h.layOut ln hl a b hw
    have hlt := (List.getElem?_eq_some_iff.mp hw').1
    omega

theorem Assembled.image_ne_nil (h : Assembled py source textBase sizes lines st image)
    (hc : 0 < content (textItems py source)) : image ≠ [] := by
  rintro rfl
  exact absurd (h.has_start hc) (by simp [Image.Has])

/-- The words are indexed from the text base if the alignments in front of the first byte of
`.text` are met there, and the sections do not overlap. The first is needed as well: a list that
starts elsewhere does not have the last byte where the base says. -/
theorem indexedFromBase_iff (h : assemble py source textBase none = .ok words)
    (h4 : 4 ∣ textBase) (ht : EmitsText py source textBase) :
    (SectionsApart py source textBase →
      (IndexedFromBase py source textBase words ↔
        ∀ k ∈ lead (textItems py source), (2 : ℤ) ^ k ∣ textBase)) ∧
      (IndexedFromBase py source textBase words →
        ∀ k ∈ lead (textItems py source), (2 : ℤ) ^ k ∣ textBase) := by
  obtain ⟨sizes, lines, st, image, hr, rfl⟩ := assembled_of_ok h
  have hc := hr.content_pos ht
  obtain ⟨lo, hp⟩ := packWords_packed hr.pass2.imageBytes (hr.image_ne_nil hc)
  rw [← start_eq_iff]
  have hstart := hr.start_of_indexed hc h4 hp
  refine ⟨fun hs => ⟨hstart, ?_⟩, hstart⟩
  intro hst lines' st' hl' ln hl a b hw
  rw [hr.layOut] at hl'
  cases hl'
  obtain rfl : lo = textBase := by
    rcases hr.first_word hc h4 hp with ⟨-, hlo⟩ | ⟨hst', -⟩
    · exact hlo
    · exact (hst' hst).elim
  have hhas : image.Has a := hr.pass2.has_iff.mpr ⟨ln, hl, b, hw⟩
  rw [← hr.pass2.byte_eq (fun m hm n hn c => hr.unique_of_apart hs hm hn) hl hw]
  exact ⟨(hp.covers a hhas).1, hp.byte_at h4 hhas⟩

theorem indexedFromBase_iff_alignedSource :
    assemble .plain alignedSource 8 none = .ok [0x13, 5] ∧
      IndexedFromBase .plain alignedSource 8 [0x13, 5] := by
  have h : assemble .plain alignedSource 8 none = .ok [0x13, 5] := by decide +kernel
  have ht := emitsText_of_content h (by decide +kernel)
  have hk : ∀ i ∈ textItems .plain alignedSource, ∀ k, i = .align k → (2 : ℤ) ^ k ∣ 8 := by
    have hi : textItems .plain alignedSource = [.align 3, .bytes 4] := by decide +kernel
    simp [hi]
  have hs : SectionsApart .plain alignedSource 8 :=
    sectionsApart_of_dvd (by decide) fun k hm => hk _ hm k rfl
  exact ⟨h, ((indexedFromBase_iff h (by decide) ht).1 hs).mpr (by decide +kernel)⟩

/-- An alignment in front of the only instruction. -/
def leadingAlign : String := ".align 3\nnop\n"

/-- At base 4 the instruction is at 8, which index 1 of a list of one word stands for. -/
theorem leadingAlign_not_indexed :
    assemble .plain leadingAlign 4 none = .ok [0x13] ∧ EmitsText .plain leadingAlign 4 ∧
      ¬ IndexedFromBase .plain leadingAlign 4 [0x13] := by
  have h : assemble .plain leadingAlign 4 none = .ok [0x13] := by decide +kernel
  have hc : 0 < content (textItems .plain leadingAlign) := by decide +kernel
  refine ⟨h, emitsText_of_content h hc, ?_⟩
  intro hI
  obtain ⟨sizes, lines, st, image, hr, hw⟩ := assembled_of_ok h
  obtain ⟨lo, hp⟩ := packWords_packed hr.pass2.imageBytes (hr.image_ne_nil hc)
  rw [← hw] at hp
  have hs := hr.start_of_indexed hc (by decide) hp hI
  revert hs
  decide +kernel

end Indexing
end RiscForge.Assembler
