import RiscForge.Assembler.Overlap
import RiscForge.Assembler.Words
import RiscForge.Lib.HexText

/-! The image of an assembled program: labels, first byte and the way through the hex file. -/
namespace RiscForge.Assembler

open Lib Refmodel

section Labels
variable {py : Python} {st st' : Layout} {lines lines' : List Line} {ln ln' : Line}

/-- The section that is active after the lines. -/
def activeAfter (current : Section) (lines : List Line) : Section :=
  lines.foldl (fun c ln => ln.switch c) current

/-- Where the next line with a size starts in the section, or else its end. -/
def nextStart (sec : Section) (stop : ℤ) : List Line → ℤ
  | [] => stop
  | ln :: lines => if ln.sec = sec ∧ 0 < ln.size then ln.pc else nextStart sec stop lines

theorem Placed.switch_eq (h : Placed py st ln ln' st') (current : Section) :
    ln'.switch current = ln.switch current := by
  rw [h.line]
  rfl

/-- A line that takes no room in the section leaves its `pc`. -/
theorem Placed.pc_eq_of_not_sized (h : Placed py st ln ln' st') {sec : Section}
    (hs : ¬ (ln'.sec = sec ∧ 0 < ln'.size)) : st'.pc sec = st.pc sec := by
  by_cases hsec : ln'.sec = sec
  · obtain ⟨hp, hz⟩ := h.range
    have hle := h.pc_le sec
    rw [hsec] at hp hz
    have : ¬ 0 < ln'.size := fun h0 => hs ⟨hsec, h0⟩
    omega
  · rw [h.pc_eq]
    split
    case isTrue hc =>
      have hsw : ln.switch st.current ≠ st.current := by
        intro he
        apply hsec
        rw [h.line]
        exact he.trans hc
      rw [items_of_switch hsw, stopAt_nil]
    case isFalse => rw [stopAt_nil]

/-- The `pc` of a section is where its next line with a size goes. -/
theorem Pass1.nextStart_eq (h : Pass1 py st lines lines' st') (sec : Section) :
    st.pc sec = nextStart sec (st'.pc sec) lines' := by
  induction h with
  | nil => rfl
  | @cons st st₁ st' ln ln' lines lines' head tail ih =>
    rw [nextStart]
    split
    case isTrue hs => rw [head.range.1, hs.1]
    case isFalse hs => rw [← head.pc_eq_of_not_sized hs, ih]

theorem Placed.lookup_mono (h : Placed py st ln ln' st') {label : String} {v : ℤ}
    (hv : st.syms.lookup label = some v) : st'.syms.lookup label = some v := by
  rw [h.syms]
  cases hl : ln.label with
  | none => exact hv
  | some l =>
    have hne : label ≠ l := by
      rintro rfl
      rw [h.fresh label hl] at hv
      cases hv
    rw [List.lookup_cons, beq_eq_false_iff_ne.mpr hne]
    exact hv

theorem Pass1.lookup_mono (h : Pass1 py st lines lines' st') {label : String} {v : ℤ}
    (hv : st.syms.lookup label = some v) : st'.syms.lookup label = some v := by
  induction h with
  | nil => exact hv
  | cons head tail ih => exact ih (head.lookup_mono hv)

/-- A label stands for the place where the next line with a size goes. -/
theorem Pass1.label_eq (h : Pass1 py st lines lines' st') {pre post : List Line} {label : String}
    (hl : lines' = pre ++ ln :: post) (hlab : ln.label = some label) :
    st'.syms.lookup label =
      some (nextStart (activeAfter st.current pre) (st'.pc (activeAfter st.current pre))
        (ln :: post)) := by
  induction h generalizing pre with
  | nil => simp at hl
  | @cons st st₁ st' m m' lines lines' head tail ih =>
    cases pre with
    | nil =>
      rw [List.nil_append] at hl
      obtain ⟨rfl, rfl⟩ := List.cons.inj hl
      have hm : m.label = some label := by
        rw [head.line] at hlab
        exact hlab
      have hv : st₁.syms.lookup label = some (st.pc st.current) := by
        rw [head.syms, hm]
        simp
      rw [tail.lookup_mono hv, (Pass1.cons head tail).nextStart_eq]
      rfl
    | cons p pre =>
      rw [List.cons_append] at hl
      obtain ⟨rfl, rfl⟩ := List.cons.inj hl
      have hc : activeAfter st₁.current pre = activeAfter st.current (m' :: pre) := by
        rw [activeAfter, activeAfter, List.foldl_cons, head.switch_eq, head.current]
      rw [← hc]
      exact ih rfl

end Labels

section First
variable {py : Python} {syms : Syms} {st st' : Layout} {lines lines' : List Line} {ln ln' : Line}
  {sec : Section}

theorem items_cases (py : Python) (ln : Line) :
    ln.items py = [] ∨ (∃ k, ln.items py = [.align k]) ∨ ∃ n, ln.items py = [.bytes n] := by
  unfold Line.items
  split
  · simp
  · simp
  · simp
  · split
    · exact .inr (.inl ⟨_, rfl⟩)
    · simp
  · exact .inr (.inr ⟨_, rfl⟩)
  · exact .inr (.inr ⟨_, rfl⟩)
  · exact .inr (.inr ⟨_, rfl⟩)

theorem op_of_bytes {n : ℕ} (h : ln.items py = [.bytes n]) : ln.op ≠ some ".align" := by
  intro ha
  simp only [Line.items, ha] at h
  split at h <;> cases h

theorem op_of_align {k : ℕ} (h : ln.items py = [.align k]) : ln.op = some ".align" := by
  unfold Line.items at h
  split at h <;> simp_all

/-- If the items have a byte, then some line starts where the first one goes. -/
def HasFirst (sec : Section) (items : List Item) (pos : ℤ) (lines : List Line) : Prop :=
  content items = 0 ∨ ∃ ln ∈ lines, ln.sec = sec ∧ ln.pc = start items pos ∧ 0 < ln.size ∧
    ln.op ≠ some ".align"

theorem HasFirst.cons {items items' : List Item} {pos pos' : ℤ} (h : HasFirst sec items pos lines)
    (hs : start items' pos' = start items pos) (hc : content items' = content items) :
    HasFirst sec items' pos' (ln :: lines) := by
  rcases h with h0 | ⟨m, hm, hp⟩
  · exact .inl (hc.trans h0)
  · rw [← hs] at hp
    exact .inr ⟨m, List.mem_cons_of_mem _ hm, hp⟩

/-- A line with bytes starts at the `pc` of its section. -/
theorem Placed.first {n : ℕ} {items : List Item} (h : Placed py st ln ln' st')
    (hcur : st.current = sec) (hi : ln.items py = [.bytes (n + 1)]) :
    HasFirst sec (.bytes (n + 1) :: items) (st.pc sec) (ln' :: lines) := by
  have hsw : ln.switch st.current = st.current := by
    by_contra hne
    rw [items_of_switch hne] at hi
    cases hi
  have hsec : ln'.sec = sec := by
    rw [h.line]
    exact hsw.trans hcur
  obtain ⟨hp, hz⟩ := h.range
  have hpc := h.pc_eq sec
  rw [if_pos hcur, hi, stopAt_bytes] at hpc
  rw [hsec] at hp hz
  have hop : ln'.op = ln.op := by rw [h.line]
  refine .inr ⟨ln', List.mem_cons_self .., hsec, hp, by omega, ?_⟩
  rw [hop]
  exact op_of_bytes hi

theorem Pass1.first (h : Pass1 py st lines lines' st') (sec : Section) :
    HasFirst sec (itemsOf py sec st.current lines) (st.pc sec) lines' := by
  induction h with
  | nil => exact .inl rfl
  | @cons st st₁ st' ln ln' lines lines' head tail ih =>
    rw [head.current] at ih
    rw [itemsOf]
    have hpc := head.pc_eq sec
    split at hpc
    case isFalse hcur =>
      rw [if_neg hcur]
      rw [stopAt_nil] at hpc
      exact ih.cons (by rw [hpc, List.nil_append]) rfl
    case isTrue hcur =>
      rw [if_pos hcur]
      rcases items_cases py ln with hi | ⟨k, hi⟩ | ⟨n, hi⟩
      · rw [hi] at hpc ⊢
        rw [stopAt_nil] at hpc
        exact ih.cons (by rw [hpc, List.nil_append]) rfl
      · rw [hi] at hpc ⊢
        rw [stopAt_align, padTo_eq] at hpc
        exact ih.cons (by rw [hpc]; rfl) (by simp [content, Item.room])
      · cases n with
        | zero =>
          rw [hi] at hpc ⊢
          rw [stopAt_bytes, Nat.cast_zero, add_zero] at hpc
          exact ih.cons (by rw [hpc]; rfl) (by simp [content, Item.room])
        | succ n =>
          rw [hi]
          exact head.first hcur hi

/-- What a line with bytes puts into its section. -/
theorem Placed.items_of_sized (h : Placed py st ln ln' st') (hz : 0 < ln'.size)
    (ha : ln'.op ≠ some ".align") :
    ln'.sec = st.current ∧ ∃ n, ln.items py = [.bytes (n + 1)] := by
  have hsize : ln'.size = stopAt (ln.items py) (st.pc st.current) - st.pc st.current := by rw [h.line]
  have hop : ln'.op = ln.op := by rw [h.line]
  have hsec : ln'.sec = ln.switch st.current := by rw [h.line]
  have hne : ln.items py ≠ [] := by
    intro hi
    rw [hsize, hi, stopAt_nil] at hz
    omega
  constructor
  · rw [hsec]
    by_contra hsw
    exact hne (items_of_switch hsw)
  · rcases items_cases py ln with hi | ⟨k, hi⟩ | ⟨n, hi⟩
    · exact (hne hi).elim
    · rw [hop] at ha
      exact (ha (op_of_align hi)).elim
    · rw [hsize, hi, stopAt_bytes] at hz
      obtain ⟨m, rfl⟩ : ∃ m, n = m + 1 := ⟨n - 1, by omega⟩
      exact ⟨m, hi⟩

/-- No line with bytes starts before the section's first byte. -/
theorem Pass1.start_le (h : Pass1 py st lines lines' st') (hl : ln ∈ lines') (hsec : ln.sec = sec)
    (hz : 0 < ln.size) (ha : ln.op ≠ some ".align") :
    start (itemsOf py sec st.current lines) (st.pc sec) ≤ ln.pc ∧
      0 < content (itemsOf py sec st.current lines) := by
  induction h with
  | nil => cases hl
  | @cons st st₁ st' m m' lines lines' head tail ih =>
    rw [itemsOf]
    rcases List.mem_cons.mp hl with rfl | hl
    · obtain ⟨hcur, n, hi⟩ := head.items_of_sized hz ha
      rw [if_pos (hcur.symm.trans hsec), hi, head.range.1, hsec]
      refine ⟨le_rfl, ?_⟩
      have hnn := content_nonneg (itemsOf py sec (m.switch st.current) lines)
      rw [content_append]
      simp only [content, List.map_cons, List.map_nil, List.sum_cons, List.sum_nil, Item.room] at hnn ⊢
      omega
    · obtain ⟨hle, hc⟩ := ih hl
      rw [head.current] at hle hc
      constructor
      · refine le_trans (start_append_le _ _ _) ?_
        rwa [← head.pc_eq sec]
      · have hnn := content_nonneg (if st.current = sec then m.items py else [])
        rw [content_append]
        omega

end First

section Image
variable {py : Python} {syms : Syms} {image : Image} {lines : List Line} {a : ℤ} {b : BitVec 8}

theorem Pass2.imageBytes (h : Pass2 py syms [] lines image) : image.Bytes := by
  intro a v hv
  rcases h.lookup a with ⟨_, -, b, -, hb⟩ | ⟨-, hb⟩
  · rw [hv] at hb
    cases hb
    exact ⟨b, rfl⟩
  · rw [hv] at hb
    cases hb

theorem Pass2.has_iff (h : Pass2 py syms [] lines image) :
    image.Has a ↔ ∃ ln ∈ lines, ∃ b, ln.Writes py syms a b := by
  rw [Image.Has]
  rcases h.lookup a with ⟨ln, hl, b, hw, hb⟩ | ⟨hn, hb⟩
  · rw [hb]
    exact iff_of_true rfl ⟨ln, hl, b, hw⟩
  · rw [hb]
    refine iff_of_false (by simp) ?_
    rintro ⟨ln, hl, b, hw⟩
    exact hn ln hl b hw

/-- Where lines do not overlap, the image holds what the one line emits. -/
theorem Pass2.byte_eq (h : Pass2 py syms [] lines image)
    (hd : ∀ ln ∈ lines, ∀ m ∈ lines, ∀ c, ln.Writes py syms a b → m.Writes py syms a c → b = c)
    {ln : Line} (hl : ln ∈ lines) (hw : ln.Writes py syms a b) : image.byte a = b := by
  rcases h.lookup a with ⟨m, hm, c, hc, hv⟩ | ⟨hn, -⟩
  · rw [hd ln hl m hm c hw hc, Image.byte, Image.get, hv]
    simp
  · exact (hn ln hl b hw).elim

theorem Pass2.byte_zero (h : Pass2 py syms [] lines image)
    (hn : ∀ ln ∈ lines, ∀ b, ¬ ln.Writes py syms a b) : image.byte a = 0#8 := by
  rcases h.lookup a with ⟨m, hm, c, hc, -⟩ | ⟨-, hv⟩
  · exact (hn m hm c hc).elim
  · rw [Image.byte, Image.get, hv]
    rfl

end Image

section Load
variable {s : RV32I} {data : List (BitVec 8)}

theorem loadProgram_zero (hb : s.memBase = 0) (hl : data.length ≤ s.mem.length) :
    loadProgram data (some 0) s =
      .ok () { s with mem := data ++ s.mem.drop data.length } := by
  simp only [loadProgram, get_bind, hb, Option.getD_some, sub_zero, zero_add]
  rw [if_neg (by omega)]
  simp

theorem byteAt_append (rest : List (BitVec 8)) {a : ℕ} (ha : a < data.length) :
    byteAt (data ++ rest) a = byteAt data a := by
  simp only [byteAt, List.getD_eq_getElem?_getD]
  rw [List.getElem?_append_left ha]

end Load

section Faithful
variable {py : Python} {source : String} {words : List ℤ} {lines : List Line} {st st' : Layout}
  {syms : Syms} {image : Image}

/-- A line that stands for bytes: no section directive, no alignment and no bare label. -/
def Line.Emits (ln : Line) : Prop :=
  ln.op ≠ none ∧ ln.op ≠ some ".text" ∧ ln.op ≠ some ".data" ∧ ln.op ≠ some ".align"

/-- A line that has a size is written at its `pc`. -/
theorem Pass1.writes_pc {lines₀ : List Line} (h : Pass1 py st lines₀ lines st') {ln : Line}
    (hl : ln ∈ lines) (ha : ln.op ≠ some ".align") (h0 : 0 < ln.size) {bs : List (BitVec 8)}
    (hb : ln.bytes py syms = .ok bs) : ∃ b, ln.Writes py syms ln.pc b := by
  have hz := h.size_eq hl ha hb
  have hlt : 0 < bs.length := by omega
  exact ⟨bs[0], bs, hb, 0, by simp, List.getElem?_eq_getElem hlt⟩

/-- What happens in an accepted program: the sizing loop, pass 1 and pass 2. -/
structure Assembled (py : Python) (source : String) (textBase : ℤ) (sizes : Sizes)
    (lines : List Line) (st : Layout) (image : Image) : Prop where
  sizing : sizeLines py (tokenize py source) = .ok sizes
  layOut : layOut py source textBase none = .ok (lines, st)
  pass1 : Pass1 py (.init textBase (sizes.dataBase textBase)) (tokenize py source) lines st
  pass2 : Pass2 py st.syms [] lines image

variable {textBase : ℤ} {sizes : Sizes}

theorem assembled_of_ok (h : assemble py source textBase none = .ok words) :
    ∃ sizes lines st image, Assembled py source textBase sizes lines st image ∧
      words = packWords image := by
  obtain ⟨lines, st, hl, image, he, hw⟩ := assemble_eq_ok.mp h
  obtain ⟨sizes, hs, hp⟩ := layOut_eq_ok.mp hl
  exact ⟨sizes, lines, st, image, ⟨hs, hl, pass1From_ok hp, emitFrom_ok he⟩, hw⟩

theorem Assembled.dataBase_zero (h : Assembled py source 0 sizes lines st image)
    (hc : content (textItems py source) = 0) : sizes.dataBase 0 = 0 := by
  have hsz : sizes.sizes .text = stopAt (textItems py source) 0 := sizeLines_ok h.sizing .text
  rw [dataBase_eq, hsz, stopAt_zero_of_content hc, padBelow_of_dvd (dvd_zero _)]
  rfl

/-- A section that starts at 0 and has bytes has one for address 0. -/
theorem Assembled.has_zero_of_content (h : Assembled py source textBase sizes lines st image)
    (sec : Section) (hb : (Layout.init textBase (sizes.dataBase textBase)).pc sec = 0)
    (hc : content (itemsOf py sec .text (tokenize py source)) ≠ 0) : image.Has 0 := by
  rcases h.pass1.first sec with h0 | ⟨ln, hm, -, hpc, hz, ha⟩
  · exact (hc h0).elim
  · obtain ⟨bs, hbs⟩ := h.pass2.bytes hm
    obtain ⟨b, hw⟩ := h.pass1.writes_pc hm ha hz hbs
    rw [hpc, hb, start_zero] at hw
    exact h.pass2.has_iff.mpr ⟨ln, hm, b, hw⟩

/-- At base 0, if anything is emitted, then something is emitted for address 0. -/
theorem Assembled.has_zero (h : Assembled py source 0 sizes lines st image) {a : ℤ}
    (ha : image.Has a) : image.Has 0 := by
  by_cases ht : content (textItems py source) = 0
  · have hd := h.dataBase_zero ht
    by_cases hdata : content (itemsOf py .data .text (tokenize py source)) = 0
    · obtain ⟨ln, hl, b, hw⟩ := h.pass2.has_iff.mp ha
      obtain ⟨-, h1, h2⟩ := h.pass1.writes_range hl hw
      obtain ⟨h3, -, h4⟩ := h.pass1.range hl
      have hstop : st.pc ln.sec = 0 := by
        rw [h.pass1.pc_eq, hd]
        cases ln.sec with
        | text => exact stopAt_zero_of_content ht
        | data => exact stopAt_zero_of_content hdata
      have hbase : (Layout.init 0 (sizes.dataBase 0)).pc ln.sec = 0 := by
        rw [hd]
        cases ln.sec <;> rfl
      omega
    · exact h.has_zero_of_content .data hd hdata
  · exact h.has_zero_of_content .text rfl ht

theorem Assembled.text_end_le (h : Assembled py source 0 sizes lines st image) :
    st.pc .text ≤ sizes.dataBase 0 :=
  (text_end_le_iff (dvd_zero 4) h.sizing h.layOut).mpr le_rfl

/-- At base 0 the words start at address 0. -/
theorem Assembled.packed (h : Assembled py source 0 sizes lines st image) (hne : image ≠ []) :
    Packed image 0 (packWords image) := by
  obtain ⟨lo, hp⟩ := packWords_packed h.pass2.imageBytes hne
  obtain ⟨a, ha, hlo⟩ := hp.first
  have h0 := hp.covers 0 (h.has_zero ha)
  have hnn : 0 ≤ a := by
    obtain ⟨ln, hl, b, hw⟩ := h.pass2.has_iff.mp ha
    obtain ⟨-, h1, -⟩ := h.pass1.writes_range hl hw
    obtain ⟨h2, -, -⟩ := h.pass1.range hl
    have hbase : 0 ≤ (Layout.init 0 (sizes.dataBase 0)).pc ln.sec := by
      cases ln.sec with
      | text => exact le_rfl
      | data =>
        have hle := h.pass1.pc_le .text
        exact le_trans hle h.text_end_le
    omega
  have hz : lo = 0 := by omega
  rwa [hz] at hp

/-- The loaded words put the emitted byte at each address, and zero where there is none. -/
theorem Assembled.loaded (h : Assembled py source 0 sizes lines st image) (rest : List (BitVec 8)) {a : ℕ}
    (ha : a < 4 * (packWords image).length) :
    byteAt ((packWords image).flatMap wordBytes ++ rest) a = image.byte a := by
  have hne : image ≠ [] := by
    rintro rfl
    simp [packWords] at ha
  rw [byteAt_append _ (by rwa [length_flatMap_wordBytes]), byteAt_flatMap_wordBytes ha,
    (h.packed hne).wordsByte ha, zero_add]

theorem Assembled.disjoint (h : Assembled py source 0 sizes lines st image) :
    lines.Pairwise fun a b => a.pc + a.size ≤ b.pc ∨ b.pc + b.size ≤ a.pc :=
  h.pass1.disjoint h.text_end_le

/-- Two lines that write one address are one line. -/
theorem Assembled.writes_unique (h : Assembled py source 0 sizes lines st image) {a : ℤ}
    {b c : BitVec 8} {ln m : Line} (hl : ln ∈ lines) (hm : m ∈ lines)
    (hb : ln.Writes py st.syms a b) (hc : m.Writes py st.syms a c) : b = c := by
  have hsym : Std.Symm fun a b : Line => a.pc + a.size ≤ b.pc ∨ b.pc + b.size ≤ a.pc :=
    ⟨fun _ _ => Or.symm⟩
  by_cases he : ln = m
  · subst he
    exact hb.unique hc
  · have hd := h.disjoint.forall hl hm he
    have h1 := h.pass1.writes_range hl hb
    have h2 := h.pass1.writes_range hm hc
    omega

/-- The loaded memory holds what the lines emit, and zero where there is nothing. -/
def LoadsAs (py : Python) (syms : Syms) (lines : List Line) (words : List ℤ) : Prop :=
  ∃ data, loadHexWords py (toHexLines words) = some data ∧
    ∀ s : RV32I, s.memBase = 0 → 4 * words.length ≤ s.mem.length →
      ∃ s', loadProgram data (some 0) s = .ok () s' ∧ ∀ a : ℕ, a < 4 * words.length →
        (∀ ln ∈ lines, ∀ b, ln.Writes py syms a b → byteAt s'.mem a = b) ∧
        ((∀ ln ∈ lines, ∀ b, ¬ ln.Writes py syms a b) → byteAt s'.mem a = 0#8)

/-- What the layout, the symbols and the words of a program have to do with one another. -/
structure Faithful (py : Python) (source : String) (words : List ℤ) (lines : List Line)
    (st : Layout) : Prop where
  layOut : layOut py source 0 none = .ok (lines, st)
  sizes : ∀ ln ∈ lines, ln.Emits → ∃ bs : List (BitVec 8), (bs.length : ℤ) = ln.size ∧
    ∀ image, emitLine py st.syms image ln = .ok (image.write ln.pc bs)
  disjoint : lines.Pairwise fun a b => a.Emits → b.Emits →
    a.pc + a.size ≤ b.pc ∨ b.pc + b.size ≤ a.pc
  dataAbove : ∀ ln ∈ lines, ln.sec = .data → st.pc .text ≤ ln.pc
  labels : ∀ pre ln post label, lines = pre ++ ln :: post → ln.label = some label →
    st.syms.lookup label =
      some (nextStart (activeAfter .text pre) (st.pc (activeAfter .text pre)) (ln :: post))
  covered : ∀ ln ∈ lines, ∀ a b, ln.Writes py st.syms a b → 0 ≤ a ∧ a < 4 * words.length
  loads : LoadsAs py st.syms lines words

theorem Assembled.loadsAs (h : Assembled py source 0 sizes lines st image) :
    LoadsAs py st.syms lines (packWords image) := by
  refine ⟨(packWords image).flatMap wordBytes, ?_, ?_⟩
  · apply loadHexWords_toHexLines
    by_cases hne : image = []
    · subst hne
      simp [AreWords, packWords]
    · exact (h.packed hne).areWords
  · intro s hb hlen
    refine ⟨_, loadProgram_zero hb (by rwa [length_flatMap_wordBytes]), ?_⟩
    intro a ha
    have hbyte := h.loaded (s.mem.drop ((packWords image).flatMap wordBytes).length) ha
    constructor
    · intro ln hl b hw
      rw [hbyte]
      exact h.pass2.byte_eq (fun m hm n hn c => h.writes_unique hm hn) hl hw
    · intro hn
      rw [hbyte]
      exact h.pass2.byte_zero hn

/-- Every address that is written is in the words. -/
theorem Assembled.covered (h : Assembled py source 0 sizes lines st image) {ln : Line} {a : ℤ}
    {b : BitVec 8} (hl : ln ∈ lines) (hw : ln.Writes py st.syms a b) :
    0 ≤ a ∧ a < 4 * (packWords image).length := by
  have ha : image.Has a := h.pass2.has_iff.mpr ⟨ln, hl, b, hw⟩
  have hne : image ≠ [] := by
    rintro rfl
    cases ha
  have hc := (h.packed hne).covers a ha
  rwa [zero_add] at hc

/-- Pass 2 emits what pass 1 reserved, lines do not overlap, labels stand for the next line, and
the hex file holds and loads as the emitted bytes. -/
theorem assemble_faithful (h : assemble py source 0 none = .ok words) :
    ∃ lines st, Faithful py source words lines st := by
  obtain ⟨sizes, lines, st, image, hr, rfl⟩ := assembled_of_ok h
  refine ⟨lines, st, hr.layOut, ?_, hr.disjoint.imp fun hd _ _ => hd, ?_, ?_,
    fun ln hl a b => hr.covered hl, hr.loadsAs⟩
  · rintro ln hl ⟨-, -, -, ha⟩
    obtain ⟨bs, hb⟩ := hr.pass2.bytes hl
    refine ⟨bs, hr.pass1.size_eq hl ha hb, ?_⟩
    intro image
    rw [emitLine_eq, hb]
    rfl
  · intro ln hl hsec
    obtain ⟨hle, -⟩ := hr.pass1.range hl
    rw [hsec] at hle
    exact hr.text_end_le.trans hle
  · intro pre ln post label hl hlab
    exact hr.pass1.label_eq hl hlab

/-- A program with a forward reference, an odd run of bytes and an alignment. -/
def mixedSource : String :=
  "start: la a1, tbl\nlb a2, 1(a1)\n.data\n.byte 7\n.text\nbeq a2, zero, start\n.data\ntbl: .byte 1, 2\n.align 2\n.word start, 0x12345678\n"

theorem assemble_faithful_mixedSource :
    ∃ lines st, Faithful .plain mixedSource
      [0x597, 0x1158593, 0x158603, 0xFE060AE3, 0x20107, 0, 0x12345678] lines st :=
  assemble_faithful (by decide +kernel)

end Faithful
end RiscForge.Assembler
