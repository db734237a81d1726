import RiscForge.Assembler.Emission

/-! Where the sections lie: the default data base and the end of `.text`. -/
namespace RiscForge.Assembler

open Lib

section Runs
variable {py : Python} {source : String} {textBase : ℤ} {dataBase : Option ℤ} {words : List ℤ}
  {lines : List Line} {st : Layout}

theorem layOut_eq_ok : layOut py source textBase dataBase = .ok (lines, st) ↔
    ∃ sizes, sizeLines py (tokenize py source) = .ok sizes ∧
      pass1 py (tokenize py source) textBase (dataBase.getD (sizes.dataBase textBase)) =
        .ok (lines, st) := bind_eq_ok

theorem assemble_eq_ok : assemble py source textBase dataBase = .ok words ↔
    ∃ lines st, layOut py source textBase dataBase = .ok (lines, st) ∧
      ∃ image, emit py st.syms lines = .ok image ∧ words = packWords image := by
  rw [assemble, bind_eq_ok]
  simp only [Prod.exists, bind_eq_ok, pure_eq_ok]

end Runs

section Lines
variable {py : Python} {syms : Syms} {st st' : Layout} {lines lines' : List Line} {ln ln' : Line}
  {bs : List (BitVec 8)}

theorem Placed.size_eq (h : Placed py st ln ln' st') (ha : ln'.op ≠ some ".align")
    (hb : ln'.bytes py syms = .ok bs) : (bs.length : ℤ) = ln'.size := by
  have hi : ln'.items py = ln.items py := by
    rw [h.line]
    simp only [Line.items]
  have hz : ln'.size = stopAt (ln.items py) (st.pc st.current) - st.pc st.current := by rw [h.line]
  rw [hz, ← hi, bytes_items hb ha]
  omega

/-- Every line but `.align` emits as many bytes as pass 1 reserved for it. -/
theorem Pass1.size_eq (h : Pass1 py st lines lines' st') (hl : ln ∈ lines')
    (ha : ln.op ≠ some ".align") (hb : ln.bytes py syms = .ok bs) : (bs.length : ℤ) = ln.size := by
  induction h with
  | nil => cases hl
  | cons head tail ih =>
    rcases List.mem_cons.mp hl with rfl | hl
    · exact head.size_eq ha hb
    · exact ih hl

/-- A line writes within its range, and is no alignment. -/
theorem Pass1.writes_range (h : Pass1 py st lines lines' st') (hl : ln ∈ lines') {a : ℤ}
    {b : BitVec 8} (hw : ln.Writes py syms a b) :
    ln.op ≠ some ".align" ∧ ln.pc ≤ a ∧ a < ln.pc + ln.size := by
  obtain ⟨bs, hb, i, rfl, hi⟩ := hw
  have hlt : i < bs.length := (List.getElem?_eq_some_iff.mp hi).1
  have ha : ln.op ≠ some ".align" := by
    intro ha
    rw [bytes_align hb ha] at hlt
    simp at hlt
  have hz := h.size_eq hl ha hb
  exact ⟨ha, by omega, by omega⟩

variable {textBase dataBase : ℤ}

/-- With `.text` below `.data`, the ranges of two lines do not meet. -/
theorem Pass1.disjoint (h : Pass1 py (.init textBase dataBase) lines lines' st')
    (hle : st'.pc .text ≤ dataBase) :
    lines'.Pairwise fun a b => a.pc + a.size ≤ b.pc ∨ b.pc + b.size ≤ a.pc := by
  refine List.Pairwise.imp_of_mem ?_ h.serial
  intro a b ha hb hs
  obtain ⟨ha1, -, ha2⟩ := h.range ha
  obtain ⟨hb1, -, hb2⟩ := h.range hb
  cases hsa : a.sec <;> cases hsb : b.sec <;> rw [hsa] at ha1 ha2 <;> rw [hsb] at hb1 hb2
  · exact .inl (hs (hsa.trans hsb.symm))
  · exact .inl (ha2.trans (hle.trans hb1))
  · exact .inr (hb2.trans (hle.trans ha1))
  · exact .inl (hs (hsa.trans hsb.symm))

end Lines

section DataBase
variable {py : Python} {source : String} {textBase : ℤ} {words : List ℤ}

/-- What the program puts into `.text`. -/
def textItems (py : Python) (source : String) : List Item :=
  itemsOf py .text .text (tokenize py source)

/-- The default data base is at or above the end of `.text`, and no two lines write to one
address. -/
def DataClear (py : Python) (source : String) (textBase : ℤ) : Prop :=
  ∀ sizes lines st, sizeLines py (tokenize py source) = .ok sizes →
    layOut py source textBase none = .ok (lines, st) →
      st.pc .text ≤ sizes.dataBase textBase ∧
        lines.Pairwise fun a b => ∀ addr c d,
          a.Writes py st.syms addr c → ¬ b.Writes py st.syms addr d

theorem text_end_le_iff {sizes : Sizes} {lines : List Line} {st : Layout} (h4 : 4 ∣ textBase)
    (hs : sizeLines py (tokenize py source) = .ok sizes)
    (hl : layOut py source textBase none = .ok (lines, st)) :
    st.pc .text ≤ sizes.dataBase textBase ↔
      padding (textItems py source) textBase ≤ padding (textItems py source) 0 := by
  obtain ⟨_, -, hp⟩ := layOut_eq_ok.mp hl
  have hpc : st.pc .text = stopAt (textItems py source) textBase := (pass1From_ok hp).pc_eq .text
  have hsz : sizes.sizes .text = stopAt (textItems py source) 0 := sizeLines_ok hs .text
  rw [hpc, dataBase_eq, hsz, stopAt_le_iff _ h4]

/-- The default data section is clear of `.text` exactly if `.text` needs no more padding from
its base than from 0. -/
theorem dataClear_iff (h : assemble py source textBase none = .ok words) (h4 : 4 ∣ textBase) :
    DataClear py source textBase ↔
      padding (textItems py source) textBase ≤ padding (textItems py source) 0 := by
  obtain ⟨lines, st, hl, -⟩ := assemble_eq_ok.mp h
  obtain ⟨sizes, hs, hp⟩ := layOut_eq_ok.mp hl
  constructor
  · intro hc
    exact (text_end_le_iff h4 hs hl).mp (hc sizes lines st hs hl).1
  · intro hle sizes' lines' st' hs' hl'
    rw [hs] at hs'
    cases hs'
    rw [hl] at hl'
    cases hl'
    have hend := (text_end_le_iff h4 hs hl).mpr hle
    refine ⟨hend, List.Pairwise.imp_of_mem ?_ ((pass1From_ok hp).disjoint hend)⟩
    intro a b ha hb hd addr c d hwa hwb
    have := (pass1From_ok hp).writes_range ha hwa
    have := (pass1From_ok hp).writes_range hb hwb
    omega

/-- A program that starts with an alignment. -/
def alignedSource : String := ".align 3\nnop\n.data\n.word 5\n"

theorem dataClear_iff_alignedSource :
    assemble .plain alignedSource 8 none = .ok [0x13, 5] ∧ (4 : ℤ) ∣ 8 ∧
      (DataClear .plain alignedSource 8 ↔
        padding (textItems .plain alignedSource) 8 ≤ padding (textItems .plain alignedSource) 0) :=
  have h : assemble .plain alignedSource 8 none = .ok [0x13, 5] := by decide +kernel
  ⟨h, by decide, dataClear_iff h (by decide)⟩

/-- At base 4 the instruction is at 8, and so is the datum. -/
theorem alignedSource_overlaps :
    assemble .plain alignedSource 4 none = .ok [5] ∧ ¬ DataClear .plain alignedSource 4 := by
  have h : assemble .plain alignedSource 4 none = .ok [5] := by decide +kernel
  refine ⟨h, ?_⟩
  intro hc
  obtain ⟨lines, st, hl, -⟩ := assemble_eq_ok.mp h
  obtain ⟨sizes, hs, -⟩ := layOut_eq_ok.mp hl
  have hle := (text_end_le_iff (by decide) hs hl).mp (hc sizes lines st hs hl).1
  revert hle
  decide +kernel

end DataBase
end RiscForge.Assembler
