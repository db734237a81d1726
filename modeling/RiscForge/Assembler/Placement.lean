import RiscForge.Assembler.Accepted
import RiscForge.Assembler.Assemble
import RiscForge.Lib.Align

/-! What pass 1 and the sizing loop do with each line, as items of a serial layout. -/
namespace RiscForge.Assembler

open Lib

variable (py : Python)

section Items

/-- The section that is active after the line. -/
def Line.switch (ln : Line) (current : Section) : Section :=
  match ln.op with
  | some ".text" => .text
  | some ".data" => .data
  | _ => current

/-- What the line puts into its section. -/
def Line.items (ln : Line) : List Item :=
  match ln.op with
  | none | some ".text" | some ".data" => []
  | some ".align" =>
    match parseInt py (ln.args.getD 0 "") ln.lineno ln.raw with
    | .ok n => [.align n.toNat]
    | .error _ => []
  | some ".word" => [.bytes (4 * ln.args.length)]
  | some ".byte" => [.bytes ln.args.length]
  | some op => [.bytes (instructionSize op).toNat]

/-- What the lines put into the section `sec`. -/
def itemsOf (sec current : Section) : List Line → List Item
  | [] => []
  | ln :: lines =>
    (if current = sec then ln.items py else []) ++ itemsOf sec (ln.switch current) lines

theorem instructionSize_cases (op : String) : instructionSize op = 4 ∨ instructionSize op = 8 := by
  unfold instructionSize
  split <;> simp

theorem toNat_instructionSize (op : String) : ((instructionSize op).toNat : ℤ) = instructionSize op := by
  rcases instructionSize_cases op with h | h <;> rw [h] <;> rfl

theorem padTo_eq (v : ℤ) (n : ℕ) : padTo v n = v + padBelow v n := roundUp_eq v n

@[simp] theorem stopAt_nil (pos : ℤ) : stopAt [] pos = pos := rfl

@[simp] theorem stopAt_bytes (n : ℕ) (pos : ℤ) : stopAt [.bytes n] pos = pos + n := by
  simp [stopAt, Item.stop, Item.room, Item.pad]

theorem stopAt_align (n : ℕ) (pos : ℤ) : stopAt [.align n] pos = padTo pos n := by
  simp [stopAt, Item.stop, Item.room, Item.pad, padTo_eq]

theorem stopAt_append (xs ys : List Item) (pos : ℤ) :
    stopAt (xs ++ ys) pos = stopAt ys (stopAt xs pos) := List.foldl_append ..

end Items

section Pass1
variable {py} {st st' : Layout} {ln ln' : Line} {lines lines' : List Line}

/-- What pass 1 makes of a line. -/
structure Placed (py : Python) (st : Layout) (ln ln' : Line) (st' : Layout) : Prop where
  line : ln' = { ln with
    sec := ln.switch st.current
    pc := st.pc (ln.switch st.current)
    size := stopAt (ln.items py) (st.pc st.current) - st.pc st.current }
  current : st'.current = ln.switch st.current
  pc : st'.pc = Function.update st.pc st.current (stopAt (ln.items py) (st.pc st.current))
  syms : st'.syms = match ln.label with
    | none => st.syms
    | some label => (label, st.pc st.current) :: st.syms
  fresh : ∀ label, ln.label = some label → st.syms.lookup label = none

theorem define_ok (h : st.define py ln = .ok st') :
    st'.pc = st.pc ∧ st'.current = st.current ∧
      (st'.syms = match ln.label with
        | none => st.syms
        | some label => (label, st.pc st.current) :: st.syms) ∧
      ∀ label, ln.label = some label → st.syms.lookup label = none := by
  unfold Layout.define at h
  cases hl : ln.label with
  | none =>
    rw [hl] at h
    cases h
    exact ⟨rfl, rfl, rfl, by simp⟩
  | some label =>
    rw [hl] at h
    by_cases hs : (st.syms.lookup label).isSome = true
    · simp only [if_pos hs] at h
      exact (fail_ne_ok h).elim
    · simp only [if_neg hs] at h
      cases h
      refine ⟨rfl, rfl, rfl, ?_⟩
      rintro _ ⟨⟩
      exact Option.not_isSome_iff_eq_none.mp hs

variable {st₁ : Layout}

/-- A line that stays in its section is placed there. -/
theorem Placed.of_place {size : ℤ} (hd : st.define py ln = .ok st₁)
    (hs : ln.switch st.current = st.current)
    (hz : size = stopAt (ln.items py) (st₁.pc st₁.current) - st₁.pc st₁.current)
    (h : st₁.place ln size = (ln', st')) : Placed py st ln ln' st' := by
  obtain ⟨hpc, hcur, hsyms, hfresh⟩ := define_ok hd
  cases h
  rw [hpc, hcur] at hz
  constructor
  · rw [hs, ← hz, hpc, hcur]
  · exact hcur.trans hs.symm
  · change Function.update st₁.pc st₁.current (st₁.pc st₁.current + size) = _
    rw [hpc, hcur, hz, add_sub_cancel]
  · exact hsyms
  · exact hfresh

theorem Placed.of_switch {sec : Section} (hd : st.define py ln = .ok st₁)
    (hs : ln.switch st.current = sec) (hi : ln.items py = [])
    (h : st₁.switch ln sec = (ln', st')) : Placed py st ln ln' st' := by
  obtain ⟨hpc, hcur, hsyms, hfresh⟩ := define_ok hd
  cases h
  constructor
  · rw [hs, hi, stopAt_nil, sub_self, hpc]
  · exact hs.symm
  · rw [hi, stopAt_nil, Function.update_eq_self]
    exact hpc
  · exact hsyms
  · exact hfresh

theorem pass1Line_ok (h : pass1Line py st ln = .ok (ln', st')) : Placed py st ln ln' st' := by
  unfold pass1Line at h
  obtain ⟨st₁, hd, h⟩ := bind_eq_ok.mp h
  split at h
  next hop =>
    apply Placed.of_place hd _ _ (Except.ok.inj h)
    · simp [Line.switch, hop]
    · simp [Line.items, hop]
  next hop =>
    apply Placed.of_switch hd _ _ (Except.ok.inj h)
    · simp [Line.switch, hop]
    · simp [Line.items, hop]
  next hop =>
    apply Placed.of_switch hd _ _ (Except.ok.inj h)
    · simp [Line.switch, hop]
    · simp [Line.items, hop]
  next hop =>
    split at h
    · exact (fail_ne_ok h).elim
    obtain ⟨n, hn, h⟩ := bind_eq_ok.mp h
    split at h
    · apply Placed.of_place hd _ _ (Except.ok.inj h)
      · simp [Line.switch, hop]
      · have hi : ln.items py = [.align n.toNat] := by
          simp only [Line.items, hop, hn]
        rw [hi, stopAt_align]
    · obtain ⟨shown, -, h⟩ := bind_eq_ok.mp h
      exact (fail_ne_ok h).elim
  next hop =>
    split at h
    · exact (fail_ne_ok h).elim
    apply Placed.of_place hd _ _ (Except.ok.inj h)
    · simp [Line.switch, hop]
    · simp [Line.items, hop]
  next hop =>
    split at h
    · exact (fail_ne_ok h).elim
    apply Placed.of_place hd _ _ (Except.ok.inj h)
    · simp [Line.switch, hop]
    · simp [Line.items, hop]
  next op hop h1 h2 h3 h4 h5 =>
    apply Placed.of_place hd _ _ (Except.ok.inj h)
    · simp_all [Line.switch]
    · have hi : ln.items py = [.bytes (instructionSize op).toNat] := by
        unfold Line.items
        split <;> simp_all
      rw [hi, stopAt_bytes, toNat_instructionSize, add_sub_cancel_left]

/-- A run of pass 1 over some lines. -/
inductive Pass1 (py : Python) : Layout → List Line → List Line → Layout → Prop
  | nil (st : Layout) : Pass1 py st [] [] st
  | cons {st st₁ st' : Layout} {ln ln' : Line} {lines lines' : List Line}
      (head : Placed py st ln ln' st₁) (tail : Pass1 py st₁ lines lines' st') :
      Pass1 py st (ln :: lines) (ln' :: lines') st'

theorem pass1From_ok (h : pass1From py st lines = .ok (lines', st')) :
    Pass1 py st lines lines' st' := by
  induction lines generalizing st lines' with
  | nil =>
    cases h
    exact .nil _
  | cons ln lines ih =>
    obtain ⟨⟨ln₁, st₁⟩, hl, h⟩ := bind_eq_ok.mp h
    obtain ⟨⟨lines₁, st₂⟩, hr, h⟩ := bind_eq_ok.mp h
    cases h
    exact .cons (pass1Line_ok hl) (ih hr)

end Pass1

section Places
variable {py} {st st' : Layout} {ln ln' : Line} {lines lines' : List Line}

theorem items_of_switch {current : Section} (h : ln.switch current ≠ current) :
    ln.items py = [] := by
  unfold Line.switch at h
  split at h
  · simp [Line.items, *]
  · simp [Line.items, *]
  · exact (h rfl).elim

theorem Placed.pc_eq (h : Placed py st ln ln' st') (sec : Section) :
    st'.pc sec = stopAt (if st.current = sec then ln.items py else []) (st.pc sec) := by
  rw [h.pc]
  by_cases hs : st.current = sec
  · subst hs
    simp
  · rw [Function.update_of_ne (Ne.symm hs), if_neg hs, stopAt_nil]

theorem Placed.pc_le (h : Placed py st ln ln' st') (sec : Section) : st.pc sec ≤ st'.pc sec := by
  rw [h.pc_eq sec]
  exact le_stopAt _ _

/-- The line takes the room between the old and the new `pc` of its section. -/
theorem Placed.range (h : Placed py st ln ln' st') :
    ln'.pc = st.pc ln'.sec ∧ ln'.pc + ln'.size = st'.pc ln'.sec := by
  have hs : ln'.sec = ln.switch st.current := by rw [h.line]
  have hp : ln'.pc = st.pc ln'.sec := by rw [h.line]
  refine ⟨hp, ?_⟩
  have hz : ln'.size = stopAt (ln.items py) (st.pc st.current) - st.pc st.current := by rw [h.line]
  rw [hp, h.pc_eq, hz, hs]
  by_cases hc : ln.switch st.current = st.current
  · rw [hc, if_pos rfl, add_sub_cancel]
  · rw [items_of_switch hc, stopAt_nil, sub_self, add_zero, ite_self, stopAt_nil]

theorem Pass1.pc_eq (h : Pass1 py st lines lines' st') (sec : Section) :
    st'.pc sec = stopAt (itemsOf py sec st.current lines) (st.pc sec) := by
  induction h with
  | nil st => rfl
  | cons head tail ih => rw [ih, itemsOf, stopAt_append, ← head.pc_eq, head.current]

theorem Pass1.pc_le (h : Pass1 py st lines lines' st') (sec : Section) :
    st.pc sec ≤ st'.pc sec := by
  rw [h.pc_eq sec]
  exact le_stopAt _ _

/-- Every line lies within the part of its section that the run lays out. -/
theorem Pass1.range (h : Pass1 py st lines lines' st') {a : Line} (ha : a ∈ lines') :
    st.pc a.sec ≤ a.pc ∧ 0 ≤ a.size ∧ a.pc + a.size ≤ st'.pc a.sec := by
  induction h with
  | nil st => cases ha
  | cons head tail ih =>
    rcases List.mem_cons.mp ha with rfl | ha
    · obtain ⟨hp, hz⟩ := head.range
      have h1 := head.pc_le a.sec
      have h2 := tail.pc_le a.sec
      omega
    · obtain ⟨h1, h2, h3⟩ := ih ha
      exact ⟨(head.pc_le a.sec).trans h1, h2, h3⟩

/-- Within a section the lines follow one another. -/
theorem Pass1.serial (h : Pass1 py st lines lines' st') :
    lines'.Pairwise fun a b => a.sec = b.sec → a.pc + a.size ≤ b.pc := by
  induction h with
  | nil st => exact .nil
  | cons head tail ih =>
    refine List.Pairwise.cons ?_ ih
    intro b hb hs
    rw [head.range.2, hs]
    exact (tail.range hb).1

end Places

section Sizing
variable {py} {st st' : Sizes} {ln : Line} {lines : List Line}

/-- The sizing loop lays the same items from 0. -/
theorem sizeLine_ok (h : sizeLine py st ln = .ok st') :
    st'.current = ln.switch st.current ∧
      st'.sizes =
        Function.update st.sizes st.current (stopAt (ln.items py) (st.sizes st.current)) := by
  unfold sizeLine at h
  split at h
  next hop =>
    cases h
    simp [Line.switch, Line.items, hop]
  next hop =>
    cases h
    simp [Line.switch, Line.items, hop]
  next hop =>
    cases h
    simp [Line.switch, Line.items, hop]
  next hop =>
    split at h
    next ha =>
      cases h
      have hi : ln.items py = [] := by
        simp only [Line.items, hop, ha]
        rfl
      simp [Line.switch, hop, hi]
    next a as ha =>
      obtain ⟨n, hn, h⟩ := bind_eq_ok.mp h
      split at h
      · cases h
      split at h
      · cases h
      cases h
      have hi : ln.items py = [.align n.toNat] := by
        simp only [Line.items, hop, ha, List.getD_cons_zero, hn]
      simp [Line.switch, hop, hi, stopAt_align]
  next hop =>
    cases h
    simp [Line.switch, Line.items, hop, Sizes.add]
  next hop =>
    cases h
    simp [Line.switch, Line.items, hop, Sizes.add]
  next op hop h1 h2 h3 h4 h5 =>
    cases h
    have hi : ln.items py = [.bytes (instructionSize op).toNat] := by
      unfold Line.items
      split <;> simp_all
    constructor
    · simp_all [Line.switch, Sizes.add]
    · rw [hi, stopAt_bytes, toNat_instructionSize]
      rfl

theorem sizeLinesFrom_ok (h : lines.foldlM (sizeLine py) st = .ok st') (sec : Section) :
    st'.sizes sec = stopAt (itemsOf py sec st.current lines) (st.sizes sec) := by
  induction lines generalizing st with
  | nil =>
    cases h
    rfl
  | cons ln lines ih =>
    rw [List.foldlM_cons] at h
    obtain ⟨st₁, hl, h⟩ := bind_eq_ok.mp h
    obtain ⟨hcur, hsz⟩ := sizeLine_ok hl
    rw [ih h, itemsOf, stopAt_append, hcur, hsz]
    by_cases hs : st.current = sec
    · subst hs
      rw [Function.update_self, if_pos rfl]
    · rw [Function.update_of_ne (Ne.symm hs), if_neg hs, stopAt_nil]

theorem sizeLines_ok {st' : Sizes} (h : sizeLines py lines = .ok st') (sec : Section) :
    st'.sizes sec = stopAt (itemsOf py sec .text lines) 0 := sizeLinesFrom_ok h sec

/-- The default base is the end of `.text` laid from 0, rounded up to a word. -/
theorem dataBase_eq (st : Sizes) (textBase : ℤ) :
    st.dataBase textBase = textBase + (st.sizes .text + padBelow (st.sizes .text) 2) := by
  have h3 : st.sizes .text + (1 : ℤ) <<< (2 : ℕ) - 1 = st.sizes .text + 3 := by
    change st.sizes .text + 4 - 1 = _
    omega
  rw [← roundUp_eq, h3]
  rfl

end Sizing
end RiscForge.Assembler
