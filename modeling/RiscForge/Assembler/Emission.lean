import RiscForge.Assembler.Placement

/-! The bytes each line emits in pass 2, and the image they make. -/
namespace RiscForge.Assembler

open Lib

/-- The bytes of a word in the order of their addresses. -/
def wordBytes (w : ℤ) : List (BitVec 8) :=
  (List.range 4).map fun i => leByte (w &&& 0xFFFFFFFF).toNat i

section Bytes
variable (py : Python) (syms : Syms) (ln : Line)

/-- The bytes that the line emits. -/
def Line.bytes : Asm (List (BitVec 8)) := do
  let out ← encodeLine py syms ln
  return if ln.op = some ".byte" then out.map (BitVec.ofInt 8) else out.flatMap wordBytes

/-- The bytes `bs` assigned from `addr` on. -/
def Image.write (image : Image) (addr : ℤ) : List (BitVec 8) → Image
  | [] => image
  | b :: bs => Image.write (image.set addr b.toNat) (addr + 1) bs

variable {image : Image} {addr : ℤ}

theorem write_append (bs cs : List (BitVec 8)) :
    image.write addr (bs ++ cs) = (image.write addr bs).write (addr + bs.length) cs := by
  induction bs generalizing image addr with
  | nil => simp [Image.write]
  | cons b bs ih =>
    rw [List.cons_append, Image.write, ih, Image.write, List.length_cons]
    push_cast
    congr 1
    ring

/-- Masking a byte out of a word. -/
theorem byte_of_word (n i : ℕ) :
    (n : ℤ) >>> (8 * i) &&& 0xFF = ((leByte n i).toNat : ℤ) := by
  have h := and_mask ((n : ℤ) >>> (8 * i)) (w := 8)
  rw [natCast_shiftRight] at h ⊢
  rw [show (0xFF : ℤ) = ((2 ^ 8 - 1 : ℕ) : ℤ) by norm_num, h, leByte, BitVec.ofInt_natCast,
    Nat.shiftRight_eq_div_pow, pow_mul]
  rfl

theorem emitWord_eq (w : ℤ) : emitWord image addr w = image.write addr (wordBytes w) := by
  simp only [emitWord, wordBytes]
  rw [and_word, Int.toNat_natCast]
  generalize (BitVec.ofInt 32 w).toNat = n
  have h0 : (n : ℤ) &&& 0xFF = ((leByte n 0).toNat : ℤ) := byte_of_word n 0
  have h1 : (n : ℤ) >>> 8 &&& 0xFF = ((leByte n 1).toNat : ℤ) := byte_of_word n 1
  have h2 : (n : ℤ) >>> 16 &&& 0xFF = ((leByte n 2).toNat : ℤ) := byte_of_word n 2
  have h3 : (n : ℤ) >>> 24 &&& 0xFF = ((leByte n 3).toNat : ℤ) := byte_of_word n 3
  rw [h0, h1, h2, h3]
  simp [List.range_succ, Image.write, add_assoc]

theorem emitWords_eq (out : List ℤ) :
    emitWords image addr out = image.write addr (out.flatMap wordBytes) := by
  induction out generalizing image addr with
  | nil => rfl
  | cons w out ih =>
    rw [emitWords, ih, List.flatMap_cons, write_append, emitWord_eq]
    rfl

theorem emitBytes_eq (out : List ℤ) :
    emitBytes image addr out = image.write addr (out.map (BitVec.ofInt 8)) := by
  induction out generalizing image addr with
  | nil => rfl
  | cons v out ih =>
    have hv : v &&& 0xFF = ((BitVec.ofInt 8 v).toNat : ℤ) := and_mask v (w := 8)
    rw [emitBytes, ih, hv]
    rfl

/-- Pass 2 assigns the bytes of a line from its `pc` on. -/
theorem emitLine_eq :
    emitLine py syms image ln = (ln.bytes py syms).map (image.write ln.pc) := by
  unfold emitLine Line.bytes
  cases hop : ln.op with
  | none => simp [encodeLine, hop, Except.map, bind, Except.bind, pure, Except.pure, Image.write]
  | some op =>
    cases encodeLine py syms ln with
    | error e => rfl
    | ok out =>
      by_cases hb : op = ".byte"
      · subst hb
        simp [Except.map, bind, Except.bind, pure, Except.pure, emitBytes_eq]
      · simp [Except.map, bind, Except.bind, pure, Except.pure, emitWords_eq, hb]

variable {py} {syms} {ln} {op : String} {out : List ℤ} {bs : List (BitVec 8)}

theorem instructionSize_of_table (h : (rTable op).isSome ∨ (iAluTable op).isSome ∨
    (loadTable op).isSome ∨ (storeTable op).isSome ∨ (branchTable op).isSome) :
    instructionSize op = 4 := by
  unfold instructionSize
  split
  case h_4 => rfl
  all_goals simp [rTable, iAluTable, loadTable, storeTable, branchTable] at h

/-- Every encoder emits as many words as pass 1 reserved. -/
theorem Accepted.length (h : Accepted py syms ln out op) :
    4 * (out.length : ℤ) = instructionSize op := by
  cases h with
  | reg ho h =>
    obtain ⟨-, _, -, _, -, _, -, rfl⟩ := encodeR_eq_ok.mp h
    rw [instructionSize_of_table (by simp [ho])]
    rfl
  | imm ho h =>
    obtain ⟨-, _, -, _, -, _, -, -, rfl⟩ := encodeIAlu_eq_ok.mp h
    rw [instructionSize_of_table (by simp [ho])]
    rfl
  | load ho h =>
    obtain ⟨-, _, -, _, -, _, -, -, rfl⟩ := encodeLoad_eq_ok.mp h
    rw [instructionSize_of_table (by simp [ho])]
    rfl
  | store ho h =>
    obtain ⟨-, _, -, _, -, _, -, -, rfl⟩ := encodeStore_eq_ok.mp h
    rw [instructionSize_of_table (by simp [ho])]
    rfl
  | branch ho h =>
    obtain ⟨-, _, -, _, -, _, -, -, rfl⟩ := encodeBranch_eq_ok.mp h
    rw [instructionSize_of_table (by simp [ho])]
    rfl
  | shift ho h =>
    obtain ⟨-, _, -, _, -, _, -, -, rfl⟩ := encodeShift_eq_ok.mp h
    rcases ho with rfl | rfl | rfl <;> rfl
  | jal h =>
    obtain ⟨_, _, -, -, rfl⟩ := encodeJal_eq_ok.mp h
    rfl
  | jalr h =>
    obtain ⟨_, _, _, -, -, rfl⟩ := encodeJalr_eq_ok.mp h
    rfl
  | upper ho h =>
    obtain ⟨-, _, -, _, -, -, rfl⟩ := encodeUpper_eq_ok.mp h
    rcases ho with rfl | rfl <;> rfl
  | fence h | fenceI h | ecall h | ebreak h | nop h =>
    subst h
    rfl
  | mv h | not h =>
    obtain ⟨-, _, -, _, -, rfl⟩ := encodeMove_eq_ok.mp h
    rfl
  | neg h =>
    obtain ⟨-, _, -, _, -, rfl⟩ := encodeNeg_eq_ok.mp h
    rfl
  | j h =>
    obtain ⟨-, _, -, -, rfl⟩ := encodeJ_eq_ok.mp h
    rfl
  | jr h =>
    obtain ⟨-, _, -, rfl⟩ := encodeJr_eq_ok.mp h
    rfl
  | ret h =>
    obtain ⟨-, rfl⟩ := encodeRet_eq_ok.mp h
    rfl
  | beqz h | bnez h =>
    obtain ⟨-, _, -, _, -, -, rfl⟩ := encodeBranchZero_eq_ok.mp h
    rfl
  | li h =>
    obtain ⟨-, _, -, _, -, rfl⟩ := encodeLi_eq_ok.mp h
    unfold liWords
    split <;> rfl
  | la h =>
    obtain ⟨-, _, -, _, -, rfl⟩ := encodeLa_eq_ok.mp h
    rfl
  | call h =>
    obtain ⟨-, _, -, rfl⟩ := encodeCall_eq_ok.mp h
    rfl

theorem encodeData_length {mask : ℤ} (h : encodeData py syms ln mask = .ok out) :
    out.length = ln.args.length := by
  unfold encodeData at h
  generalize ln.args = args at h
  induction args generalizing out with
  | nil =>
    cases h
    rfl
  | cons a args ih =>
    rw [List.mapM_cons] at h
    obtain ⟨v, -, h⟩ := bind_eq_ok.mp h
    obtain ⟨rest, hr, h⟩ := bind_eq_ok.mp h
    cases h
    simp [ih hr]

theorem length_flatMap_wordBytes (out : List ℤ) :
    (out.flatMap wordBytes).length = 4 * out.length := by
  simp [wordBytes, List.length_flatMap, Nat.mul_comm]

theorem bytes_eq_ok : ln.bytes py syms = .ok bs ↔ ∃ out, encodeLine py syms ln = .ok out ∧
    bs = if ln.op = some ".byte" then out.map (BitVec.ofInt 8) else out.flatMap wordBytes := by
  rw [Line.bytes, bind_eq_ok]
  simp only [pure_eq_ok]

/-- A line that is not an alignment emits what its item has room for. -/
theorem bytes_items (h : ln.bytes py syms = .ok bs) (ha : ln.op ≠ some ".align") (pos : ℤ) :
    stopAt (ln.items py) pos = pos + bs.length := by
  obtain ⟨out, he, rfl⟩ := bytes_eq_ok.mp h
  unfold encodeLine at he
  split at he
  next hop =>
    cases he
    simp [Line.items, hop]
  next hop =>
    cases he
    simp [Line.items, hop]
  next hop =>
    cases he
    simp [Line.items, hop]
  next hop => exact (ha hop).elim
  next hop =>
    have hl := encodeData_length he
    have hi : ln.items py = [.bytes (4 * ln.args.length)] := by simp [Line.items, hop]
    rw [if_neg (by simp [hop]), hi, stopAt_bytes, length_flatMap_wordBytes, hl]
  next hop =>
    have hl := encodeData_length he
    have hi : ln.items py = [.bytes ln.args.length] := by simp [Line.items, hop]
    rw [if_pos hop, hi, stopAt_bytes, List.length_map, hl]
  next op hop h1 h2 h3 h4 h5 =>
    have hl := (encodeInstruction_accepted he).length
    have hi : ln.items py = [.bytes (instructionSize op).toNat] := by
      unfold Line.items
      split <;> simp_all
    have hb : op ≠ ".byte" := by simpa [h5] using h4
    rw [if_neg (by simp_all), hi, stopAt_bytes, toNat_instructionSize, ← hl,
      length_flatMap_wordBytes]
    push_cast
    rfl

theorem bytes_align (h : ln.bytes py syms = .ok bs) (ha : ln.op = some ".align") : bs = [] := by
  obtain ⟨out, he, rfl⟩ := bytes_eq_ok.mp h
  simp only [encodeLine, ha] at he
  cases he
  simp [ha]

end Bytes

section Image
variable {py : Python} {syms : Syms} {image image' : Image} {lines : List Line} {ln : Line}
  {a : ℤ} {b : BitVec 8}

/-- The line emits the byte `b` for the address `a`. -/
def Line.Writes (py : Python) (syms : Syms) (ln : Line) (a : ℤ) (b : BitVec 8) : Prop :=
  ∃ bs, ln.bytes py syms = .ok bs ∧ ∃ i : ℕ, a = ln.pc + i ∧ bs[i]? = some b

theorem Line.Writes.unique {c : BitVec 8} (hb : ln.Writes py syms a b)
    (hc : ln.Writes py syms a c) : b = c := by
  obtain ⟨bs, hbs, i, hi, hb⟩ := hb
  obtain ⟨cs, hcs, j, hj, hc⟩ := hc
  rw [hbs] at hcs
  cases hcs
  obtain rfl : i = j := by omega
  exact Option.some.inj (hb.symm.trans hc)

theorem lookup_set (image : Image) (addr v a : ℤ) :
    (image.set addr v).lookup a = if a = addr then some v else image.lookup a := by
  rw [Image.set, List.lookup_cons]
  by_cases h : a = addr
  · simp [h]
  · rw [if_neg h, beq_eq_false_iff_ne.mpr h]

theorem lookup_write (image : Image) (addr : ℤ) (bs : List (BitVec 8)) (a : ℤ) :
    (image.write addr bs).lookup a =
      if addr ≤ a ∧ a < addr + bs.length then
        bs[(a - addr).toNat]?.map fun b => (b.toNat : ℤ)
      else image.lookup a := by
  induction bs generalizing image addr with
  | nil => rw [Image.write, if_neg (by simp)]
  | cons b bs ih =>
    rw [Image.write, ih, lookup_set, List.length_cons]
    push_cast
    by_cases h0 : a = addr
    · subst h0
      rw [if_neg (by omega), if_pos rfl, if_pos (by omega), sub_self]
      rfl
    · rw [if_neg h0]
      refine ite_congr (by simp; omega) ?_ fun _ => rfl
      intro h
      obtain ⟨k, hk⟩ : ∃ k : ℕ, a - (addr + 1) = k := ⟨(a - (addr + 1)).toNat, by omega⟩
      rw [show a - addr = ((k + 1 : ℕ) : ℤ) by omega, hk, Int.toNat_natCast, Int.toNat_natCast,
        List.getElem?_cons_succ]

/-- A write shows at the addresses of its bytes and at no other. -/
theorem lookup_writeLine (image : Image) {bs : List (BitVec 8)} (h : ln.bytes py syms = .ok bs)
    (a : ℤ) :
    (∃ b, ln.Writes py syms a b ∧ (image.write ln.pc bs).lookup a = some (b.toNat : ℤ)) ∨
      ((∀ b, ¬ ln.Writes py syms a b) ∧ (image.write ln.pc bs).lookup a = image.lookup a) := by
  rw [lookup_write]
  by_cases hr : ln.pc ≤ a ∧ a < ln.pc + bs.length
  · left
    have hlt : (a - ln.pc).toNat < bs.length := by omega
    refine ⟨bs[(a - ln.pc).toNat], ⟨bs, h, (a - ln.pc).toNat, by omega, ?_⟩, ?_⟩
    · exact List.getElem?_eq_getElem hlt
    · rw [if_pos hr, List.getElem?_eq_getElem hlt]
      rfl
  · right
    rw [if_neg hr]
    refine ⟨?_, rfl⟩
    rintro b ⟨cs, hc, i, rfl, hi⟩
    rw [h] at hc
    cases hc
    have hlt : i < bs.length := (List.getElem?_eq_some_iff.mp hi).1
    omega

/-- A run of pass 2 over some lines. -/
inductive Pass2 (py : Python) (syms : Syms) : Image → List Line → Image → Prop
  | nil (image : Image) : Pass2 py syms image [] image
  | cons {image image' : Image} {ln : Line} {lines : List Line} {bs : List (BitVec 8)}
      (head : ln.bytes py syms = .ok bs)
      (tail : Pass2 py syms (image.write ln.pc bs) lines image') :
      Pass2 py syms image (ln :: lines) image'

theorem emitFrom_ok (h : lines.foldlM (emitLine py syms) image = .ok image') :
    Pass2 py syms image lines image' := by
  induction lines generalizing image with
  | nil =>
    cases h
    exact .nil _
  | cons ln lines ih =>
    rw [List.foldlM_cons] at h
    obtain ⟨image₁, hl, h⟩ := bind_eq_ok.mp h
    rw [emitLine_eq] at hl
    cases hb : ln.bytes py syms with
    | error e =>
      rw [hb] at hl
      cases hl
    | ok bs =>
      rw [hb] at hl
      cases hl
      exact .cons hb (ih h)

theorem Pass2.bytes (h : Pass2 py syms image lines image') (hl : ln ∈ lines) :
    ∃ bs, ln.bytes py syms = .ok bs := by
  induction h with
  | nil => cases hl
  | cons head tail ih =>
    rcases List.mem_cons.mp hl with rfl | hl
    · exact ⟨_, head⟩
    · exact ih hl

/-- The image holds at each address what the last line that writes it emits there. -/
theorem Pass2.lookup (h : Pass2 py syms image lines image') (a : ℤ) :
    (∃ ln ∈ lines, ∃ b, ln.Writes py syms a b ∧ image'.lookup a = some (b.toNat : ℤ)) ∨
      ((∀ ln ∈ lines, ∀ b, ¬ ln.Writes py syms a b) ∧ image'.lookup a = image.lookup a) := by
  induction h with
  | nil => simp
  | @cons image image' ln lines bs head tail ih =>
    rcases ih with ⟨m, hm, b, hw, hb⟩ | ⟨hn, hb⟩
    · exact .inl ⟨m, List.mem_cons_of_mem _ hm, b, hw, hb⟩
    · rw [hb]
      rcases lookup_writeLine image head a with ⟨b, hw, hl⟩ | ⟨hw, hl⟩
      · exact .inl ⟨ln, List.mem_cons_self .., b, hw, hl⟩
      · right
        refine ⟨?_, hl⟩
        intro m hm
        rcases List.mem_cons.mp hm with rfl | hm
        · exact hw
        · exact hn m hm

end Image
end RiscForge.Assembler
