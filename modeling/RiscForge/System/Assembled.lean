import RiscForge.System.Image
import RiscForge.System.Source

/-! The image of an assembled program holds the words of its lines. -/
namespace RiscForge.System

open Lib Rtl Refmodel Isa Assembler

/-- The addresses inside the aligned instruction lines. -/
def programCode (lines : List Line) (a : ℕ) : Bool :=
  lines.any fun ln => ln.isInstruction && decide (ln.pc % 4 = 0 ∧ ln.pc ≤ a ∧ a < ln.pc + ln.size)

theorem programCode_iff {lines : List Line} {a : ℕ} : programCode lines a = true ↔
    ∃ ln ∈ lines, ln.isInstruction = true ∧ ln.pc % 4 = 0 ∧ ln.pc ≤ a ∧ a < ln.pc + ln.size := by
  simp only [programCode, List.any_eq_true, Bool.and_eq_true, decide_eq_true_eq]

section Assembled
variable {py : Python} {source : String} {sizes : Sizes} {lines : List Line} {st : Layout}
  {image : Image} {ln : Line} {out : List ℤ} {op : String}

/-- Words with the same bytes are the same. -/
theorem word_ext {u v : Word} (h : ∀ j < 4, leByte u.toNat j = leByte v.toNat j) : u = v := by
  apply BitVec.eq_of_toNat_eq
  rw [← leNat_word u, ← leNat_word v]
  exact leNat_congr h

/-- What the address of a line's word is assigned. -/
theorem writes_word (hop : ln.op = some op)
    (hd : op ∉ [".text", ".data", ".align", ".word", ".byte"])
    (he : encodeLine py st.syms ln = .ok out) {k : ℕ} {w : ℤ} (hk : out[k]? = some w) {j : ℕ}
    (hj : j < 4) : ln.Writes py st.syms (ln.pc + (4 * k + j : ℕ))
      (leByte (BitVec.ofInt 32 w).toNat j) := by
  have hb : ln.op ≠ some ".byte" := by
    rintro hop'
    rw [hop] at hop'
    cases hop'
    exact hd (by decide)
  refine ⟨out.flatMap wordBytes, bytes_eq_ok.mpr ⟨out, he, by rw [if_neg hb]⟩, 4 * k + j, rfl, ?_⟩
  rw [getElem?_flatMap_wordBytes _ _ hj, hk, Option.map_some, and_word, Int.toNat_natCast]

theorem Assembled.size_words (h : Assembled py source 0 sizes lines st image) (hl : ln ∈ lines)
    (hln : ln.isInstruction = true) :
    ∃ op out, ln.op = some op ∧ op ∉ [".text", ".data", ".align", ".word", ".byte"] ∧
      encodeLine py st.syms ln = .ok out ∧ ln.size = 4 * out.length := by
  obtain ⟨bs, hbs⟩ := h.pass2.bytes hl
  obtain ⟨out, he, hb⟩ := bytes_eq_ok.mp hbs
  cases hop : ln.op with
  | none => simp [Line.isInstruction, hop] at hln
  | some op =>
    have hd := (isInstruction_iff hop).mp hln
    have ha : ln.op ≠ some ".align" := by
      rw [hop]
      rintro ⟨⟩
      exact hd (by decide)
    have hne : op ≠ ".byte" := by
      rintro rfl
      exact hd (by decide)
    have hsz := h.pass1.size_eq hl ha hbs
    rw [hb, hop, if_neg (by simpa using hne), length_flatMap_wordBytes] at hsz
    exact ⟨op, out, rfl, hd, he, by push_cast at hsz; omega⟩

/-- Each word of a line is the image's word at that address. -/
theorem Assembled.wordAt_eq (h : Assembled py source 0 sizes lines st image) (hl : ln ∈ lines)
    (hop : ln.op = some op) (hd : op ∉ [".text", ".data", ".align", ".word", ".byte"])
    (he : encodeLine py st.syms ln = .ok out) {k : ℕ} {w : ℤ} (hk : out[k]? = some w) {m : ℕ}
    (hm : ln.pc + (4 * k : ℕ) = (4 * m : ℕ)) :
    m < (packWords image).length ∧ wordAt (packWords image) m = .ofInt 32 w := by
  have hbyte : ∀ j < 4, 4 * m + j < 4 * (packWords image).length ∧
      leByte (wordAt (packWords image) m).toNat j = leByte (BitVec.ofInt 32 w).toNat j := by
    intro j hj
    have hw := writes_word hop hd he hk hj
    have ha : ln.pc + (4 * k + j : ℕ) = (4 * m + j : ℕ) := by
      push_cast at hm ⊢
      omega
    rw [ha] at hw
    have hhas := h.pass2.has_iff.mpr ⟨ln, hl, _, hw⟩
    have hne : image ≠ [] := by
      rintro rfl
      cases hhas
    have hp := h.packed hne
    have hlt := (hp.covers _ hhas).2
    have hlt' : 4 * m + j < 4 * (packWords image).length := by
      push_cast at hlt
      omega
    refine ⟨hlt', ?_⟩
    rw [← h.pass2.byte_eq (fun a ha b hb c => h.writes_unique ha hb) hl hw, ← zero_add
      ((4 * m + j : ℕ) : ℤ), ← hp.wordsByte hlt', wordsByte_eq]
    congr 3 <;> omega
  refine ⟨?_, word_ext fun j hj => (hbyte j hj).2⟩
  have := (hbyte 0 (by omega)).1
  omega

/-- The image holds the words of the lines, if the memory has room for it. -/
theorem Assembled.compiled (h : Assembled py source 0 sizes lines st image) {hi tohost : ℕ}
    (hhi : 4 * (packWords image).length ≤ hi) (h32 : hi ≤ 2 ^ 32) :
    Compiled ⟨py, lines, st.syms, hi, tohost⟩
      (imageMachine (packWords image) (programCode lines) hi tohost hhi) where
  lo := rfl
  hi := rfl
  tohost := rfl
  words pc ln stmt hat := by
    obtain ⟨op, out, hop, hd, he, hsz⟩ := Assembled.size_words h hat.mem hat.isInstruction
    refine ⟨out, he, fun k w hk => ?_⟩
    have hklt : k < out.length := (List.getElem?_eq_some_iff.mp hk).1
    have hal := hat.aligned
    have hline := hat.line
    obtain ⟨hm, hw⟩ := Assembled.wordAt_eq h hat.mem hop hd he hk (m := pc.toNat / 4 + k)
      (by rw [hline]; push_cast; omega)
    have hq : (pc + BitVec.ofNat 32 (4 * k)).toNat = 4 * (pc.toNat / 4 + k) := by
      rw [BitVec.toNat_add, BitVec.toNat_ofNat, Nat.add_mod_mod, Nat.mod_eq_of_lt (by omega)]
      omega
    have hdiv : (pc + BitVec.ofNat 32 (4 * k)).toNat / 4 = pc.toNat / 4 + k := by omega
    change imageCode _ _ _ = _
    rw [imageCode, if_pos, hdiv, hw]
    refine ⟨by omega, by rwa [hdiv], programCode_iff.mpr ⟨ln, hat.mem, hat.isInstruction, ?_⟩⟩
    rw [hline, hsz, hq]
    omega
  code q hq := by
    obtain ⟨i, hi⟩ := Option.isSome_iff_exists.mp hq
    obtain ⟨hal, hlt, hc, -⟩ := imageCode_eq_some hi
    obtain ⟨ln, hl, hln, h4, hlo, hhi⟩ := programCode_iff.mp hc
    obtain ⟨op, out, -, -, -, hsz⟩ := Assembled.size_words h hl hln
    exact ⟨ln, hl, hln, hlo, by omega⟩

end Assembled
section Runs
variable {py : Python} {source : String} {words : List ℤ} {hi tohost n : ℕ} {c : Cpu} {e : Ending}

/-- The machine of a program and its words. -/
def machineOf (P : Program) (words : List ℤ) (h : 4 * words.length ≤ P.hi) : Machine :=
  imageMachine words (programCode P.lines) P.hi P.tohost h

theorem compiled (ha : assemble py source 0 none = .ok words) (hhi : 4 * words.length ≤ hi)
    (h32 : hi ≤ 2 ^ 32) : Compiled (Program.of py source hi tohost)
      (machineOf (Program.of py source hi tohost) words hhi) := by
  obtain ⟨sizes, lines, st, image, h, rfl⟩ := assembled_of_ok ha
  have hl : laidOut py source = (lines, st.syms) := by rw [laidOut, h.layOut]
  have hp : Program.of py source hi tohost = ⟨py, lines, st.syms, hi, tohost⟩ := by
    rw [Program.of, hl]
  have hc : Compiled ⟨py, lines, st.syms, hi, tohost⟩ _ := Assembled.compiled h hhi h32
  rw [← hp] at hc
  simp only [machineOf, Program.of, hl] at hc ⊢
  exact hc

/-- A run of the program is a run of the machine, of one or two instructions a line. -/
theorem machine_run (ha : assemble py source 0 none = .ok words) (hhi : 4 * words.length ≤ hi)
    (h32 : hi ≤ 2 ^ 32) (hr : Steps (Program.of py source hi tohost).Step n (imageCpu words) c)
    (he : (Program.of py source hi tohost).Ends c e) :
    ∃ m, n ≤ m ∧ m ≤ 2 * n ∧
      Steps (machineOf (Program.of py source hi tohost) words hhi).Step m (imageCpu words) c ∧
      (machineOf (Program.of py source hi tohost) words hhi).Ends c e := by
  have hc : Compiled (Program.of py source hi tohost) _ := compiled ha hhi h32
  obtain ⟨m, d, hm, hm', hs, rfl⟩ := hc.simulates.steps hr rfl
  exact ⟨m, hm, hm', hs, hc.ends he⟩

end Runs
section Testbenches

/-- The program of the testbenches: the data memory of the core, and the default `tohost`. -/
def benchProgram (py : Python) (src : String) : Program := .of py src (4 * 2 ^ 12) 0x80001000

/-- The words fit into the data memory, and the instructions into the instruction memory. -/
structure Fits (P : Program) (words : List ℤ) : Prop where
  data : words.length ≤ 4096
  code : ∀ ln ∈ P.lines, ln.isInstruction = true → ln.pc + ln.size ≤ 4096

end Testbenches
end RiscForge.System
