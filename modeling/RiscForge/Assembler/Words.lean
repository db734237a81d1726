import RiscForge.Assembler.Emission
import RiscForge.Lib.HexText
import RiscForge.Refmodel.Access

/-! The word list of an image. -/
namespace RiscForge.Assembler

open Lib

section Packing
variable {image : Image} {a : ℤ}

/-- The address is assigned a byte. -/
def Image.Has (image : Image) (a : ℤ) : Prop := (image.lookup a).isSome = true

/-- Everything in the image is a byte. -/
def Image.Bytes (image : Image) : Prop :=
  ∀ a v, image.lookup a = some v → ∃ b : BitVec 8, v = b.toNat

/-- The byte at an address, zero where there is none. -/
def Image.byte (image : Image) (a : ℤ) : BitVec 8 := BitVec.ofInt 8 (image.get a)

theorem Image.Bytes.get (h : image.Bytes) (a : ℤ) : image.get a = ((image.byte a).toNat : ℤ) := by
  unfold Image.byte Image.get
  cases hl : image.lookup a with
  | none => simp
  | some v =>
    obtain ⟨b, rfl⟩ := h a v hl
    simp

theorem has_iff : image.Has a ↔ a ∈ image.map Prod.fst := by
  unfold Image.Has
  induction image with
  | nil => simp
  | cons p image ih =>
    obtain ⟨k, v⟩ := p
    rw [List.lookup_cons]
    by_cases h : a = k
    · simp [h]
    · simp [h, ih, beq_eq_false_iff_ne.mpr h]

/-- The words from `lo` on that cover the image. -/
structure Packed (image : Image) (lo : ℤ) (words : List ℤ) : Prop where
  first : ∃ a, image.Has a ∧ lo = a - a % 4
  last : ∃ a, image.Has a ∧ lo + 4 * words.length = a - a % 4 + 4
  covers : ∀ a, image.Has a → lo ≤ a ∧ a < lo + 4 * words.length
  word : ∀ k < words.length,
    words[k]? = some (leNat (fun j => image.byte (lo + 4 * k + j)) 4 : ℤ)

theorem word_eq (f : ℕ → BitVec 8) :
    ((f 0).toNat : ℤ) ||| ((f 1).toNat : ℤ) <<< 8 ||| ((f 2).toNat : ℤ) <<< 16 |||
      ((f 3).toNat : ℤ) <<< 24 = (leNat f 4 : ℤ) := by
  rw [leNat_four, BitVec.toNat_append, BitVec.toNat_append, BitVec.toNat_append]
  rw [shl_ofNat, shl_ofNat, shl_ofNat, natCast_shiftLeft, natCast_shiftLeft, natCast_shiftLeft,
    natCast_or, natCast_or, natCast_or, Nat.cast_inj]
  apply Nat.eq_of_testBit_eq
  intro i
  simp only [Nat.testBit_or, Nat.testBit_shiftLeft]
  grind

/-- Clearing the low two bits. -/
theorem and_not_three (x : ℤ) : x &&& ~~~3 = x - x % 4 := and_not_mask x 2

theorem packWords_packed (hb : image.Bytes) (hne : image ≠ []) :
    ∃ lo, Packed image lo (packWords image) := by
  obtain ⟨⟨a, v⟩, rest, rfl⟩ := List.exists_cons_of_ne_nil hne
  set image : Image := (a, v) :: rest with himage
  set keys := rest.map Prod.fst with hkeys
  have hleast : (a :: keys).min? = some (keys.foldl min a) := List.min?_cons'
  have hgreatest : (a :: keys).max? = some (keys.foldl max a) := List.max?_cons'
  obtain ⟨hmin, hle⟩ := List.min?_eq_some_iff.mp hleast
  obtain ⟨hmax, hge⟩ := List.max?_eq_some_iff.mp hgreatest
  generalize hm : keys.foldl min a = m at hmin hle
  generalize hM : keys.foldl max a = M at hmax hge
  have hhas : ∀ x, image.Has x ↔ x ∈ a :: keys := fun x => has_iff
  have hmM : m ≤ M := hle M hmax
  have hp : packWords image = (List.range ((M + 1 + 3 - (M + 1 + 3) % 4 - (m - m % 4) + 3) / 4).toNat).map
      fun k : ℕ => (leNat (fun j => image.byte (m - m % 4 + 4 * k + j)) 4 : ℤ) := by
    simp only [packWords, himage]
    rw [← hkeys, hm, hM, and_not_three, and_not_three]
    refine List.map_congr_left fun k _ => ?_
    rw [← himage, ← word_eq]
    simp only [hb.get, Nat.cast_zero, add_zero]
    norm_num
  refine ⟨m - m % 4, ⟨m, (hhas m).mpr hmin, rfl⟩, ⟨M, (hhas M).mpr hmax, ?_⟩, ?_, ?_⟩
  · rw [hp, List.length_map, List.length_range]
    omega
  · intro x hx
    rw [hp, List.length_map, List.length_range]
    have h1 := hle x ((hhas x).mp hx)
    have h2 := hge x ((hhas x).mp hx)
    omega
  · intro k hk
    rw [hp, List.length_map, List.length_range] at hk
    rw [hp, List.getElem?_map, List.getElem?_range hk]
    rfl

end Packing

section HexFile
variable {py : Python} {words : List ℤ}

/-- Every word is a 32-bit number. -/
def AreWords (words : List ℤ) : Prop := ∀ w ∈ words, 0 ≤ w ∧ w < 2 ^ 32

theorem Packed.areWords {image : Image} {lo : ℤ} (h : Packed image lo words) : AreWords words := by
  intro w hw
  obtain ⟨k, hk, hwk⟩ := List.getElem_of_mem hw
  have hlt := leNat_lt (fun j => image.byte (lo + 4 * k + j)) 4
  have he := h.word k hk
  rw [List.getElem?_eq_getElem hk, hwk] at he
  cases he
  norm_num at hlt ⊢
  omega

theorem mask_word {w : ℤ} (h0 : 0 ≤ w) (h1 : w < 2 ^ 32) : w &&& 0xFFFFFFFF = w := by
  rw [and_word, BitVec.toNat_ofInt]
  omega

/-- What the hex file reads back as: the bytes of the words. -/
theorem loadHexWords_toHexLines (h : AreWords words) :
    loadHexWords py (toHexLines words) = some (words.flatMap wordBytes) := by
  have hnat : ∀ w ∈ words, hexPad 8 w = hexPad 8 (w.toNat : ℤ) := fun w hw => by
    rw [Int.toNat_of_nonneg (h w hw).1]
  have hsplit : splitWords (toHexLines words) = words.map (hexPad 8) := by
    have htext : (toHexLines words).toList =
        (words.map (hexPad 8)).flatMap fun w => w.toList ++ ['\n'] := by
      rw [toHexLines, String.toList_join, List.flatMap_map, List.flatMap_map]
      refine List.flatMap_congr fun w _ => ?_
      rw [String.toList_append]
      rfl
    rw [splitWords, htext, wordsFrom_lines]
    intro s hs
    obtain ⟨w, hw, rfl⟩ := List.mem_map.mp hs
    rw [hnat w hw, toList_hexPad]
    exact ⟨hexChars_ne_nil, fun c hc => (isHex_hexChars hc).not_space⟩
  have hread : (words.map (hexPad 8)).mapM (fun s => pyInt py 16 (strip s).toList) =
      some words := by
    clear hsplit
    induction words with
    | nil => rfl
    | cons w words ih =>
      have hw := hnat w (List.mem_cons_self ..)
      have h0 := (h w (List.mem_cons_self ..)).1
      rw [List.map_cons, List.mapM_cons, ih (fun v hv => h v (List.mem_cons_of_mem w hv))
        (fun v hv => hnat v (List.mem_cons_of_mem w hv)), hw, strip_hexPad, pyInt_hexChars,
        Int.toNat_of_nonneg h0]
      rfl
  rw [loadHexWords, hsplit, hread]
  rfl

theorem getElem?_flatMap_wordBytes (words : List ℤ) (k : ℕ) {j : ℕ} (hj : j < 4) :
    (words.flatMap wordBytes)[4 * k + j]? =
      words[k]?.map fun w => leByte (w &&& 0xFFFFFFFF).toNat j := by
  induction words generalizing k with
  | nil => simp
  | cons w words ih =>
    have hl : (wordBytes w).length = 4 := by simp [wordBytes]
    rw [List.flatMap_cons]
    cases k with
    | zero =>
      rw [List.getElem?_append_left (by omega)]
      simp [wordBytes, hj]
    | succ k =>
      rw [List.getElem?_append_right (by omega), hl, List.getElem?_cons_succ, ← ih k]
      congr 1
      omega

/-- The byte of the word list at offset `a`. -/
def wordsByte (words : List ℤ) (a : ℕ) : BitVec 8 :=
  leByte (words.getD (a / 4) 0 &&& 0xFFFFFFFF).toNat (a % 4)

theorem byteAt_flatMap_wordBytes {a : ℕ} (ha : a < 4 * words.length) :
    byteAt (words.flatMap wordBytes) a = wordsByte words a := by
  have hk : a / 4 < words.length := by omega
  have h := getElem?_flatMap_wordBytes words (a / 4) (Nat.mod_lt a (by omega))
  rw [Nat.div_add_mod] at h
  rw [byteAt, List.getD_eq_getElem?_getD, h, wordsByte, List.getD_eq_getElem?_getD,
    List.getElem?_eq_getElem hk]
  rfl

theorem Packed.wordsByte {image : Image} {lo : ℤ} (h : Packed image lo words) {a : ℕ}
    (ha : a < 4 * words.length) : wordsByte words a = image.byte (lo + a) := by
  have hk : a / 4 < words.length := by omega
  have he := h.word (a / 4) hk
  have hb : ((leNat (fun j => image.byte (lo + 4 * (a / 4 : ℕ) + j)) 4 : ℕ) : ℤ) < 2 ^ 32 := by
    exact_mod_cast leNat_lt _ 4
  rw [Assembler.wordsByte, List.getD_eq_getElem?_getD, he, Option.getD_some,
    mask_word (Int.natCast_nonneg _) hb, Int.toNat_natCast, leByte_leNat (Nat.mod_lt a (by omega))]
  congr 1
  omega

end HexFile
end RiscForge.Assembler
