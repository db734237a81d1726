import RiscForge.Assembler.Faithful
import RiscForge.System.Cores

/-! A word list in the memories of the emulator and of the RTL, and as a program of the machine. -/
namespace RiscForge.System

open Lib Rtl Isa Refmodel Lockstep Assembler

section Words
variable (words : List ℤ) (isCode : ℕ → Bool)

/-- Word `k` of the list, zero past its end. -/
def wordAt (k : ℕ) : Word := BitVec.ofInt 32 (words.getD k 0)

/-- What the aligned words that are marked as code stand for. -/
def imageCode (q : Word) : Option Insn :=
  if q.toNat % 4 = 0 ∧ q.toNat / 4 < words.length ∧ isCode q.toNat = true then
    decode (wordAt words (q.toNat / 4))
  else none

/-- The word list as a program, in the memory `[0, hi)`. -/
def imageMachine (hi tohost : ℕ) (h : 4 * words.length ≤ hi) : Machine where
  code := imageCode words isCode
  lo := 0
  hi := hi
  tohost := tohost
  aligned q hq := by
    unfold imageCode at hq
    split at hq
    · rename_i hc
      exact hc.1
    · cases hq
  inside q hq := by
    unfold imageCode at hq
    split at hq
    · rename_i hc
      omega
    · cases hq

/-- All registers zero, the words in memory from 0 on, and zeros after them. -/
def imageCpu : Cpu where
  pc := 0#32
  x := fun _ => 0#32
  mem := fun a => leByte (wordAt words (a.toNat / 4)).toNat (a.toNat % 4)
  zero := rfl

variable {words isCode}

theorem wordsByte_eq (words : List ℤ) (a : ℕ) :
    wordsByte words a = leByte (wordAt words (a / 4)).toNat (a % 4) := by
  have hm : words.getD (a / 4) 0 &&& 0xFFFFFFFF = ((wordAt words (a / 4)).toNat : ℤ) :=
    and_mask _ (w := 32)
  rw [wordsByte, hm, Int.toNat_natCast]

theorem wordAt_past {k : ℕ} (h : words.length ≤ k) : wordAt words k = 0#32 := by
  rw [wordAt, List.getD_eq_getElem?_getD, List.getElem?_eq_none h]
  rfl

theorem imageCode_eq_some {q : Word} {i : Insn} (h : imageCode words isCode q = some i) :
    q.toNat % 4 = 0 ∧ q.toNat / 4 < words.length ∧ isCode q.toNat = true ∧
      decode (wordAt words (q.toNat / 4)) = some i := by
  unfold imageCode at h
  split at h
  case isTrue hc => exact ⟨hc.1, hc.2.1, hc.2.2, h⟩
  case isFalse => cases h

section Larger
variable {hi hi' tohost : ℕ} {h : 4 * words.length ≤ hi} {h' : 4 * words.length ≤ hi'} {c d : Cpu}

/-- In a larger memory a program runs as before. -/
theorem step_larger (hle : hi ≤ hi') (hs : (imageMachine words isCode hi tohost h).Step c d) :
    (imageMachine words isCode hi' tohost h').Step c d := by
  cases hs with
  | exec hf he hb hp =>
    refine .exec hf he hb ⟨hp.target, hp.aligned, fun a n ha => ?_, hp.notTohost, hp.notCode⟩
    exact ⟨(hp.inside a n ha).1, (hp.inside a n ha).2.trans hle⟩

theorem ends_larger {e : Ending} (he : (imageMachine words isCode hi tohost h).Ends c e) :
    (imageMachine words isCode hi' tohost h').Ends c e := by
  cases he with
  | ecall hf => exact .ecall hf
  | ebreak hf => exact .ebreak hf
  | tohost hf hs ht => exact .tohost hf hs ht

end Larger

end Words

section Emulator
variable {words : List ℤ} {isCode : ℕ → Bool} {memSize tohost : ℕ} {h : 4 * words.length ≤ memSize}

/-- The emulator with the words loaded at 0. -/
def loadedCpu (words : List ℤ) (memSize tohost : ℕ) : RV32I :=
  { RV32I.init memSize 0 tohost false with
    mem := words.flatMap wordBytes ++ List.replicate (memSize - 4 * words.length) 0#8 }

theorem loadProgram_loadedCpu (h : 4 * words.length ≤ memSize) :
    loadProgram (words.flatMap wordBytes) (some 0) (.init memSize 0 tohost false) =
      .ok () (loadedCpu words memSize tohost) := by
  have hl : (RV32I.init memSize 0 tohost false).mem.length = memSize := List.length_replicate
  rw [loadProgram_zero rfl (by rw [length_flatMap_wordBytes, hl]; exact h),
    length_flatMap_wordBytes]
  simp only [RV32I.init, List.drop_replicate, loadedCpu]

theorem steps_loadedCpu : (loadedCpu words memSize tohost).steps = 0 := rfl

theorem length_loadedCpu (h : 4 * words.length ≤ memSize) :
    (loadedCpu words memSize tohost).mem.length = memSize := by
  simp only [loadedCpu, List.length_append, length_flatMap_wordBytes, List.length_replicate]
  omega

/-- Every byte of the memory is one of the list's words, or zero after them. -/
theorem byteAt_loadedCpu (a : ℕ) :
    byteAt (loadedCpu words memSize tohost).mem a =
      leByte (wordAt words (a / 4)).toNat (a % 4) := by
  by_cases ha : a < 4 * words.length
  · rw [loadedCpu, byteAt_append _ (by rwa [length_flatMap_wordBytes]),
      byteAt_flatMap_wordBytes ha, wordsByte_eq]
  · have hz : byteAt (loadedCpu words memSize tohost).mem a = 0#8 := by
      simp only [byteAt, loadedCpu, List.getD_eq_getElem?_getD]
      rw [List.getElem?_append_right (by rw [length_flatMap_wordBytes]; omega),
        List.getElem?_replicate]
      split <;> rfl
    rw [hz, wordAt_past (by omega)]
    simp [leByte]

theorem unpackFrom_loadedCpu (k : ℕ) :
    unpackFrom (loadedCpu words memSize tohost).mem (4 * k) 4 = (wordAt words k).toNat := by
  rw [← leNat_word (wordAt words k), unpackFrom]
  refine leNat_congr fun j hj => ?_
  rw [byteAt_loadedCpu]
  congr 3 <;> omega

/-- The loaded emulator is in the initial state of the program. -/
theorem models_loadedCpu (h : 4 * words.length ≤ memSize) :
    Models (imageMachine words isCode memSize tohost h) false (imageCpu words)
      (loadedCpu words memSize tohost) where
  running := rfl
  holds := ⟨rfl, rfl, fun _ _ => rfl⟩
  zero := rfl
  mem a _ _ := by
    rw [RV32I.byte]
    change byteAt (loadedCpu words memSize tohost).mem ((a.toNat : ℤ) - 0).toNat = _
    rw [Int.sub_zero, Int.toNat_natCast, byteAt_loadedCpu]
    rfl
  code q i hq := by
    obtain ⟨hal, hlt, -, hd⟩ := imageCode_eq_some hq
    refine ⟨_, ⟨hal, ?_, ?_⟩, hd⟩
    · refine ⟨Int.natCast_nonneg _, ?_⟩
      rw [length_loadedCpu h]
      change (q.toNat : ℤ) + 4 ≤ 0 + memSize
      omega
    · change unpackFrom (loadedCpu words memSize tohost).mem ((q.toNat : ℤ) - 0).toNat 4 = _
      have hq4 : q.toNat = 4 * (q.toNat / 4) := by omega
      rw [Int.sub_zero, Int.toNat_natCast]
      conv_lhs => rw [hq4]
      exact unpackFrom_loadedCpu _
  memBase := rfl
  memEnd := by
    rw [length_loadedCpu h]
    exact zero_add _
  tohostAddr := rfl
  trapOnEcall := rfl

end Emulator

section Beside
variable {M : Machine} {p : Params} {d : DMem p.dmemIdxW} {c : Cpu}

/-- The bytes of a word array. -/
def bytesOf {n : ℕ} (d : DMem n) : List (BitVec 8) :=
  (List.range (4 * 2 ^ n)).map fun a => leByte (d (.ofNat n (a / 4))).toNat (a % 4)

theorem memAgree_bytesOf {n : ℕ} (d : DMem n) : MemAgree d (bytesOf d) := by
  refine memAgree_of_lanes (by simp [bytesOf]) fun i j hj => ?_
  have hi := i.isLt
  have hq : (4 * i.toNat + j) / 4 = i.toNat := by omega
  have hr : (4 * i.toNat + j) % 4 = j := by omega
  rw [byteAt, bytesOf, List.getD_eq_getElem?_getD, List.getElem?_map,
    List.getElem?_range (by omega), lane_eq_leByte, Option.map_some, Option.getD_some, hq, hr,
    BitVec.ofNat_toNat, BitVec.setWidth_eq]

/-- The emulator beside a core that has just been reset. -/
def besideCpu (p : Params) (d : DMem p.dmemIdxW) : RV32I :=
  { RV32I.init 0 0 p.tohostAddr.toNat false with mem := bytesOf d, pc := p.pcReset.toNat }

/-- A core that holds the program also in its data memory is in an initial state of it after the
reset, whatever else it has there. -/
theorem carries_of (hm : Hosts M p) (hpc : c.pc = p.pcReset) (hx : ∀ r, c.x r = 0#32)
    (hmem : ∀ a : Word, a.toNat < M.hi → byteOf d a = c.mem a)
    (hcode : ∀ q i, M.code q = some i → decode (d (q.extractLsb' 2 p.dmemIdxW)) = some i) :
    Carries M c (Top.reset p d) := by
  have hagree := memAgree_bytesOf d
  have hhi := hm.hi
  have hlo := hm.lo
  refine ⟨rfl, besideCpu p d, ?_, ?_, rfl, hagree⟩
  · constructor
    case running => rfl
    case holds => exact ⟨by rw [hpc]; rfl, hx 0#5, fun r _ => by rw [hx]; rfl⟩
    case zero => rfl
    case mem =>
      intro a _ ha
      rw [← hmem a ha, hagree.byteOf (by omega), RV32I.byte]
      change byteAt (bytesOf d) ((a.toNat : ℤ) - 0).toNat = _
      rw [Int.sub_zero, Int.toNat_natCast]
    case code =>
      intro q i hq
      have hsome : (M.code q).isSome = true := by rw [hq]; rfl
      have hal := M.aligned q hsome
      have hin := (M.inside q hsome).2
      refine ⟨_, ⟨hal, ⟨Int.natCast_nonneg _, ?_⟩, ?_⟩, hcode q i hq⟩
      · change (q.toNat : ℤ) + 4 ≤ 0 + ((bytesOf d).length : ℤ)
        rw [hagree.length]
        omega
      · change unpackFrom (bytesOf d) ((q.toNat : ℤ) - 0).toNat 4 = _
        rw [hagree.word, toNat_wordIdx (by omega), Int.sub_zero, Int.toNat_natCast]
        congr 1
        omega
    case memBase =>
      rw [hlo]
      rfl
    case memEnd =>
      change 0 + ((bytesOf d).length : ℤ) = _
      rw [hagree.length, hhi]
      omega
    case tohostAddr =>
      rw [hm.tohost]
      rfl
    case trapOnEcall => rfl
  · intro r _
    simp only [Top.reset, XRegs.get]
    split <;> rfl

end Beside

section Cores
variable {p : Params} {words : List ℤ} {isCode : ℕ → Bool}

/-- What the testbenches write into a memory array. -/
def loadMem (n : ℕ) (words : List ℤ) : BitVec n → Word := fun i => wordAt words i.toNat

/-- The RTL has the words in its instruction memory, as far as they are code. -/
structure Loaded (p : Params) (words : List ℤ) (isCode : ℕ → Bool) : Prop where
  imem : p.imem = loadMem p.imemIdxW words
  code : ∀ a, isCode a = true → a < 4 * 2 ^ p.imemIdxW
  mmio : MmioOutside p
  fits : 4 * words.length ≤ 4 * 2 ^ p.dmemIdxW
  reset : p.pcReset = 0#32

/-- The machine of the RTL that has the words in its memories. -/
def coreMachine (words : List ℤ) (isCode : ℕ → Bool) (h : Loaded p words isCode) : Machine :=
  imageMachine words isCode (4 * 2 ^ p.dmemIdxW) p.tohostAddr.toNat h.fits

theorem hosts (h : Loaded p words isCode) : Hosts (coreMachine words isCode h) p where
  lo := rfl
  hi := rfl
  tohost := rfl
  mmio := h.mmio
  code q i hq := by
    obtain ⟨-, -, hc, hd⟩ := imageCode_eq_some hq
    rw [instrMemory, h.imem, loadMem, toNat_wordIdx (h.code _ hc)]
    exact hd

theorem loadMem_wordIdx {n : ℕ} {a : Word} (ha : a.toNat < 4 * 2 ^ n) :
    loadMem n words (a.extractLsb' 2 n) = wordAt words (a.toNat / 4) := by
  rw [loadMem, toNat_wordIdx ha]

/-- The RTL after a reset is in the initial state of the program. -/
theorem carries_reset (h : Loaded p words isCode) :
    Carries (coreMachine words isCode h) (imageCpu words)
      (Top.reset p (loadMem p.dmemIdxW words)) := by
  refine carries_of (hosts h) h.reset.symm (fun r => rfl) ?_ ?_
  · intro a ha
    rw [byteOf, lane_eq_leByte, loadMem_wordIdx ha]
    rfl
  · intro q i hq
    obtain ⟨-, hlt, -, hd⟩ := imageCode_eq_some hq
    have hfits := h.fits
    rw [loadMem_wordIdx (by omega)]
    exact hd

end Cores
end RiscForge.System
