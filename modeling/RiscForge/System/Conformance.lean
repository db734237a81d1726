import RiscForge.Refmodel.Runner
import RiscForge.System.Harness

/-! The testbenches `tb/riscv` and `tb/riscv_pipeline`, from the segments of a binary on. -/
namespace RiscForge.System

open Lib Rtl Refmodel

section Words

/-- `words[widx] = words.get(widx, 0) | (b << sh)`. -/
def orByte (words : ℕ → ℕ) (addr : ℕ) (b : BitVec 8) : ℕ → ℕ :=
  Function.update words (addr >>> 2)
    (words (addr >>> 2) ||| b.toNat <<< ((addr &&& 3) * 8))

def orBytes (words : ℕ → ℕ) (addr : ℕ) : List (BitVec 8) → ℕ → ℕ
  | [] => words
  | b :: data => orBytes (orByte words addr b) (addr + 1) data

/-- `image_words`, zero where the dictionary has nothing. -/
def imageWords (segments : List Segment) : ℕ → ℕ :=
  segments.foldl (fun words s => orBytes words s.1 s.2) fun _ => 0

/-- What `_load` writes into a memory array. -/
def loadArray (n : ℕ) (words : ℕ → ℕ) : BitVec n → Word := fun i => .ofNat 32 (words i.toNat)

end Words

section RunOne
variable (segments : List Segment)

/-- The core of the testbenches, with the image in its instruction memory. -/
def testCore : Params where
  pcReset := 0x00000000#32
  imemIdxW := 10
  dmemIdxW := 12
  tohostAddr := 0x80001000#32
  uartAddr := 0xFFFF0000#32
  imem := loadArray 10 (imageWords segments)

/-- What `run_one` finds. -/
inductive Outcome
  | noSegments
  | notTohost (cause : HaltCause) (pc : Word)
  | tohost (v : Word)
  | noHalt (limit : ℕ)
  deriving DecidableEq, Repr

def Outcome.passed : Outcome → Bool
  | .tohost v => v = 1#32
  | _ => false

/-- The codes of `halt_cause`. -/
def haltCode : HaltCause → ℕ
  | .none => 0
  | .ecall => 1
  | .ebreak => 2
  | .illegal => 3
  | .misaligned => 4
  | .tohost => 5

def Outcome.text : Outcome → String
  | .noSegments => "no loadable segments"
  | .notTohost cause pc => s!"halt cause {haltCode cause} (not tohost), pc=0x{hexPad 8 pc.toNat}"
  | .tohost v =>
    if v = 1#32 then "tohost=1"
    else s!"tohost=0x{hexPad 1 v.toNat} (failing subtest {v.toNat >>> 1})"
  | .noHalt limit => s!"no halt within {limit} cycles"

/-- The cause of the halt, and the value if it is `tohost`. -/
def Outcome.halt : Outcome → Option (HaltCause × Option Word)
  | .notTohost cause _ => some (cause, none)
  | .tohost v => some (.tohost, some v)
  | _ => none

/-- What `run_one` makes of a halted core. -/
def outcome (cause : HaltCause) (pc v : Word) : Outcome :=
  if cause ≠ .tohost then .notTohost cause pc else .tohost v

/-- What it makes of the wait for the halt. -/
def awaited {σ : Type} (limit : ℕ) (see : σ → Outcome) : Option (ℕ × σ) → Outcome
  | none => .noHalt limit
  | some (_, t) => see t

/-- `_load` and `_reset`, whatever state the core is found in. -/
def bootTop (s : Top (testCore segments)) : Top (testCore segments) :=
  (({ s with dmem := loadArray 12 (imageWords segments) } : Top (testCore segments)).edge
    true).edge true

def bootPipeline (s : TopPipeline (testCore segments)) : TopPipeline (testCore segments) :=
  (({ s with dmem := loadArray 12 (imageWords segments) } : TopPipeline (testCore segments)).edge
    true).edge true

/-- `run_one` on `top`: it returns whether the outcome is a pass, and its text. -/
def runTop (s : Top (testCore segments)) : Outcome :=
  if segments = [] then .noSegments
  else awaited 50000 (fun t => outcome t.haltCause t.pc t.tohostData)
    (awaitHalt Top.clock Top.halted 50000 0 (bootTop segments s))

/-- `run_one` on `top_pipeline`. -/
def runPipeline (s : TopPipeline (testCore segments)) : Outcome :=
  if segments = [] then .noSegments
  else awaited 100000 (fun t => outcome t.haltCause t.pcOut t.tohostValue)
    (awaitHalt TopPipeline.clock TopPipeline.halted 100000 0 (bootPipeline segments s))

/-- `top` behind the reset. -/
def resetTop : Top (testCore segments) :=
  .reset (testCore segments) (loadArray 12 (imageWords segments))

def resetPipeline : TopPipeline (testCore segments) :=
  .reset (testCore segments) (loadArray 12 (imageWords segments))

end RunOne
section Agreement
variable {segments : List Segment} {n : ℕ}

theorem awaitHalt_none {σ : Type} {clock : σ → σ} {halted : σ → Bool} {s : σ} {rounds cycles : ℕ}
    (h : ∀ m, 0 < m → m ≤ rounds → ¬ halted (Lib.run clock s m) = true) :
    awaitHalt clock halted rounds cycles s = none := by
  induction rounds generalizing s cycles with
  | zero => rfl
  | succ rounds ih =>
    have h1 : ¬ halted (clock s) = true := h 1 Nat.one_pos (by omega)
    rw [awaitHalt, if_neg h1]
    refine ih fun m hm hle => ?_
    have hs := h (1 + m) (by omega) (by omega)
    rwa [run_add] at hs

theorem bootTop_eq (s : Top (testCore segments)) : bootTop segments s = resetTop segments := by
  rw [bootTop, Top.edge_rst, Top.edge_rst]
  rfl

theorem bootPipeline_eq (s : TopPipeline (testCore segments)) :
    bootPipeline segments s = resetPipeline segments := by
  rw [bootPipeline, TopPipeline.edge_rst, TopPipeline.edge_rst]
  rfl

theorem outcome_halt (cause : HaltCause) (pc pc' v v' : Word) (h : cause = .tohost → v = v') :
    (outcome cause pc v).halt = (outcome cause pc' v').halt := by
  unfold outcome
  by_cases hc : cause = .tohost
  · rw [if_neg (not_not.mpr hc), if_neg (not_not.mpr hc), h hc]
  · rw [if_pos hc, if_pos hc]
    rfl

/-- The halt of the pipeline that belongs to the halt of `top` in cycle `n`. -/
structure Follows (segments : List Segment) (n m : ℕ) : Prop where
  first : FirstAt TopPipeline.clock (fun s => s.halted = true) (resetPipeline segments) m
  bound : 0 < m ∧ m ≤ 2 * n + 4
  cause : (Lib.run TopPipeline.clock (resetPipeline segments) m).haltCause =
    (Lib.run Top.clock (resetTop segments) n).haltCause
  value : (Lib.run Top.clock (resetTop segments) n).haltCause = .tohost →
    (Lib.run Top.clock (resetTop segments) n).tohostData =
      (Lib.run TopPipeline.clock (resetPipeline segments) m).tohostValue

theorem follows (hn : FirstAt Top.clock (fun s => s.halted = true) (resetTop segments) n) :
    ∃ m, Follows segments n m := by
  have hk := firstAt_top_iff.mp hn
  have hb := leaveId_le (program (testCore segments) (loadArray 12 (imageWords segments))) n
  have hc := (agreeHalted hk).haltCause
  refine ⟨_, firstAt_pipeline_iff.mpr ⟨n, hk, rfl⟩, by omega, hc, ?_⟩
  intro ht
  obtain ⟨k, hk', -, hv⟩ := tohostValue_of_halted (halted_of_haltsAt hk).2.1 (hc.trans ht)
  obtain rfl := hk'.unique hk
  rw [resetTop, top_run_eq hk.2]
  exact hv.symm

/-- Both testbenches come to the same halt, in whatever states they find the cores: provided that
`top` does not halt on its first instruction, nor later than the limit for it allows. -/
theorem conformance_agrees (segments : List Segment)
    (h : ∀ n, FirstAt Top.clock (fun s => s.halted = true) (resetTop segments) n →
      n ≠ 0 ∧ n ≤ 49998) (s : Rtl.Top (testCore segments)) (t : TopPipeline (testCore segments)) :
    (runTop segments s).halt = (runPipeline segments t).halt := by
  rw [runTop, runPipeline, bootTop_eq, bootPipeline_eq]
  by_cases hne : segments = []
  · rw [if_pos hne, if_pos hne]
  rw [if_neg hne, if_neg hne]
  by_cases hh : ∃ m, (Lib.run Top.clock (resetTop segments) m).halted = true
  · obtain ⟨k, hk⟩ := hh
    obtain ⟨n, -, hn⟩ := exists_firstAt (P := fun s : Rtl.Top (testCore segments) =>
      s.halted = true) hk
    obtain ⟨h0, hle⟩ := h n hn
    obtain ⟨m, hm⟩ := follows hn
    have hb := hm.bound
    rw [awaitHalt_of_firstAt hn (by omega) (by omega),
      awaitHalt_of_firstAt hm.first hb.1 (by omega)]
    change (outcome _ _ _).halt = (outcome _ _ _).halt
    rw [hm.cause]
    exact outcome_halt _ _ _ _ _ hm.value
  · have hp : ¬ ∃ m, (Lib.run TopPipeline.clock (resetPipeline segments) m).halted = true :=
      fun hm => hh ((halts_iff _).mp hm)
    rw [awaitHalt_none fun m _ _ hm => hh ⟨m, hm⟩, awaitHalt_none fun m _ _ hm => hp ⟨m, hm⟩]
    rfl

theorem outcome_halt_eq (cause : HaltCause) (pc v : Word) :
    (outcome cause pc v).halt = some (cause, if cause = .tohost then some v else none) := by
  unfold outcome
  by_cases ht : cause = .tohost
  · rw [if_neg (not_not.mpr ht), if_pos ht, ht]
    rfl
  · rw [if_pos ht, if_neg ht]
    rfl

/-- The pc after a first instruction that halts: none of them transfers control. -/
theorem clock_pc_of_first (h : (resetTop segments).haltNow = true) :
    (resetTop segments).clock.pc = 4#32 := by
  have hb : (resetTop segments).branchTaken = false := branchTaken_of_haltNow h
  rw [Top.clock_of_running rfl]
  change (resetTop segments).nextPc = 4#32
  rw [Top.nextPc, hb]
  rfl

/-- A program that halts on its first instruction has halted before the first sample, and `top` no
longer shows the cause: its `run_one` reports the cause 0, whatever it was, where the one of the
pipeline sees it. -/
theorem runTop_first (hne : segments ≠ []) (h : (resetTop segments).haltNow = true)
    (s : Rtl.Top (testCore segments)) (t : TopPipeline (testCore segments)) :
    runTop segments s = .notTohost .none 4#32 ∧
      (runPipeline segments t).halt = some ((resetTop segments).haltCause,
        if (resetTop segments).haltCause = .tohost then some (resetTop segments).tohostData
        else none) := by
  constructor
  · obtain ⟨hawait, hc⟩ := await_first (show 0 < 50000 by decide) rfl h
    rw [runTop, if_neg hne, bootTop_eq, hawait]
    change outcome _ _ _ = _
    rw [hc, clock_pc_of_first h]
    rfl
  · have h0 : FirstAt Top.clock (fun s => s.halted = true) (resetTop segments) 0 :=
      ⟨by simp [Lib.run, Top.halted, h], fun k hk => absurd hk (Nat.not_lt_zero k)⟩
    obtain ⟨m, hm⟩ := follows h0
    rw [runPipeline, if_neg hne, bootPipeline_eq, awaitHalt_of_firstAt hm.first hm.bound.1
      (hm.bound.2.trans (by decide))]
    change (outcome _ _ _).halt = _
    rw [hm.cause, ← outcome_halt_eq _ 4#32 _]
    exact outcome_halt _ _ _ _ _ fun ht => (hm.value ht).symm

/-- `lui x2, 0x80001`, `addi x1, x0, 1` and `sw x1, 0(x2)`. -/
def passSegments : List Segment :=
  [(0, [0x37, 0x11, 0x00, 0x80, 0x93, 0x00, 0x10, 0x00, 0x23, 0x20, 0x11, 0x00])]

theorem firstAt_passSegments :
    FirstAt Top.clock (fun s => s.halted = true) (resetTop passSegments) 2 := by
  refine ⟨by decide +kernel, ?_⟩
  intro m hm
  have h0 : (Lib.run Top.clock (resetTop passSegments) 0).halted = false := by decide +kernel
  have h1 : (Lib.run Top.clock (resetTop passSegments) 1).halted = false := by decide +kernel
  rcases (by omega : m = 0 ∨ m = 1) with rfl | rfl
  · exact fun h => Bool.noConfusion (h0.symm.trans h)
  · exact fun h => Bool.noConfusion (h1.symm.trans h)

theorem conformance_agrees_passSegments :
    (runTop passSegments (.reset _ fun _ => 0)).halt =
      (runPipeline passSegments (.reset _ fun _ => 0)).halt := by
  refine conformance_agrees passSegments (fun n hn => ?_) _ _
  obtain rfl := hn.unique firstAt_passSegments
  decide

/-- The only instruction is the ECALL. -/
def ecallSegments : List Segment := [(0, [0x73, 0x00, 0x00, 0x00])]

theorem runTop_first_ecall :
    runTop ecallSegments (.reset _ fun _ => 0) = .notTohost .none 4#32 ∧
      (runPipeline ecallSegments (.reset _ fun _ => 0)).halt = some (.ecall, none) := by
  have hc : (resetTop ecallSegments).haltCause = .ecall := by decide +kernel
  obtain ⟨htop, hpipe⟩ := runTop_first (show ecallSegments ≠ [] by decide)
    (by decide +kernel) (.reset _ fun _ => 0) (.reset _ fun _ => 0)
  rw [hc] at hpipe
  exact ⟨htop, hpipe⟩

end Agreement
section Image
variable {words : ℕ → ℕ} {segments : List Segment} {addr a : ℕ} {b : BitVec 8}
  {data : List (BitVec 8)}

/-- The byte of the words at the address `a`. -/
def wordsByteAt (words : ℕ → ℕ) (a : ℕ) : BitVec 8 := leByte (words (a / 4)) (a % 4)

theorem getLsbD_leByte (v i k : ℕ) (hk : k < 8) :
    (leByte v i).getLsbD k = v.testBit (8 * i + k) := by
  rw [leByte, BitVec.getLsbD_ofNat, show (256 : ℕ) = 2 ^ 8 from rfl, ← pow_mul,
    Nat.testBit_div_two_pow, decide_eq_true hk, Bool.true_and]
  congr 1
  omega

theorem leByte_or_shift (v i j : ℕ) :
    leByte (v ||| b.toNat <<< (j * 8)) i = if i = j then leByte v i ||| b else leByte v i := by
  apply BitVec.eq_of_getLsbD_eq
  intro k hk
  have hb : ∀ n, 8 ≤ n → b.toNat.testBit n = false := fun n hn =>
    Nat.testBit_lt_two_pow (b.isLt.trans_le (Nat.pow_le_pow_right (by omega) hn))
  rw [getLsbD_leByte _ _ _ hk, Nat.testBit_or, Nat.testBit_shiftLeft]
  split
  case isTrue h =>
    subst h
    rw [BitVec.getLsbD_or, getLsbD_leByte _ _ _ hk, decide_eq_true (by omega), Bool.true_and,
      show 8 * i + k - i * 8 = k by omega]
    rfl
  case isFalse h =>
    rw [getLsbD_leByte _ _ _ hk]
    by_cases hlt : j * 8 ≤ 8 * i + k
    · rw [hb _ (by omega), Bool.and_false, Bool.or_false]
    · rw [decide_eq_false hlt, Bool.false_and, Bool.or_false]

theorem wordsByteAt_orByte : wordsByteAt (orByte words addr b) a =
    if a = addr then wordsByteAt words a ||| b else wordsByteAt words a := by
  have hq : addr >>> 2 = addr / 4 := Nat.shiftRight_eq_div_pow addr 2
  have hr : addr &&& 3 = addr % 4 := Nat.and_two_pow_sub_one_eq_mod addr 2
  rw [wordsByteAt, orByte, hq, hr, Function.update_apply]
  by_cases hw : a / 4 = addr / 4
  · rw [if_pos hw, ← hw, leByte_or_shift]
    exact if_congr (by omega) rfl rfl
  · rw [if_neg hw, if_neg (by rintro rfl; exact hw rfl)]
    rfl

theorem wordsByteAt_orBytes : wordsByteAt (orBytes words addr data) a =
    wordsByteAt words a ||| (Segment.byte (addr, data) a).getD 0#8 := by
  induction data generalizing words addr with
  | nil => simp [orBytes, Segment.byte]
  | cons b data ih =>
    rw [orBytes, ih, wordsByteAt_orByte, Segment.byte, Segment.byte]
    by_cases he : a = addr
    · subst he
      simp
    · rw [if_neg he]
      by_cases hlt : addr ≤ a
      · obtain ⟨k, rfl⟩ := Nat.exists_eq_add_of_le hlt
        obtain ⟨k, rfl⟩ := Nat.exists_eq_succ_of_ne_zero (n := k) (by omega)
        rw [if_pos (by omega), if_pos hlt, Nat.add_sub_cancel_left,
          show addr + k.succ - (addr + 1) = k by omega, List.getElem?_cons_succ]
      · rw [if_neg (by omega), if_neg hlt]

/-- No two segments have a byte for the same address. -/
def Separate (segments : List Segment) : Prop :=
  segments.Pairwise fun s t => ∀ a, s.byte a = none ∨ t.byte a = none

theorem imageWords_foldl (h : Separate segments)
    (h0 : ∀ s ∈ segments, ∀ a, s.byte a ≠ none → wordsByteAt words a = 0#8) :
    wordsByteAt (segments.foldl (fun words s => orBytes words s.1 s.2) words) a =
      (segmentsByte segments a).getD (wordsByteAt words a) := by
  induction segments generalizing words with
  | nil => rfl
  | cons seg rest ih =>
    obtain ⟨hseg, hrest⟩ := List.pairwise_cons.mp h
    have hor : ∀ a, wordsByteAt (orBytes words seg.1 seg.2) a =
        wordsByteAt words a ||| (seg.byte a).getD 0#8 := fun a => wordsByteAt_orBytes
    rw [List.foldl_cons, ih hrest, segmentsByte, hor]
    · cases segmentsByte rest a with
      | some b => rfl
      | none =>
        rw [Option.none_or, Option.getD_none]
        cases hb : seg.byte a with
        | none => exact BitVec.or_zero
        | some b =>
          rw [h0 seg (List.mem_cons_self ..) a (by simp [hb])]
          exact BitVec.zero_or
    · intro s hs a hne
      rw [hor, h0 s (List.mem_cons_of_mem _ hs) a hne, (hseg s hs a).resolve_right hne]
      rfl

theorem leByte_mod_word (v : ℕ) {j : ℕ} (hj : j < 4) : leByte (v % 2 ^ 32) j = leByte v j := by
  apply BitVec.eq_of_getLsbD_eq
  intro k hk
  rw [getLsbD_leByte _ _ _ hk, getLsbD_leByte _ _ _ hk, Nat.testBit_mod_two_pow,
    decide_eq_true (by omega), Bool.true_and]

theorem byteOf_loadArray {n : ℕ} {a : Word} (ha : a.toNat < 4 * 2 ^ n) :
    byteOf (loadArray n words) a = wordsByteAt words a.toNat := by
  have hi : (a.extractLsb' 2 n).toNat = a.toNat / 4 := by
    rw [BitVec.extractLsb'_toNat, Nat.shiftRight_eq_div_pow]
    exact Nat.mod_eq_of_lt (by omega)
  rw [byteOf, lane_eq_leByte, loadArray, hi, BitVec.toNat_ofNat, leByte_mod_word _ (by omega)]
  rfl

/-- The words hold the bytes of separate segments. -/
theorem wordsByteAt_imageWords (h : Separate segments) :
    wordsByteAt (imageWords segments) a = (segmentsByte segments a).getD 0#8 := by
  have h0 : ∀ a, wordsByteAt (fun _ => 0) a = 0#8 := fun a => by simp [wordsByteAt, leByte]
  rw [imageWords, imageWords_foldl h fun _ _ a _ => h0 a, h0]

/-- So does the memory of the runner's CPU. -/
theorem byteAt_boot {tohost : ℕ} {s : RV32I} (h : HasSegments segments
    (.init (bootMemSize segments).toNat (segmentsBase segments) tohost true) s)
    (ha : segmentsBase segments ≤ a) :
    byteAt s.mem ((a : ℤ) - segmentsBase segments).toNat = (segmentsByte segments a).getD 0#8 := by
  have hbyte := h.byte a (Int.ofNat_le.mpr ha)
  have hz : ∀ k m, byteAt (List.replicate k 0#8) m = 0#8 := by
    intro k m
    rw [byteAt, List.getD_eq_getElem?_getD, List.getElem?_replicate]
    split <;> rfl
  simp only [RV32I.init, hz] at hbyte
  exact hbyte

/-- Separate segments give the memories of the RTL the bytes that the runner gives the emulator. -/
theorem memories_agree (h : Separate segments) (tohost : ℕ) :
    ∃ s, bootSegments segments tohost = .ok () s ∧ ∀ (n : ℕ) (a : Word),
      segmentsBase segments ≤ a.toNat → a.toNat < 4 * 2 ^ n →
        byteOf (loadArray n (imageWords segments)) a = s.byte a := by
  obtain ⟨s, hs, hseg⟩ := bootSegments_ok segments tohost
  refine ⟨s, hs, fun n a hb ha => ?_⟩
  rw [byteOf_loadArray ha, wordsByteAt_imageWords h, ← byteAt_boot hseg hb]
  obtain ⟨mem, rfl⟩ := hseg.rest
  rfl

theorem memories_agree_passSegments : ∃ s, bootSegments (passSegments ++ [(64, [1, 2, 3])]) 0 =
    .ok () s ∧ byteOf (loadArray 12 (imageWords (passSegments ++ [(64, [1, 2, 3])]))) 65#32 =
      s.byte 65#32 := by
  have h : Separate (passSegments ++ [(64, [1, 2, 3])]) := by
    refine List.pairwise_pair.mpr fun a => ?_
    by_cases ha : 64 ≤ a
    · refine .inl ?_
      rw [Segment.byte, if_pos (Nat.zero_le a)]
      exact List.getElem?_eq_none (by simp; omega)
    · exact .inr (if_neg ha)
  obtain ⟨s, hs, hb⟩ := memories_agree h 0
  exact ⟨s, hs, hb 12 65#32 (by decide) (by decide)⟩

end Image
end RiscForge.System
