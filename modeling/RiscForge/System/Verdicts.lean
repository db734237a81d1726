import RiscForge.System.Conformance

/-! One conformance test on the emulator and on both cores. -/
namespace RiscForge.System

open Lib Rtl Refmodel Isa

section Image
variable (segments : List Segment)

/-- The words of the data memory of the RTL. -/
def segmentsWords : List ℤ := (List.range 4096).map fun k => (imageWords segments k : ℤ)

variable {segments} {isCode : ℕ → Bool} {a k : ℕ}

theorem length_segmentsWords : (segmentsWords segments).length = 4096 := by simp [segmentsWords]

theorem wordAt_segmentsWords (hk : k < 4096) :
    wordAt (segmentsWords segments) k = .ofNat 32 (imageWords segments k) := by
  rw [wordAt, segmentsWords, List.getD_eq_getElem?_getD, List.getElem?_map,
    List.getElem?_range hk, Option.map_some, Option.getD_some, BitVec.ofInt_natCast]

theorem loadArray_eq {n : ℕ} (hn : 2 ^ n ≤ 4096) :
    loadArray n (imageWords segments) = loadMem n (segmentsWords segments) := by
  funext i
  have hi := i.isLt
  rw [loadArray, loadMem, wordAt_segmentsWords (by omega)]

/-- A test for the cores: its segments are separate and start at 0, they fit into the data memory,
and the code into the instruction memory. -/
structure Testable (segments : List Segment) (isCode : ℕ → Bool) : Prop where
  nonempty : segments ≠ []
  separate : Separate segments
  base : segmentsBase segments = 0
  top : segmentsTop segments ≤ 4 * 2 ^ 12
  code : ∀ a, isCode a = true → a < 4 * 2 ^ 10

theorem loaded_testCore (h : Testable segments isCode) :
    Loaded (testCore segments) (segmentsWords segments) isCode where
  imem := loadArray_eq (n := 10) (by decide)
  code := h.code
  mmio := by
    constructor
    · change 4 * 2 ^ 12 ≤ (0x80001000#32).toNat
      decide
    · change 4 * 2 ^ 12 ≤ (0xFFFF0000#32).toNat
      decide
  fits := by
    rw [length_segmentsWords]
    exact le_rfl
  reset := rfl

theorem dmem_testCore : loadArray 12 (imageWords segments) =
    loadMem (testCore segments).dmemIdxW (segmentsWords segments) :=
  loadArray_eq (n := 12) (by decide)

/-- There is nothing behind the segments. -/
theorem segmentsByte_past (h : segmentsTop segments ≤ a) : segmentsByte segments a = none := by
  have hs : ∀ s ∈ segments, Segment.byte s a = none := by
    intro s hs
    have ht := le_segmentsTop hs
    rw [Segment.byte]
    split
    · exact List.getElem?_eq_none (by omega)
    · rfl
  clear h
  induction segments with
  | nil => rfl
  | cons s rest ih =>
    rw [segmentsByte, ih fun t ht => hs t (List.mem_cons_of_mem _ ht), Option.none_or]
    exact hs s (List.mem_cons_self ..)

theorem memSize_boot (segments : List Segment) (h : segmentsBase segments = 0) :
    4 * (segmentsWords segments).length ≤ (bootMemSize segments).toNat := by
  have hm := segmentsTop_le segments
  rw [length_segmentsWords]
  omega

variable {s : RV32I}

/-- Every byte of the runner's CPU is one of the words. -/
theorem byteAt_segments (h : Testable segments isCode) {tohost : ℕ} (hs : HasSegments segments
    (.init (bootMemSize segments).toNat (segmentsBase segments) tohost true) s) :
    byteAt s.mem a = leByte (wordAt (segmentsWords segments) (a / 4)).toNat (a % 4) := by
  have hb := byteAt_boot hs (a := a) (by rw [h.base]; exact Nat.zero_le a)
  rw [h.base, Nat.cast_zero, Int.sub_zero, Int.toNat_natCast] at hb
  rw [hb]
  have htop := h.top
  by_cases hlt : a < 4 * 4096
  · rw [← wordsByteAt_imageWords h.separate, wordAt_segmentsWords (by omega), BitVec.toNat_ofNat,
      leByte_mod_word _ (by omega)]
    rfl
  · rw [segmentsByte_past (by omega), wordAt_past (by rw [length_segmentsWords]; omega)]
    simp [leByte]

/-- The runner's CPU is in the initial state of the test. -/
theorem models_boot (h : Testable segments isCode) {tohost : ℕ} (hs : HasSegments segments
    (.init (bootMemSize segments).toNat (segmentsBase segments) tohost true) s) :
    Models (imageMachine (segmentsWords segments) isCode (bootMemSize segments).toNat tohost
      (memSize_boot segments h.base)) true (imageCpu (segmentsWords segments)) s := by
  have hbyte : ∀ a, byteAt s.mem a = _ := fun a => byteAt_segments h hs
  have hlen : s.mem.length = (bootMemSize segments).toNat := by
    rw [hs.length]
    exact List.length_replicate
  have hsize := memSize_boot segments h.base
  have hbase := h.base
  obtain ⟨mem, rfl⟩ := hs.rest
  dsimp only [RV32I.init] at hbyte hlen
  constructor
  case running => rfl
  case holds => exact ⟨congrArg Nat.cast hbase, rfl, fun _ _ => rfl⟩
  case zero => rfl
  case mem =>
    intro a _ _
    change byteAt mem ((a.toNat : ℤ) - (segmentsBase segments : ℤ)).toNat = _
    rw [hbase, Nat.cast_zero, Int.sub_zero, Int.toNat_natCast, hbyte]
    rfl
  case code =>
    intro q i hq
    obtain ⟨hal, hlt, -, hd⟩ := imageCode_eq_some hq
    refine ⟨_, ⟨hal, ⟨?_, ?_⟩, ?_⟩, hd⟩
    · change (segmentsBase segments : ℤ) ≤ q.toNat
      omega
    · change (q.toNat : ℤ) + 4 ≤ (segmentsBase segments : ℤ) + (mem.length : ℤ)
      omega
    · change unpackFrom mem ((q.toNat : ℤ) - (segmentsBase segments : ℤ)).toNat 4 = _
      rw [hbase, Nat.cast_zero, Int.sub_zero, Int.toNat_natCast, unpackFrom,
        ← leNat_word (wordAt (segmentsWords segments) (q.toNat / 4))]
      refine leNat_congr fun j hj => ?_
      have hq4 : (q.toNat + j) / 4 = q.toNat / 4 := by omega
      have hj4 : (q.toNat + j) % 4 = j := by omega
      rw [hbyte, hq4, hj4]
  case memBase => exact congrArg Nat.cast hbase
  case memEnd =>
    change (segmentsBase segments : ℤ) + (mem.length : ℤ) = ((bootMemSize segments).toNat : ℤ)
    omega
  case tohostAddr => rfl
  case trapOnEcall => rfl

end Image
section Verdicts
variable {segments : List Segment} {isCode : ℕ → Bool} {n : ℕ} {c : Cpu} {v : Word}

/-- The machine that the cores are for a test. -/
def testMachine (segments : List Segment) (isCode : ℕ → Bool) : Machine :=
  imageMachine (segmentsWords segments) isCode (4 * 2 ^ 12) 0x80001000
    (by rw [length_segmentsWords]; exact le_rfl)

/-- The text of `run_test` for a store of `v` after `n` steps. -/
def verdictText (v : Word) (n : ℕ) : String :=
  if v = 1#32 then s!"tohost=1 after {n} steps"
  else s!"tohost=0x{hexPad 1 v.toNat} (failing subtest {v.toNat >>> 1})"

theorem testResult_tohost {s : RV32I} (hv : s.tohostValue = some (v.toNat : ℤ)) :
    testResult (.ok (.reason (haltReason (.tohost v))) s) =
      .ok (decide (v = 1#32), verdictText v s.steps) := by
  rw [testResult, haltReason, verdictText]
  by_cases h1 : v = 1#32
  · rw [if_pos h1, if_pos h1, decide_eq_true h1]
    exact congrArg Except.ok (if_pos rfl)
  · rw [if_neg h1, if_neg h1, decide_eq_false h1, testVerdict, if_neg (by decide), if_pos rfl, hv]
    rfl

section Tohost
variable (h : Testable segments isCode)
  (hr : Steps (testMachine segments isCode).Step n (imageCpu (segmentsWords segments)) c)
  (he : (testMachine segments isCode).Ends c (.tohost v))
include h hr he

theorem runTest_tohost (hn : (n : ℤ) < MAX_STEPS) :
    runTest segments (some 0x80001000) = .ok (decide (v = 1#32), verdictText v (n + 1)) := by
  have hsize := memSize_boot segments h.base
  obtain ⟨cpu, hcpu, hseg⟩ := bootSegments_ok segments 0x80001000
  have hm := models_boot h hseg
  have hle : 4 * 2 ^ 12 ≤ (bootMemSize segments).toNat := by
    rw [length_segmentsWords] at hsize
    exact hsize
  have hr' : Steps (imageMachine (segmentsWords segments) isCode _ 0x80001000 hsize).Step n _ c :=
    hr.mono fun _ _ hs => step_larger hle hs
  have hzero : cpu.steps = 0 := hseg.steps
  obtain ⟨cpu', hrun, hh, hsteps⟩ := hm.run hr' (ends_larger he) (stops_tohost v)
    (by rwa [hzero, Nat.cast_zero, zero_add])
  rw [runTest_of_boot h.nonempty hcpu, hrun, testResult_tohost (hh.tohostValue v rfl), hsteps,
    hzero, Nat.zero_add]

theorem runTop_tohost (h0 : 0 < n) (hn : n ≤ 50000) (s : Rtl.Top (testCore segments)) :
    runTop segments s = .tohost v := by
  have ht := topFinishes (hosts (loaded_testCore h)) (carries_reset (loaded_testCore h)) hr he
  rw [runTop, if_neg h.nonempty, bootTop_eq, resetTop, dmem_testCore,
    awaitHalt_of_firstAt ht.first h0 hn]
  change outcome _ _ _ = _
  rw [ht.cause]
  exact congrArg Outcome.tohost (ht.tohost v rfl)

theorem runPipeline_tohost (hn : n ≤ 49998) (t : TopPipeline (testCore segments)) :
    runPipeline segments t = .tohost v := by
  obtain ⟨m, hp⟩ :=
    pipelineFinishes (hosts (loaded_testCore h)) (carries_reset (loaded_testCore h)) hr he
  have hb := hp.bound
  rw [runPipeline, if_neg h.nonempty, bootPipeline_eq, resetPipeline, dmem_testCore,
    awaitHalt_of_firstAt hp.first (by omega) (by omega)]
  change outcome _ _ _ = _
  rw [hp.cause]
  exact congrArg Outcome.tohost (hp.tohost v rfl 0)

end Tohost

/-- A test that stores to `tohost` gets the same verdict from the emulator and from both cores. -/
theorem verdicts_agree (h : Testable segments isCode)
    (hr : Steps (testMachine segments isCode).Step n (imageCpu (segmentsWords segments)) c)
    (he : (testMachine segments isCode).Ends c (.tohost v)) (h0 : 0 < n) (hn : n ≤ 49998)
    (s : Rtl.Top (testCore segments)) (t : TopPipeline (testCore segments)) :
    runTest segments (some 0x80001000) = .ok ((runTop segments s).passed, verdictText v (n + 1)) ∧
      runTop segments s = .tohost v ∧ runPipeline segments t = .tohost v := by
  have htop := runTop_tohost h hr he h0 (by omega) s
  refine ⟨?_, htop, runPipeline_tohost h hr he hn t⟩
  rw [htop]
  refine runTest_tohost h hr he ?_
  change (n : ℤ) < 1000000
  omega

theorem testable_passSegments : Testable passSegments fun a => decide (a < 12) where
  nonempty := List.cons_ne_nil _ _
  separate := List.pairwise_singleton _ _
  base := by decide
  top := by decide
  code a ha := by
    have hlt := of_decide_eq_true ha
    omega

theorem code_passSegments {q : Word} {i : Insn} (h4 : q.toNat % 4 = 0) (hq : q.toNat < 12)
    (hd : decode (.ofNat 32 (imageWords passSegments (q.toNat / 4))) = some i) :
    (testMachine passSegments fun a => decide (a < 12)).code q = some i := by
  change imageCode (segmentsWords passSegments) (fun a => decide (a < 12)) q = _
  rw [imageCode, if_pos ⟨h4, by rw [length_segmentsWords]; omega, decide_eq_true hq⟩,
    wordAt_segmentsWords (by omega), hd]

theorem verdicts_agree_passSegments :
    runTest passSegments (some 0x80001000) =
      .ok ((runTop passSegments (.reset _ fun _ => 7#32)).passed, "tohost=1 after 3 steps") ∧
      runTop passSegments (.reset _ fun _ => 7#32) = .tohost 1#32 ∧
      runPipeline passSegments (.reset _ fun _ => 7#32) = .tohost 1#32 := by
  have h0 := code_passSegments (q := 0#32) (i := .lui 2#5 0x80001000#32) rfl (by decide)
    (by decide +kernel)
  have h1 := code_passSegments (q := 4#32) (i := .opImm .add 1#5 0#5 1#32) rfl (by decide)
    (by decide +kernel)
  have h2 := code_passSegments (q := 8#32) (i := .store .sw 2#5 1#5 0#32) rfl (by decide)
    (by decide +kernel)
  exact verdicts_agree (n := 2) (v := 1#32) testable_passSegments
    (.head (.exec h0 Insn.noConfusion Insn.noConfusion (permits_plain rfl rfl rfl))
      (.one (.exec h1 Insn.noConfusion Insn.noConfusion (permits_plain rfl rfl rfl))))
    (.tohost (a := 0x80001000#32) (k := .sw) h2 (by decide +kernel) rfl) (by decide) (by decide) _ _

end Verdicts
end RiscForge.System
