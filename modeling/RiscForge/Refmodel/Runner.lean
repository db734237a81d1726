import RiscForge.Lib.Align
import RiscForge.Refmodel.Run

/-! The conformance runner of `refmodel/riscv_tests_runner.py`, from the segments of a binary on. -/
namespace RiscForge.Refmodel

open Lib

def TrapKind.text : TrapKind → String
  | .illegal => "illegal"
  | .misalignedFetch => "misaligned-fetch"
  | .misalignedLoad => "misaligned-load"
  | .misalignedStore => "misaligned-store"
  | .memRange => "mem-range"

/-- The address and the contents of a segment. -/
abbrev Segment := ℕ × List (BitVec 8)

def MAX_STEPS : ℤ := 1000000

section Runner
variable (segments : List Segment)

/-- `min(s[0] for s in segments)`. -/
def segmentsBase : ℕ := (segments.map fun s => s.1).min?.getD 0

/-- `max(s[0] + len(s[1]) for s in segments)`. -/
def segmentsTop : ℕ := (segments.map fun s => s.1 + s.2.length).max?.getD 0

def bootMemSize : ℤ :=
  ((segmentsTop segments : ℤ) - segmentsBase segments + 0xFFFF &&& ~~~0xFFFF) + 0x10000

def loadSegments : List Segment → Emu Unit
  | [] => pure ()
  | (paddr, data) :: segments => do
    loadProgram data (some (paddr : ℤ))
    loadSegments segments

/-- The CPU that the runner builds, with the segments in its memory. -/
def bootSegments (tohost : ℕ) : EStateM.Result Raised RV32I Unit :=
  loadSegments segments
    (.init (bootMemSize segments).toNat (segmentsBase segments) tohost true)

/-- What a run that returns comes to. -/
def testVerdict (reason : RunResult) (cpu : RV32I) : Bool × String :=
  if reason = .reason .tohostPass then (true, s!"tohost=1 after {cpu.steps} steps")
  else if reason = .reason .tohostFail then
    let v := cpu.tohostValue.getD 0
    (false, s!"tohost=0x{hexPad 1 v} (failing subtest {v >>> 1})")
  else (false, s!"halt={reason.text}, last PC=0x{hexPad 8 cpu.pc}, {cpu.steps} steps")

/-- The end of `run_test`: a trap is a failure, and any other exception passes through. -/
def testResult : EStateM.Result Raised RV32I RunResult → Except Raised (Bool × String)
  | .ok reason cpu => .ok (testVerdict reason cpu)
  | .error (.trap t) _ =>
    .ok (false, s!"trap: {t.kind.text} at PC=0x{hexPad 8 t.pc}: {t.detail}")
  | .error e _ => .error e

/-- `run_test`. -/
def runTest (tohost : Option ℕ) : Except Raised (Bool × String) :=
  match tohost with
  | none => .ok (false, "no `tohost` symbol in ELF")
  | some tohost =>
    if segments = [] then .ok (false, "no loadable segments in ELF")
    else
      match bootSegments segments tohost with
      | .error e _ => .error e
      | .ok _ cpu => testResult (run MAX_STEPS cpu)

end Runner

section Splice
variable {data mem : List (BitVec 8)} {o a : ℕ}

/-- `mem[o : o + len(data)] = data`. -/
def splice (mem : List (BitVec 8)) (o : ℕ) (data : List (BitVec 8)) : List (BitVec 8) :=
  mem.take o ++ data ++ mem.drop (o + data.length)

theorem length_splice (h : o + data.length ≤ mem.length) :
    (splice mem o data).length = mem.length := by
  rw [splice, List.length_append, List.length_append, List.length_take, List.length_drop]
  omega

theorem byteAt_splice (h : o + data.length ≤ mem.length) :
    byteAt (splice mem o data) a =
      ((if o ≤ a then data[a - o]? else none).getD (byteAt mem a)) := by
  have ht : (mem.take o).length = o := by
    rw [List.length_take]
    omega
  simp only [byteAt, splice, List.getD_eq_getElem?_getD]
  by_cases ho : o ≤ a
  · rw [if_pos ho, List.append_assoc, List.getElem?_append_right (by omega), ht]
    by_cases hd : a - o < data.length
    · rw [List.getElem?_append_left hd, List.getElem?_eq_getElem hd]
      rfl
    · rw [List.getElem?_append_right (by omega), List.getElem?_drop,
        List.getElem?_eq_none (l := data) (by omega), Option.getD_none]
      congr 2
      omega
  · rw [if_neg ho, List.append_assoc, List.getElem?_append_left (by omega),
      List.getElem?_take_of_lt (by omega)]
    rfl

end Splice

section Loading
variable {segments : List Segment} {s : RV32I} {tohost a : ℕ}

/-- The byte that a segment has for the address `a`. -/
def Segment.byte (seg : Segment) (a : ℕ) : Option (BitVec 8) :=
  if seg.1 ≤ a then seg.2[a - seg.1]? else none

/-- The byte for the address `a`; of several segments the last one counts. -/
def segmentsByte : List Segment → ℕ → Option (BitVec 8)
  | [], _ => none
  | seg :: segments, a => (segmentsByte segments a).or (seg.byte a)

theorem loadProgram_splice {data : List (BitVec 8)} {base : ℕ} (h0 : s.memBase ≤ base)
    (h1 : base + data.length ≤ s.memBase + s.mem.length) :
    loadProgram data (some (base : ℤ)) s =
      .ok () { s with mem := splice s.mem (base - s.memBase).toNat data } := by
  simp only [loadProgram, get_bind, Option.getD_some]
  rw [if_neg (by omega)]
  have hs : ((base : ℤ) - s.memBase + data.length).toNat =
      ((base : ℤ) - s.memBase).toNat + data.length := by omega
  rw [hs]
  rfl

/-- The CPU `s'` is `s` with the segments in its memory. -/
structure HasSegments (segments : List Segment) (s s' : RV32I) : Prop where
  rest : ∃ mem, s' = { s with mem := mem }
  length : s'.mem.length = s.mem.length
  byte : ∀ a : ℕ, s.memBase ≤ a → byteAt s'.mem (a - s.memBase).toNat =
    (segmentsByte segments a).getD (byteAt s.mem (a - s.memBase).toNat)

theorem HasSegments.steps {s' : RV32I} (h : HasSegments segments s s') : s'.steps = s.steps := by
  obtain ⟨mem, rfl⟩ := h.rest
  rfl

/-- Segments inside the memory get loaded. -/
theorem loadSegments_ok (h : ∀ seg ∈ segments, s.memBase ≤ seg.1 ∧
    seg.1 + seg.2.length ≤ s.memBase + s.mem.length) :
    ∃ s', loadSegments segments s = .ok () s' ∧ HasSegments segments s s' := by
  induction segments generalizing s with
  | nil => exact ⟨s, rfl, ⟨s.mem, rfl⟩, rfl, fun a _ => rfl⟩
  | cons seg segments ih =>
    obtain ⟨paddr, data⟩ := seg
    obtain ⟨h0, h1⟩ := h _ (List.mem_cons_self ..)
    simp only at h0 h1
    have hfit : (paddr - s.memBase).toNat + data.length ≤ s.mem.length := by omega
    have hl := length_splice hfit
    obtain ⟨s', hs', ⟨mem, rfl⟩, hlen, hbyte⟩ :=
      ih (s := { s with mem := splice s.mem (paddr - s.memBase).toNat data }) fun seg hseg => by
        rw [hl]
        exact h seg (List.mem_cons_of_mem _ hseg)
    dsimp only at hbyte
    refine ⟨_, ?_, ⟨mem, rfl⟩, hlen.trans hl, ?_⟩
    · rw [loadSegments, bind_ok (loadProgram_splice h0 h1)]
      exact hs'
    · intro a ha
      rw [hbyte a ha, byteAt_splice hfit, segmentsByte]
      cases segmentsByte segments a with
      | some b => rfl
      | none =>
        rw [Option.none_or, Option.getD_none, Segment.byte]
        by_cases hp : paddr ≤ a
        · rw [if_pos (by omega), if_pos hp]
          congr 2
          omega
        · rw [if_neg (by omega), if_neg hp]

theorem segmentsBase_le {seg : Segment} (h : seg ∈ segments) : segmentsBase segments ≤ seg.1 := by
  have hm : seg.1 ∈ segments.map fun s => s.1 := List.mem_map_of_mem h
  cases hb : (segments.map fun s => s.1).min? with
  | none =>
    rw [List.min?_eq_none_iff.mp hb] at hm
    cases hm
  | some b =>
    rw [segmentsBase, hb]
    exact (List.min?_eq_some_iff.mp hb).2 _ hm

theorem le_segmentsTop {seg : Segment} (h : seg ∈ segments) :
    seg.1 + seg.2.length ≤ segmentsTop segments := by
  have hm : seg.1 + seg.2.length ∈ segments.map fun s => s.1 + s.2.length :=
    List.mem_map_of_mem (f := fun s : Segment => s.1 + s.2.length) h
  cases hb : (segments.map fun s => s.1 + s.2.length).max? with
  | none =>
    rw [List.max?_eq_none_iff.mp hb] at hm
    cases hm
  | some b =>
    rw [segmentsTop, hb]
    exact (List.max?_eq_some_iff.mp hb).2 _ hm

/-- The memory has room for all segments, and 64 KiB more. -/
theorem segmentsTop_le (segments : List Segment) :
    (segmentsTop segments : ℤ) + 0x10000 ≤ segmentsBase segments + bootMemSize segments := by
  have he : bootMemSize segments = (segmentsTop segments : ℤ) - segmentsBase segments +
      padBelow ((segmentsTop segments : ℤ) - segmentsBase segments) 16 + 0x10000 := by
    rw [← roundUp_eq, bootMemSize, Int.add_sub_assoc _ ((1 : ℤ) <<< (16 : ℕ))]
    rfl
  have hp := padBelow_nonneg ((segmentsTop segments : ℤ) - segmentsBase segments) 16
  omega

/-- The runner's CPU gets all its segments. -/
theorem bootSegments_ok (segments : List Segment) (tohost : ℕ) :
    ∃ s, bootSegments segments tohost = .ok () s ∧ HasSegments segments
      (.init (bootMemSize segments).toNat (segmentsBase segments) tohost true) s := by
  refine loadSegments_ok fun seg hseg => ?_
  have hb := segmentsBase_le hseg
  have ht := le_segmentsTop hseg
  have hm := segmentsTop_le segments
  simp only [RV32I.init, List.length_replicate]
  omega

end Loading

section Verdict
variable {segments : List Segment} {s s' : RV32I} {tohost : ℕ} {reason : RunResult} {text : String}

theorem runTest_of_boot (hne : segments ≠ []) (h : bootSegments segments tohost = .ok () s) :
    runTest segments (some tohost) = testResult (run MAX_STEPS s) := by
  simp only [runTest, if_neg hne, h]

theorem testVerdict_true (h : testVerdict reason s = (true, text)) :
    reason = .reason .tohostPass ∧ text = s!"tohost=1 after {s.steps} steps" := by
  unfold testVerdict at h
  split at h
  case isTrue hr =>
    cases h
    exact ⟨hr, rfl⟩
  case isFalse =>
    split at h <;> cases h

theorem outcome_tohostPass : s.outcome = .reason .tohostPass ↔
    s.halted = true ∧ s.haltReason = some .tohostPass := by
  unfold RV32I.outcome
  cases s.halted <;> cases s.haltReason <;> simp

/-- The run of a test, from the state `s` after loading: it ends with the halt that says so. -/
structure PassesIn (s : RV32I) (n : ℕ) (s' : RV32I) : Prop where
  run : Steps Next n s s'
  limit : (n : ℤ) ≤ MAX_STEPS
  halted : s'.halted = true
  reason : s'.haltReason = some .tohostPass

theorem testResult_pass : testResult (.ok (.reason .tohostPass) s) =
    .ok (true, s!"tohost=1 after {s.steps} steps") := congrArg Except.ok (if_pos rfl)

theorem testResult_of_passesIn {n : ℕ} (h : PassesIn s n s') (h0 : s.steps = 0) :
    testResult (run MAX_STEPS s) = .ok (true, s!"tohost=1 after {n} steps") := by
  have hl := h.limit
  have hgo : Ran MAX_STEPS s s' n := ran_of_rounds (going_of_next h.run (by rw [h0]; omega))
  have hstop : ¬ Goes MAX_STEPS s' := by
    rintro ⟨hf, -⟩
    rw [h.halted] at hf
    cases hf
  rw [run_of_ran hgo hstop, outcome_tohostPass.mpr ⟨h.halted, h.reason⟩, testResult_pass,
    next_steps h.run, h0, Nat.zero_add]

theorem passesIn_of_testResult (h0 : s.steps = 0)
    (h : testResult (run MAX_STEPS s) = .ok (true, text)) :
    ∃ n s', PassesIn s n s' ∧ text = s!"tohost=1 after {n} steps" := by
  obtain ⟨n, t, hn, ⟨-, hr⟩ | ⟨e, hg, he, hr⟩⟩ := run_cases MAX_STEPS s
  · rw [hr] at h
    obtain ⟨ho, ht⟩ := testVerdict_true (Except.ok.inj h)
    obtain ⟨hh, hp⟩ := outcome_tohostPass.mp ho
    have hk := hn.steps
    have hb := hn.bound
    rw [h0, Nat.zero_add] at hk
    rw [h0] at hb
    have hm : (0 : ℤ) ≤ MAX_STEPS := by decide
    exact ⟨n, t, ⟨hn.rounds.mono fun _ _ hd => hd.step, by omega, hh, hp⟩, by rw [ht, hk]⟩
  · obtain ⟨tr, rfl⟩ := step_raises hg.1 he
    rw [hr] at h
    cases h

/-- A run of `step` raises nothing but traps, so the runner always comes to a result. -/
theorem testResult_run (s : RV32I) : ∃ v, testResult (run MAX_STEPS s) = .ok v := by
  obtain ⟨n, t, -, ⟨-, hr⟩ | ⟨e, hg, he, hr⟩⟩ := run_cases MAX_STEPS s
  · exact ⟨_, congrArg testResult hr⟩
  · obtain ⟨tr, rfl⟩ := step_raises hg.1 he
    exact ⟨_, congrArg testResult hr⟩

/-- Whatever the segments and the symbol of a binary: all segments get into the memory, the runner
raises nothing, and it passes the test just if the run gets to a store of 1 to `tohost` within the
limit, which it reports. -/
theorem runTest_exact (segments : List Segment) (tohost : ℕ) :
    ∃ s, bootSegments segments tohost = .ok () s ∧ HasSegments segments
      (.init (bootMemSize segments).toNat (segmentsBase segments) tohost true) s ∧
      (∃ v, runTest segments (some tohost) = .ok v) ∧
      ∀ text, runTest segments (some tohost) = .ok (true, text) ↔ segments ≠ [] ∧
        ∃ n s', PassesIn s n s' ∧ text = s!"tohost=1 after {n} steps" := by
  obtain ⟨s, hs, hseg⟩ := bootSegments_ok segments tohost
  have h0 : s.steps = 0 := hseg.steps
  refine ⟨s, hs, hseg, ?_⟩
  by_cases hne : segments = []
  · subst hne
    refine ⟨⟨_, rfl⟩, fun text => ⟨?_, fun h => absurd rfl h.1⟩⟩
    rintro ⟨⟩
  rw [runTest_of_boot hne hs]
  refine ⟨testResult_run s, fun text => ⟨fun h => ⟨hne, passesIn_of_testResult h0 h⟩, ?_⟩⟩
  rintro ⟨-, n, s', h, rfl⟩
  exact testResult_of_passesIn h h0

end Verdict
end RiscForge.Refmodel
