import RiscForge.Lib.Steps
import RiscForge.Refmodel.Frame

/-! `RV32I.run`: steps until the CPU halts or has taken enough of them. -/
namespace RiscForge.Refmodel

open Lib Rtl

/-- What `run` returns: the limit was reached, or why the CPU halted. -/
inductive RunResult
  | stepLimit
  | reason (r : HaltReason)
  | halted
  deriving DecidableEq, Repr

def HaltReason.text : HaltReason → String
  | .ecall => "ecall"
  | .ebreak => "ebreak"
  | .tohostPass => "tohost-pass"
  | .tohostFail => "tohost-fail"

def RunResult.text : RunResult → String
  | .stepLimit => "step-limit"
  | .reason r => r.text
  | .halted => "halted"

/-- The condition of the loop of `run`. -/
def Goes (maxSteps : ℤ) (s : RV32I) : Prop := s.halted = false ∧ s.steps < maxSteps

instance decidableGoes (maxSteps : ℤ) (s : RV32I) : Decidable (Goes maxSteps s) :=
  inferInstanceAs (Decidable (_ ∧ _))

/-- The loop of `run`, for so many rounds at most. -/
def runLoop (maxSteps : ℤ) : ℕ → Emu Unit
  | 0 => pure ()
  | n + 1 => do
    let s ← get
    if Goes maxSteps s then
      let _ ← step
      runLoop maxSteps n
    else pure ()

/-- The end of `run`. -/
def RV32I.outcome (s : RV32I) : RunResult :=
  if s.halted = false then .stepLimit
  else
    match s.haltReason with
    | some r => .reason r
    | none => .halted

/-- Every round counts a step, so the loop has no more rounds than it is short of the limit. -/
def run (maxSteps : ℤ) : Emu RunResult := do
  let s ← get
  runLoop maxSteps (maxSteps - s.steps).toNat
  let s ← get
  return s.outcome

section Traps

/-- The exception is a `Trap`. -/
def Raised.IsTrap (e : Raised) : Prop := ∃ t, e = .trap t

variable {pc : ℤ} {d : String} {kind : TrapKind} {α : Type}

theorem raises_trap : Raises Raised.IsTrap (raiseTrap kind pc d : Emu α) := raises_throw ⟨_, rfl⟩

theorem raises_pure (a : α) : Raises Raised.IsTrap (pure a : Emu α) := total_pure.raises

theorem raises_memIndex (addr size : ℤ) : Raises Raised.IsTrap (memIndex addr size) := by
  refine total_get.raises.bind fun s => ?_
  split
  · exact raises_trap
  · exact raises_pure _

theorem raises_fetch (addr : ℤ) : Raises Raised.IsTrap (fetch addr) := by
  refine total_get.raises.bind fun s => ?_
  split
  · exact raises_trap
  · exact (raises_memIndex _ _).bind fun i => raises_pure _

theorem raises_load (addr size : ℤ) (signed : Bool) :
    Raises Raised.IsTrap (load addr size signed) := by
  refine total_get.raises.bind fun s => ?_
  split
  · exact raises_trap
  · refine (raises_memIndex _ _).bind fun i => ?_
    split
    · exact raises_pure _
    · split <;> exact raises_pure _

theorem raises_loadValue (f3 addr pc : ℤ) : Raises Raised.IsTrap (loadValue f3 addr pc) := by
  unfold loadValue
  split
  case h_6 => exact raises_trap
  all_goals exact raises_load _ _ _

theorem raises_store (addr v size : ℤ) : Raises Raised.IsTrap (store addr v size) := by
  refine total_get.raises.bind fun s => ?_
  split
  · exact total_set.raises
  · split
    · exact raises_trap
    · refine (raises_memIndex _ _).bind fun i => ?_
      split
      · exact total_set.raises
      · split <;> exact total_set.raises

theorem raises_jumpTarget (what : String) (target pc : ℤ) :
    Raises Raised.IsTrap (jumpTarget what target pc) := by
  unfold jumpTarget
  split
  · exact raises_trap
  · exact raises_pure _

theorem raises_branchTaken (f3 a b pc : ℤ) : Raises Raised.IsTrap (branchTaken f3 a b pc) := by
  unfold branchTaken
  split
  case h_7 => exact raises_trap
  all_goals exact raises_pure _

theorem raises_storeSize (f3 pc : ℤ) : Raises Raised.IsTrap (storeSize f3 pc) := by
  unfold storeSize
  split
  case h_4 => exact raises_trap
  all_goals exact raises_pure _

theorem raises_aluImm (f3 a imm inst pc : ℤ) : Raises Raised.IsTrap (aluImm f3 a imm inst pc) := by
  unfold aluImm
  simp only
  split
  case h_8 =>
    split
    · exact raises_pure _
    · split
      · exact raises_pure _
      · exact raises_trap
  case h_9 => exact raises_trap
  all_goals exact raises_pure _

theorem raises_aluReg (f3 f7 a b pc : ℤ) : Raises Raised.IsTrap (aluReg f3 f7 a b pc) := by
  unfold aluReg
  simp only
  split
  case h_1 | h_6 =>
    split
    · exact raises_pure _
    · split
      · exact raises_pure _
      · exact raises_trap
  case h_9 => exact raises_trap
  all_goals exact raises_pure _

theorem raises_system (funct12 pc nextPc : ℤ) :
    Raises Raised.IsTrap (system funct12 pc nextPc) := by
  refine total_get.raises.bind fun s => ?_
  split
  · split
    · exact (total_modify.bind fun _ => total_modify.bind fun _ => total_get.bind fun _ =>
        total_pure).raises
    · exact (total_set.bind fun _ => total_pure).raises
  · split
    · split
      · exact (total_modify.bind fun _ => total_modify.bind fun _ => total_get.bind fun _ =>
          total_pure).raises
      · exact (total_set.bind fun _ => total_pure).raises
    · split
      · exact raises_pure _
      · split
        · exact raises_pure _
        · exact raises_trap

theorem raises_execute (pc inst : ℤ) : Raises Raised.IsTrap (execute pc inst) := by
  refine total_get.raises.bind fun s => ?_
  simp only
  split
  · exact ((total_wr _ _).bind fun _ => total_pure).raises
  · exact ((total_wr _ _).bind fun _ => total_pure).raises
  · exact (raises_jumpTarget _ _ _).bind fun _ => ((total_wr _ _).bind fun _ => total_pure).raises
  · exact (raises_jumpTarget _ _ _).bind fun _ => ((total_wr _ _).bind fun _ => total_pure).raises
  · refine (raises_branchTaken _ _ _ _).bind fun taken => ?_
    split
    · exact (raises_jumpTarget _ _ _).bind fun _ => raises_pure _
    · exact raises_pure _
  · exact (raises_loadValue _ _ _).bind fun _ => ((total_wr _ _).bind fun _ => total_pure).raises
  · exact (raises_storeSize _ _).bind fun _ => (raises_store _ _ _).bind fun _ => raises_pure _
  · exact (raises_aluImm _ _ _ _ _).bind fun _ =>
      ((total_wr _ _).bind fun _ => total_pure).raises
  · exact (raises_aluReg _ _ _ _ _).bind fun _ =>
      ((total_wr _ _).bind fun _ => total_pure).raises
  · exact raises_pure _
  · split
    · exact (raises_system _ _ _).bind fun _ => raises_pure _
    · split
      · exact raises_trap
      · exact ((total_zicsr _ _ _ _).bind fun _ => total_pure).raises
  · exact raises_trap

variable {s s' : RV32I} {e : Raised}

/-- A CPU that is not halted raises nothing but traps. -/
theorem step_raises (hs : s.halted = false) (h : step s = .error e s') : e.IsTrap := by
  simp only [step, get_bind, hs, Bool.false_eq_true, if_false] at h
  rcases run_bind_error.mp h with he | ⟨inst, t, -, h⟩
  · exact raises_fetch _ _ _ _ he
  · rcases run_bind_error.mp h with he | ⟨r, t', -, h⟩
    · exact raises_execute _ _ _ _ _ he
    · cases h

end Traps

section Loop
variable {maxSteps : ℤ} {s s' : RV32I} {n : ℕ} {e : Raised} {r : RunResult} {tr : StepTrace}

/-- One round of the loop. -/
structure Going (maxSteps : ℤ) (s s' : RV32I) : Prop where
  running : s.halted = false
  below : s.steps < maxSteps
  step : ∃ tr, step s = .ok tr s'

theorem step_steps (h : step s = .ok tr s') : s'.steps = s.steps + 1 := by
  obtain ⟨t, next, hst⟩ := step_eq_ok h
  rw [hst.state]
  exact congrArg (· + 1) (execute_frame hst.execute).sameSteps

theorem steps_of_going (h : Steps (Going maxSteps) n s s') : s'.steps = s.steps + n := by
  induction h with
  | refl => rfl
  | head hd _ ih =>
    obtain ⟨tr, ht⟩ := hd.step
    rw [ih, step_steps ht]
    omega

theorem Going.unique {t : RV32I} (h : Going maxSteps s s') (h' : Going maxSteps s t) : s' = t := by
  obtain ⟨tr, hs⟩ := h.step
  obtain ⟨tr', ht⟩ := h'.step
  rw [hs] at ht
  cases ht
  rfl

theorem runLoop_stop (h : ¬ Goes maxSteps s) : runLoop maxSteps n s = .ok () s := by
  cases n with
  | zero => rfl
  | succ n =>
    simp only [runLoop, get_bind]
    rw [if_neg h]
    rfl

theorem runLoop_ok (hg : Goes maxSteps s) (h : step s = .ok tr s') :
    runLoop maxSteps (n + 1) s = runLoop maxSteps n s' := by
  simp only [runLoop, get_bind]
  rw [if_pos hg, bind_ok h]

theorem runLoop_error (hg : Goes maxSteps s) (h : step s = .error e s') :
    runLoop maxSteps (n + 1) s = .error e s' := by
  simp only [runLoop, get_bind]
  rw [if_pos hg, bind_error h]

/-- The loop takes rounds until its condition fails, or a step raises. -/
theorem runLoop_cases (hn : maxSteps - s.steps ≤ n) :
    ∃ m t, Steps (Going maxSteps) m s t ∧
      (¬ Goes maxSteps t ∧ runLoop maxSteps n s = .ok () t ∨
        ∃ e, Goes maxSteps t ∧ step t = .error e t ∧ runLoop maxSteps n s = .error e t) := by
  induction n generalizing s with
  | zero =>
    have hg : ¬ Goes maxSteps s := by
      rintro ⟨-, h⟩
      omega
    exact ⟨0, s, .refl s, .inl ⟨hg, rfl⟩⟩
  | succ n ih =>
    by_cases hg : Goes maxSteps s
    · cases hs : step s with
      | ok tr s' =>
        have hst := step_steps hs
        obtain ⟨m, t, hm, ht⟩ := ih (s := s') (by omega)
        refine ⟨m + 1, t, .head ⟨hg.1, hg.2, tr, hs⟩ hm, ?_⟩
        rwa [runLoop_ok hg hs]
      | error e s' =>
        obtain rfl := atomic_step _ _ _ hs
        exact ⟨0, s', .refl s', .inr ⟨e, hg, hs, runLoop_error hg hs⟩⟩
    · exact ⟨0, s, .refl s, .inl ⟨hg, runLoop_stop hg⟩⟩

/-- What a call of `run` on `s` comes to: the loop's rounds lead to `s'`. -/
structure Ran (maxSteps : ℤ) (s s' : RV32I) (n : ℕ) : Prop where
  rounds : Steps (Going maxSteps) n s s'
  steps : s'.steps = s.steps + n
  bound : n ≤ (maxSteps - s.steps).toNat

theorem ran_of_rounds (h : Steps (Going maxSteps) n s s') : Ran maxSteps s s' n := by
  have hs := steps_of_going h
  refine ⟨h, hs, ?_⟩
  cases n with
  | zero => exact Nat.zero_le _
  | succ n =>
    obtain ⟨t, h₁, h₂⟩ := h.split (m := n) (n := 1)
    have ht := steps_of_going h₁
    cases h₂ with
    | head hd =>
      have := hd.below
      omega

theorem not_going_of_not_goes {t : RV32I} (h : ¬ Goes maxSteps s) : ¬ Going maxSteps s t :=
  fun hg => h ⟨hg.running, hg.below⟩

theorem not_going_of_error {t : RV32I} (h : step s = .error e s') : ¬ Going maxSteps s t := by
  intro hg
  obtain ⟨tr, hs⟩ := hg.step
  rw [h] at hs
  cases hs

theorem run_of_loop (h : runLoop maxSteps (maxSteps - s.steps).toNat s = .ok () s') :
    run maxSteps s = .ok s'.outcome s' := by
  simp only [run, get_bind]
  rw [bind_ok h]
  rfl

theorem run_of_loop_error (h : runLoop maxSteps (maxSteps - s.steps).toNat s = .error e s') :
    run maxSteps s = .error e s' := by
  simp only [run, get_bind]
  exact bind_error h

/-- `run` comes to an end: its condition fails, or a step raises. -/
theorem run_cases (maxSteps : ℤ) (s : RV32I) : ∃ n s', Ran maxSteps s s' n ∧
    (¬ Goes maxSteps s' ∧ run maxSteps s = .ok s'.outcome s' ∨
      ∃ e, Goes maxSteps s' ∧ step s' = .error e s' ∧ run maxSteps s = .error e s') := by
  have hle : maxSteps - s.steps ≤ ((maxSteps - s.steps).toNat : ℤ) := Int.self_le_toNat _
  obtain ⟨n, t, hn, ⟨hg, hr⟩ | ⟨e, hg, hs, hr⟩⟩ := runLoop_cases hle
  · exact ⟨n, t, ran_of_rounds hn, .inl ⟨hg, run_of_loop hr⟩⟩
  · exact ⟨n, t, ran_of_rounds hn, .inr ⟨e, hg, hs, run_of_loop_error hr⟩⟩

theorem Ran.unique {t : RV32I} {m : ℕ} (h : Ran maxSteps s s' n) (hs : ∀ v, ¬ Going maxSteps s' v)
    (h' : Ran maxSteps s t m) (ht : ∀ v, ¬ Going maxSteps t v) : s' = t := by
  have hR : ∀ a b c, Going maxSteps a b → Going maxSteps a c → b = c :=
    fun _ _ _ h₁ h₂ => h₁.unique h₂
  exact (h.rounds.stuck_unique hR hs h'.rounds ht).2

theorem run_of_ran (h : Ran maxSteps s s' n) (hg : ¬ Goes maxSteps s') :
    run maxSteps s = .ok s'.outcome s' := by
  obtain ⟨m, t, hm, ⟨hg', hr⟩ | ⟨e, hg', hs, -⟩⟩ := run_cases maxSteps s
  · rw [h.unique (fun _ => not_going_of_not_goes hg) hm fun _ => not_going_of_not_goes hg', hr]
  · obtain rfl := h.unique (fun _ => not_going_of_not_goes hg) hm fun _ => not_going_of_error hs
    exact (hg hg').elim

theorem run_of_ran_error (h : Ran maxSteps s s' n) (hs : step s' = .error e s')
    (hg : Goes maxSteps s') : run maxSteps s = .error e s' := by
  obtain ⟨m, t, hm, ⟨hg', -⟩ | ⟨e', -, hs', hr⟩⟩ := run_cases maxSteps s
  · obtain rfl := h.unique (fun _ => not_going_of_error hs) hm fun _ => not_going_of_not_goes hg'
    exact (hg' hg).elim
  · obtain rfl := h.unique (fun _ => not_going_of_error hs) hm fun _ => not_going_of_error hs'
    rw [hs] at hs'
    cases hs'
    exact hr

/-- One step of the emulator that returns. -/
def Next (s s' : RV32I) : Prop := ∃ tr, step s = .ok tr s'

theorem next_steps (h : Steps Next n s s') : s'.steps = s.steps + n := by
  induction h with
  | refl => rfl
  | head hd _ ih =>
    obtain ⟨tr, ht⟩ := hd
    rw [ih, step_steps ht]
    omega

/-- Steps up to the limit are rounds of `run`. -/
theorem going_of_next {maxSteps : ℤ} (h : Steps Next n s s') (hl : s.steps + n ≤ maxSteps) :
    Steps (Going maxSteps) n s s' := by
  induction h with
  | refl s => exact .refl s
  | @head n s t u hd ht ih =>
    obtain ⟨tr, htr⟩ := hd
    obtain ⟨_, _, hst⟩ := step_eq_ok htr
    have hs := step_steps htr
    exact .head ⟨hst.running, by omega, tr, htr⟩ (ih (by push_cast at hl; omega))

/-- What `run` comes to, for every limit and from every state: it makes as many steps as the limit
allows, and stops early only at a halt, or in front of an instruction that traps, in the state
before it. -/
structure RunExact (maxSteps : ℤ) (s : RV32I) : Prop where
  returns : ∀ r s', run maxSteps s = .ok r s' ↔
    (∃ n, Ran maxSteps s s' n) ∧ ¬ Goes maxSteps s' ∧ r = s'.outcome
  raises : ∀ e s', run maxSteps s = .error e s' ↔
    (∃ n, Ran maxSteps s s' n) ∧ Goes maxSteps s' ∧ step s' = .error e s'
  traps : ∀ e s', run maxSteps s = .error e s' → e.IsTrap

theorem run_exact (maxSteps : ℤ) (s : RV32I) : RunExact maxSteps s := by
  have raises : ∀ e s', run maxSteps s = .error e s' →
      (∃ n, Ran maxSteps s s' n) ∧ Goes maxSteps s' ∧ step s' = .error e s' := by
    intro e s' h
    obtain ⟨n, t, hn, ⟨-, hr⟩ | ⟨e', hg, hs, hr⟩⟩ := run_cases maxSteps s
    · rw [h] at hr
      cases hr
    · rw [h] at hr
      cases hr
      exact ⟨⟨n, hn⟩, hg, hs⟩
  constructor
  · intro r s'
    constructor
    · intro h
      obtain ⟨n, t, hn, ⟨hg, hr⟩ | ⟨e, -, -, hr⟩⟩ := run_cases maxSteps s
      · rw [h] at hr
        cases hr
        exact ⟨⟨n, hn⟩, hg, rfl⟩
      · rw [h] at hr
        cases hr
    · rintro ⟨⟨n, hn⟩, hg, rfl⟩
      exact run_of_ran hn hg
  · intro e s'
    constructor
    · exact raises e s'
    · rintro ⟨⟨n, hn⟩, hg, hs⟩
      exact run_of_ran_error hn hs hg
  · intro e s' h
    obtain ⟨-, hg, hs⟩ := raises e s' h
    exact step_raises hg.1 hs

theorem Going.mono {limit : ℤ} (hl : maxSteps ≤ limit) (h : Going maxSteps s s') :
    Going limit s s' := ⟨h.running, h.below.trans_le hl, h.step⟩

theorem going_mono {limit : ℤ} (hl : maxSteps ≤ limit)
    (h : Steps (Going maxSteps) n s s') : Steps (Going limit) n s s' := by
  induction h with
  | refl s => exact .refl s
  | head hd _ ih => exact .head (hd.mono hl) ih

/-- A run may be cut at any lower limit and taken up again. -/
theorem run_resume {limit : ℤ} (hl : maxSteps ≤ limit) (s : RV32I) :
    (do
      let _ ← run maxSteps
      run limit) s = run limit s := by
  obtain ⟨n, t, hn, ⟨-, hr⟩ | ⟨e, hg, hs, hr⟩⟩ := run_cases maxSteps s
  · rw [bind_ok hr]
    have hnt := going_mono hl hn.rounds
    obtain ⟨m, u, hm, ⟨hg', hr'⟩ | ⟨e, hg', hs', hr'⟩⟩ := run_cases limit t
    · rw [hr', run_of_ran (ran_of_rounds (hnt.trans hm.rounds)) hg']
    · rw [hr', run_of_ran_error (ran_of_rounds (hnt.trans hm.rounds)) hs' hg']
  · rw [bind_error hr]
    have hnt := going_mono hl hn.rounds
    exact (run_of_ran_error (ran_of_rounds hnt) hs ⟨hg.1, hg.2.trans_le hl⟩).symm

/-- `addi x1, x1, 1` and ECALL. -/
def countCpu : RV32I :=
  { RV32I.init 8 0 0x1000 false with mem := [0x93, 0x80, 0x10, 0x00, 0x73, 0x00, 0x00, 0x00] }

theorem run_resume_countCpu : (do
    let _ ← run 1
    run 5) countCpu = run 5 countCpu :=
  run_resume (by decide) _

end Loop
end RiscForge.Refmodel
