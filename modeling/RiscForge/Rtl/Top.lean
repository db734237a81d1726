import RiscForge.Lib.Run
import RiscForge.Rtl.Decode
import RiscForge.Rtl.Memory

/-! The single-cycle core of `rtl/top.sv`. -/
namespace RiscForge.Rtl

open Lib

/-- A store seen outside the core: to the backing array, to the UART or to tohost. -/
structure Store where
  addr : Word
  size : MemSize
  data : Word
  deriving DecidableEq, Repr

/-- The store that a request makes, if it makes one. -/
def DMemIn.stores (p : Params) (d : DMemIn) : List Store :=
  if d.commits p || d.tohostWe p || d.uartWe p then [⟨d.addr, d.memSize, d.writeData⟩] else []

theorem DMemIn.stores_of_memWrite_false {p : Params} {d : DMemIn} (h : d.memWrite = false) :
    d.stores p = [] := by
  simp [stores, commits, tohostWe, uartWe, h]

/-- The flip-flops and the data array of `top`. -/
structure Top (p : Params) where
  pc : Word
  xregs : XRegs
  dmem : DMem p.dmemIdxW
  haltedQ : Bool

namespace Top
variable {p : Params} (s : Top p)

def pcPlus4 : Word := s.pc + 4#32
def inst : Word := instrMemory p s.pc
def ctrl : Control := decoder s.inst
def imm : Word := immGen s.inst

/-- `WRITE_FIRST = 0`: the read ports do not see the write port (`readPort_false`). -/
def rs1Val : Word := s.xregs.get (rs1Idx s.inst)
def rs2Val : Word := s.xregs.get (rs2Idx s.inst)

def aluA : Word := if s.ctrl.aluSrcA = .pc then s.pc else s.rs1Val
def aluB : Word := if s.ctrl.aluSrcB = .imm then s.imm else s.rs2Val
def aluY : Word := alu s.aluA s.aluB s.ctrl.aluOp
def branchTaken : Bool := branchUnit s.ctrl.branchOp s.rs1Val s.rs2Val

def dmemIn : DMemIn where
  addr := s.aluY
  writeData := s.rs2Val
  memRead := s.ctrl.memRead
  memWrite := s.ctrl.memWrite && !s.haltedQ
  memSize := s.ctrl.memSize
  memUnsigned := s.ctrl.memUnsigned

def dmemRdata : Word := s.dmemIn.readData p s.dmem
def dmemMisaligned : Bool := s.dmemIn.misaligned p
def tohostWe : Bool := s.dmemIn.tohostWe p
def tohostData : Word := s.dmemIn.writeData
def uartWe : Bool := s.dmemIn.uartWe p
def uartData : BitVec 8 := s.dmemIn.uartData

def wbData : Word :=
  match s.ctrl.wbSrc with
  | .alu => s.aluY
  | .mem => s.dmemRdata
  | .pc4 => s.pcPlus4

def regWe : Bool := s.ctrl.regWrite && !s.haltedQ

def nextPc : Word :=
  if s.branchTaken then
    if s.ctrl.jalr then s.aluY &&& ~~~1#32 else s.aluY
  else s.pcPlus4

def haltCause : HaltCause :=
  if !s.haltedQ then
    if s.ctrl.illegal then .illegal
    else if s.dmemMisaligned then .misaligned
    else if isEcall s.inst then .ecall
    else if isEbreak s.inst then .ebreak
    else if s.tohostWe then .tohost
    else .none
  else .none

/-- `halt_now` is raised in exactly the branches that set a cause. -/
def haltNow : Bool := s.haltCause ≠ .none

def halted : Bool := s.haltedQ || s.haltNow

/-- One rising edge of `clk`. -/
def edge (rst : Bool) : Top p where
  pc := if rst then p.pcReset else if !s.haltedQ then s.nextPc else s.pc
  xregs := regFileEdge rst s.xregs s.regWe (rdIdx s.inst) s.wbData
  dmem := s.dmemIn.edge p rst s.dmem
  haltedQ := if rst then false else if s.haltNow then true else s.haltedQ

/-- The register-file write, with `rd != x0`, of the current cycle. -/
def regWrites : List (BitVec 5 × Word) :=
  if s.regWe && rdIdx s.inst ≠ 0#5 then [(rdIdx s.inst, s.wbData)] else []

def stores : List Store := s.dmemIn.stores p

abbrev clock : Top p := s.edge false

/-- The state a reset edge leaves: the data array keeps its contents. -/
def reset (p : Params) (dmem : DMem p.dmemIdxW) : Top p where
  pc := p.pcReset
  xregs := fun _ => 0#32
  dmem := dmem
  haltedQ := false

theorem edge_rst : s.edge true = reset p s.dmem := by
  simp [edge, reset, regFileEdge, DMemIn.edge]

/-- A halted core is frozen. -/
theorem clock_of_haltedQ (h : s.haltedQ = true) : s.clock = s := by
  have hc : s.haltNow = false := by simp [haltNow, haltCause, h]
  have hd : s.dmemIn.memWrite = false := by simp [dmemIn, h]
  have hr : s.regWe = false := by simp [regWe, h]
  simp only [clock, edge, regFileEdge, DMemIn.edge, hc, h, hr,
    DMemIn.nextMem_of_memWrite_false p _ hd, writePort_of_not (Or.inl rfl)]
  cases s
  simp_all

section Free

/-- The core with its halt register held low: what each cycle does to the architectural state,
whether or not it also halts. -/
def next : Top p where
  pc := s.nextPc
  xregs := writePort s.xregs s.ctrl.regWrite (rdIdx s.inst) s.wbData
  dmem := s.dmemIn.nextMem p s.dmem
  haltedQ := false

@[simp] theorem next_haltedQ : s.next.haltedQ = false := rfl
@[simp] theorem next_pc : s.next.pc = s.nextPc := rfl
@[simp] theorem next_xregs :
    s.next.xregs = writePort s.xregs s.ctrl.regWrite (rdIdx s.inst) s.wbData := rfl
@[simp] theorem next_dmem : s.next.dmem = s.dmemIn.nextMem p s.dmem := rfl

variable {s}

theorem clock_of_running (hq : s.haltedQ = false) :
    s.clock = { s.next with haltedQ := s.haltNow } := by
  simp [clock, edge, next, regFileEdge, DMemIn.edge, regWe, hq]

theorem clock_of_not_halted (hq : s.haltedQ = false) (hn : s.haltNow = false) :
    s.clock = s.next := by
  rw [clock_of_running hq, hn]
  rfl

theorem not_isSystem_of_memWrite (h : s.ctrl.memWrite = true) : isSystem s.inst = false := by
  by_contra hs
  rw [Bool.not_eq_false] at hs
  rw [ctrl, decoder_isSystem _ hs] at h
  cases h

theorem memWrite_of_tohostWe (h : s.tohostWe = true) : s.ctrl.memWrite = true := by
  simp only [tohostWe, DMemIn.tohostWe, dmemIn, Bool.and_eq_true] at h
  exact h.1.1

theorem access_of_dmemMisaligned (h : s.dmemMisaligned = true) :
    s.ctrl.memRead = true ∨ s.ctrl.memWrite = true := by
  by_contra hn
  simp only [not_or, Bool.not_eq_true] at hn
  rw [dmemMisaligned, DMemIn.misaligned_of_no_access p _ hn.1 (by simp [dmemIn, hn.2])] at h
  cases h

theorem illegal_no_access (h : s.ctrl.illegal = true) :
    s.dmemMisaligned = false ∧ s.tohostWe = false := by
  have ha : s.ctrl.memRead = false ∧ s.ctrl.memWrite = false := by
    have hi := (decoder_illegal _ h).1
    simp only [Control.active, Bool.or_eq_false_iff] at hi
    exact ⟨hi.1.2, hi.2⟩
  constructor
  · by_contra hm
    rcases access_of_dmemMisaligned (Bool.not_eq_false _ ▸ hm) with hr | hw <;> simp_all
  · by_contra ht
    have hw := memWrite_of_tohostWe (Bool.not_eq_false _ ▸ ht)
    simp_all

/-- A halting instruction leaves the data array alone. -/
theorem next_dmem_of_haltNow (h : s.haltNow = true) : s.next.dmem = s.dmem := by
  have hc : s.haltCause ≠ .none := by simpa [haltNow] using h
  rw [next_dmem]
  by_cases hw : s.dmemIn.memWrite = true
  · have hmw : s.ctrl.memWrite = true := by
      simp only [dmemIn, Bool.and_eq_true] at hw
      exact hw.1
    by_cases hm : s.dmemMisaligned = true
    · exact DMemIn.nextMem_of_misaligned p _ hm _
    · by_cases ht : s.tohostWe = true
      · exact DMemIn.nextMem_of_tohostWe p _ ht _
      · have hi : s.ctrl.illegal = false := (decoder_memWrite _ hmw).2.2.2.1
        simp [haltCause, hi, hm, ht, isEcall, isEbreak, not_isSystem_of_memWrite hmw] at hc
  · exact DMemIn.nextMem_of_memWrite_false p _ (by simpa using hw) _

end Free
end Top
end RiscForge.Rtl
