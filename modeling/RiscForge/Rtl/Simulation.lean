import RiscForge.Rtl.TopPipeline

/-! The simulation relation between the pipeline and the instructions the core executes. -/
namespace RiscForge.Rtl

open Lib

/-- The cause the decode stage can tell from the word alone. -/
def decodeCause (inst : Word) : HaltCause :=
  if (decoder inst).illegal then .illegal
  else if isEcall inst then .ecall
  else if isEbreak inst then .ebreak
  else .none

/-- Instruction `k` runs from architectural state `t k` to `t (k + 1)`. -/
structure Execution {p : Params} (t : ℕ → Top p) : Prop where
  step : ∀ k, t (k + 1) = (t k).next
  running : ∀ k, (t k).haltedQ = false

theorem execution_run {p : Params} {s : Top p} (h : s.haltedQ = false) :
    Execution (run Top.next s) where
  step _ := rfl
  running k := by cases k <;> simp [h]

/-- Which stages hold an instruction; the one in WB, or the next to reach it, is `base`. -/
structure Slots where
  base : ℕ
  wb : Bool
  mem : Bool
  ex : Bool
  id : Bool

namespace Slots
variable (g : Slots)

def kMem : ℕ := g.base + g.wb.toNat
def kEx : ℕ := g.kMem + g.mem.toNat
def kId : ℕ := g.kEx + g.ex.toNat

def next (stall redirect : Bool) : Slots where
  base := g.kMem
  wb := g.mem
  mem := g.ex
  ex := g.id && !stall
  id := if stall then g.id else !redirect

@[simp] theorem next_base (a b : Bool) : (g.next a b).base = g.kMem := rfl
@[simp] theorem next_wb (a b : Bool) : (g.next a b).wb = g.mem := rfl
@[simp] theorem next_mem (a b : Bool) : (g.next a b).mem = g.ex := rfl
@[simp] theorem next_ex (a b : Bool) : (g.next a b).ex = (g.id && !a) := rfl
@[simp] theorem next_id (a b : Bool) : (g.next a b).id = if a then g.id else !b := rfl
@[simp] theorem next_kMem (a b : Bool) : (g.next a b).kMem = g.kEx := rfl
@[simp] theorem next_kEx (a b : Bool) : (g.next a b).kEx = g.kId := rfl
theorem next_kId (a b : Bool) : (g.next a b).kId = g.kId + (g.id && !a).toNat := rfl

end Slots

section Stages
variable {p : Params}

/-- A bundle and destination that change nothing downstream. -/
structure Inert (c : Control) (rd : BitVec 5) (hc : HaltCause) : Prop where
  memRead : c.memRead = false
  memWrite : c.memWrite = false
  noWrite : c.regWrite = false ∨ rd = 0#5
  hc : hc = .none

/-- ID/EX holds the decode of the instruction that runs from `a`. -/
structure HoldsEx (r : IdEx) (hc : HaltCause) (a : Top p) : Prop where
  ctrl : r.ctrl = a.ctrl
  pc : r.pc = a.pc
  pc4 : r.pc4 = a.pcPlus4
  imm : r.imm = a.imm
  rs1Idx : r.rs1Idx = rs1Idx a.inst
  rs2Idx : r.rs2Idx = rs2Idx a.inst
  rdIdx : r.rdIdx = rdIdx a.inst
  hc : hc = decodeCause a.inst

/-- EX/MEM holds the result of the instruction that runs from `a`. The ALU output matters only
where it is written back or addresses memory: FENCE and SYSTEM words leave a stale one. -/
structure HoldsMem (r : ExMem) (hc : HaltCause) (a : Top p) : Prop where
  ctrl : r.ctrl = a.ctrl
  aluY : a.ctrl.active = true → r.aluY = a.aluY
  rs2Val : a.ctrl.memWrite = true → r.rs2Val = a.rs2Val
  rdIdx : r.rdIdx = rdIdx a.inst
  pc4 : r.pc4 = a.pcPlus4
  hc : hc = decodeCause a.inst

/-- MEM/WB holds the write of the instruction that runs from `a`. -/
structure HoldsWb (s : TopPipeline p) (a : Top p) : Prop where
  ctrl : s.memWb.ctrl = a.ctrl
  rdIdx : s.memWb.rdIdx = rdIdx a.inst
  pc4 : s.memWb.pc4 = a.pcPlus4
  wbData : a.ctrl.regWrite = true → s.wbData = a.wbData
  hc : s.wbHc = a.haltCause
  tohostValue : a.tohostWe = true → s.tohostValue = a.rs2Val

/-- The pipeline holds consecutive instructions of the execution `t`, those before the one in
WB have updated the registers, and those before the one in MEM the data memory. -/
structure Sim (t : ℕ → Top p) (s : TopPipeline p) (g : Slots) : Prop where
  haltedQ : s.haltedQ = false
  id : g.id = true → s.ifId = ⟨(t g.kId).pc, (t g.kId).pcPlus4, (t g.kId).inst⟩
  idBubble : g.id = false → s.ifId.inst = nopInst
  pc : s.ifPc = if g.id then (t g.kId).pcPlus4 else (t g.kId).pc
  ex : g.ex = true → HoldsEx s.idEx s.exHc (t g.kEx)
  exBubble : g.ex = false → Inert s.idEx.ctrl s.idEx.rdIdx s.exHc
  mem : g.mem = true → HoldsMem s.exMem s.memHcCarried (t g.kMem)
  memBubble : g.mem = false → Inert s.exMem.ctrl s.exMem.rdIdx s.memHcCarried
  wb : g.wb = true → HoldsWb s (t g.base)
  wbBubble : g.wb = false → Inert s.memWb.ctrl s.memWb.rdIdx s.wbHc
  xregs : s.xregs = (t g.base).xregs
  dmem : s.dmem = (t g.kMem).dmem
  rs1Val : s.idEx.rs1Val = s.xregs.get s.idEx.rs1Idx
  rs2Val : s.idEx.rs2Val = s.xregs.get s.idEx.rs2Idx
  loadUse : g.ex = true → hazardUnit s.exMem.ctrl.memRead s.exMem.rdIdx (opcode (t g.kEx).inst)
    s.idEx.rs1Idx s.idEx.rs2Idx = false

end Stages
end RiscForge.Rtl
