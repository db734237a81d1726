import RiscForge.Rtl.Top

/-! The five-stage core of `rtl/top_pipeline.sv` and its pipeline registers. -/
namespace RiscForge.Rtl

section HazardUnits

/-- `hazard_unit.sv`: a load in EX whose destination the instruction in ID reads. -/
def hazardUnit (exMemRead : Bool) (exRdIdx : BitVec 5) (idOpcode : Option Opcode)
    (idRs1Idx idRs2Idx : BitVec 5) : Bool :=
  let hitRs1 := readsRs1 idOpcode && exRdIdx = idRs1Idx
  let hitRs2 := readsRs2 idOpcode && exRdIdx = idRs2Idx
  exMemRead && exRdIdx ≠ 0#5 && (hitRs1 || hitRs2)

/-- The operand selects of `forwarding_unit.sv`. -/
inductive FwdSel
  | none | exMem | memWb
  deriving DecidableEq, Repr

/-- `pick` of `forwarding_unit.sv`: the younger producer, in EX/MEM, wins. -/
def forwardingPick (exMemRegWrite : Bool) (exMemRd : BitVec 5) (memWbRegWrite : Bool)
    (memWbRd : BitVec 5) (rs : BitVec 5) : FwdSel :=
  if exMemRegWrite && exMemRd ≠ 0#5 && exMemRd = rs then .exMem
  else if memWbRegWrite && memWbRd ≠ 0#5 && memWbRd = rs then .memWb
  else .none

end HazardUnits

section PipelineRegisters

structure IfId where
  pc : Word
  pc4 : Word
  inst : Word

/-- `addi x0, x0, 0`, the bubble of `if_id_reg.sv`. -/
def nopInst : Word := 0x00000013#32

def IfId.nop : IfId := ⟨0#32, 0#32, nopInst⟩

/-- `if_id_reg.sv`; a flush wins over `en`. -/
def IfId.edge (r : IfId) (rst en flush : Bool) (d : IfId) : IfId :=
  if rst then .nop else if flush then .nop else if en then d else r

structure IdEx where
  ctrl : Control
  pc : Word
  pc4 : Word
  rs1Val : Word
  rs2Val : Word
  imm : Word
  rs1Idx : BitVec 5
  rs2Idx : BitVec 5
  rdIdx : BitVec 5

def IdEx.zero : IdEx := ⟨bubble, 0#32, 0#32, 0#32, 0#32, 0#32, 0#5, 0#5, 0#5⟩

/-- `id_ex_reg.sv`; a flush wins over `en`. -/
def IdEx.edge (r : IdEx) (rst en flush : Bool) (d : IdEx) : IdEx :=
  if rst || flush then .zero else if en then d else r

structure ExMem where
  ctrl : Control
  aluY : Word
  rs2Val : Word
  rdIdx : BitVec 5
  pc4 : Word

def ExMem.zero : ExMem := ⟨bubble, 0#32, 0#32, 0#5, 0#32⟩

/-- `ex_mem_reg.sv`, whose `flush` is tied low. -/
def ExMem.edge (r : ExMem) (rst en : Bool) (d : ExMem) : ExMem :=
  if rst then .zero else if en then d else r

structure MemWb where
  ctrl : Control
  aluY : Word
  memRdata : Word
  rdIdx : BitVec 5
  pc4 : Word

def MemWb.zero : MemWb := ⟨bubble, 0#32, 0#32, 0#5, 0#32⟩

/-- `mem_wb_reg.sv`, whose `flush` is tied low. -/
def MemWb.edge (r : MemWb) (rst en : Bool) (d : MemWb) : MemWb :=
  if rst then .zero else if en then d else r

end PipelineRegisters

/-- The flip-flops and the data array of `top_pipeline`. -/
structure TopPipeline (p : Params) where
  ifPc : Word
  ifId : IfId
  idEx : IdEx
  exMem : ExMem
  memWb : MemWb
  exHc : HaltCause
  memHcCarried : HaltCause
  wbHc : HaltCause
  haltedQ : Bool
  tohostValue : Word
  xregs : XRegs
  dmem : DMem p.dmemIdxW

namespace TopPipeline
variable {p : Params} (s : TopPipeline p)

def halted : Bool := s.wbHc ≠ .none || s.haltedQ
def pipeEn : Bool := !s.halted
def haltCause : HaltCause := s.wbHc
def pcOut : Word := s.ifPc

section Wb

def wbData : Word :=
  match s.memWb.ctrl.wbSrc with
  | .alu => s.memWb.aluY
  | .mem => s.memWb.memRdata
  | .pc4 => s.memWb.pc4

def wbWe : Bool := s.memWb.ctrl.regWrite && !s.halted

end Wb

section Mem

def dmemIn : DMemIn where
  addr := s.exMem.aluY
  writeData := s.exMem.rs2Val
  memRead := s.exMem.ctrl.memRead
  memWrite := s.exMem.ctrl.memWrite && s.pipeEn
  memSize := s.exMem.ctrl.memSize
  memUnsigned := s.exMem.ctrl.memUnsigned

def memRdata : Word := s.dmemIn.readData p s.dmem
def memMisaligned : Bool := s.dmemIn.misaligned p
def tohostWe : Bool := s.dmemIn.tohostWe p
def tohostData : Word := s.dmemIn.writeData
def uartWe : Bool := s.dmemIn.uartWe p
def uartData : BitVec 8 := s.dmemIn.uartData

/-- What the MEM instruction will write back, a load's data included. -/
def memWbValue : Word :=
  match s.exMem.ctrl.wbSrc with
  | .mem => s.memRdata
  | .pc4 => s.exMem.pc4
  | .alu => s.exMem.aluY

def memHc : HaltCause :=
  if s.memMisaligned then .misaligned
  else if s.tohostWe then .tohost
  else s.memHcCarried

end Mem

section Ex

/-- The EX/MEM forward; for a load it would be the address. -/
def memFwdValue : Word :=
  match s.exMem.ctrl.wbSrc with
  | .pc4 => s.exMem.pc4
  | _ => s.exMem.aluY

def forward (rs : BitVec 5) : FwdSel :=
  forwardingPick s.exMem.ctrl.regWrite s.exMem.rdIdx s.memWb.ctrl.regWrite s.memWb.rdIdx rs

/-- The forwarding mux of one operand, with `v` the value read in ID. -/
def fwdOperand (rs : BitVec 5) (v : Word) : Word :=
  match s.forward rs with
  | .exMem => s.memFwdValue
  | .memWb => s.wbData
  | .none => v

def exRs1Fwd : Word := s.fwdOperand s.idEx.rs1Idx s.idEx.rs1Val
def exRs2Fwd : Word := s.fwdOperand s.idEx.rs2Idx s.idEx.rs2Val

def exAluA : Word := if s.idEx.ctrl.aluSrcA = .pc then s.idEx.pc else s.exRs1Fwd
def exAluB : Word := if s.idEx.ctrl.aluSrcB = .imm then s.idEx.imm else s.exRs2Fwd
def exAluY : Word := alu s.exAluA s.exAluB s.idEx.ctrl.aluOp

end Ex

section Id

def idInst : Word := s.ifId.inst
def idCtrl : Control := decoder s.idInst
def idImm : Word := immGen s.idInst

def idRs1Val : Word :=
  readPort true s.xregs s.wbWe s.memWb.rdIdx s.wbData (rs1Idx s.idInst)

def idRs2Val : Word :=
  readPort true s.xregs s.wbWe s.memWb.rdIdx s.wbData (rs2Idx s.idInst)

def idHc : HaltCause :=
  if s.idCtrl.illegal then .illegal
  else if isEcall s.idInst then .ecall
  else if isEbreak s.idInst then .ebreak
  else .none

/-- `mem_writes_rs1`, `mem_writes_rs2`. -/
def memWrites (rs : BitVec 5) : Bool :=
  s.exMem.ctrl.regWrite && s.exMem.rdIdx ≠ 0#5 && s.exMem.rdIdx = rs

def idRs1Cmp : Word := if s.memWrites (rs1Idx s.idInst) then s.memWbValue else s.idRs1Val
def idRs2Cmp : Word := if s.memWrites (rs2Idx s.idInst) then s.memWbValue else s.idRs2Val

def loadUseStall : Bool :=
  hazardUnit s.idEx.ctrl.memRead s.idEx.rdIdx (opcode s.idInst) (rs1Idx s.idInst) (rs2Idx s.idInst)

def idCtrlReadsRs1 : Bool := s.idCtrl.condBranch || s.idCtrl.isJalr
def idCtrlReadsRs2 : Bool := s.idCtrl.condBranch

def branchStall : Bool :=
  s.idEx.ctrl.regWrite && s.idEx.rdIdx ≠ 0#5 &&
    (s.idCtrlReadsRs1 && s.idEx.rdIdx = rs1Idx s.idInst ||
      s.idCtrlReadsRs2 && s.idEx.rdIdx = rs2Idx s.idInst)

def stall : Bool := s.loadUseStall || s.branchStall

def idTaken : Bool := branchUnit s.idCtrl.branchOp s.idRs1Cmp s.idRs2Cmp
def idJalrTarget : Word := (s.idRs1Cmp + s.idImm) &&& ~~~1#32
def idPcrelTarget : Word := s.ifId.pc + s.idImm
def idTarget : Word := if s.idCtrl.jalr then s.idJalrTarget else s.idPcrelTarget
def idRedirect : Bool := s.idTaken && !s.stall

end Id

section If

def frontEn : Bool := !s.halted && !s.stall
def ifPc4 : Word := s.ifPc + 4#32
def ifInst : Word := instrMemory p s.ifPc
def nextPc : Word := if s.idRedirect then s.idTarget else s.ifPc4

end If

/-- One rising edge of `clk`. -/
def edge (rst : Bool) : TopPipeline p where
  ifPc := if rst then p.pcReset else if s.frontEn then s.nextPc else s.ifPc
  ifId := s.ifId.edge rst s.frontEn s.idRedirect ⟨s.ifPc, s.ifPc4, s.ifInst⟩
  idEx := s.idEx.edge rst s.pipeEn s.stall
    ⟨s.idCtrl, s.ifId.pc, s.ifId.pc4, s.idRs1Val, s.idRs2Val, s.idImm,
      rs1Idx s.idInst, rs2Idx s.idInst, rdIdx s.idInst⟩
  exMem := s.exMem.edge rst s.pipeEn ⟨s.idEx.ctrl, s.exAluY, s.exRs2Fwd, s.idEx.rdIdx, s.idEx.pc4⟩
  memWb := s.memWb.edge rst s.pipeEn
    ⟨s.exMem.ctrl, s.exMem.aluY, s.memRdata, s.exMem.rdIdx, s.exMem.pc4⟩
  exHc := if rst then .none
    else if s.pipeEn then (if s.stall then .none else s.idHc) else s.exHc
  memHcCarried := if rst then .none else if s.pipeEn then s.exHc else s.memHcCarried
  wbHc := if rst then .none else if s.pipeEn then s.memHc else s.wbHc
  haltedQ := if rst then false else if s.halted then true else s.haltedQ
  tohostValue := if rst then 0#32
    else if s.tohostWe && !s.halted then s.tohostData else s.tohostValue
  xregs := regFileEdge rst s.xregs s.wbWe s.memWb.rdIdx s.wbData
  dmem := s.dmemIn.edge p rst s.dmem

def regWrites : List (BitVec 5 × Word) :=
  if s.wbWe && s.memWb.rdIdx ≠ 0#5 then [(s.memWb.rdIdx, s.wbData)] else []

def stores : List Store := s.dmemIn.stores p

abbrev clock : TopPipeline p := s.edge false

/-- The state a reset edge leaves. -/
def reset (p : Params) (dmem : DMem p.dmemIdxW) : TopPipeline p where
  ifPc := p.pcReset
  ifId := .nop
  idEx := .zero
  exMem := .zero
  memWb := .zero
  exHc := .none
  memHcCarried := .none
  wbHc := .none
  haltedQ := false
  tohostValue := 0#32
  xregs := fun _ => 0#32
  dmem := dmem

theorem edge_rst : s.edge true = reset p s.dmem := by
  simp [edge, reset, regFileEdge, DMemIn.edge, IfId.edge, IdEx.edge, ExMem.edge, MemWb.edge]

variable {s}

/-- What an edge does while the core runs. -/
theorem clock_of_running (hh : s.halted = false) :
    s.clock = {
      ifPc := if s.stall then s.ifPc else s.nextPc
      ifId := if s.idRedirect then .nop
        else if s.stall then s.ifId else ⟨s.ifPc, s.ifPc4, s.ifInst⟩
      idEx := if s.stall then .zero
        else ⟨s.idCtrl, s.ifId.pc, s.ifId.pc4, s.idRs1Val, s.idRs2Val, s.idImm,
          rs1Idx s.idInst, rs2Idx s.idInst, rdIdx s.idInst⟩
      exMem := ⟨s.idEx.ctrl, s.exAluY, s.exRs2Fwd, s.idEx.rdIdx, s.idEx.pc4⟩
      memWb := ⟨s.exMem.ctrl, s.exMem.aluY, s.memRdata, s.exMem.rdIdx, s.exMem.pc4⟩
      exHc := if s.stall then .none else s.idHc
      memHcCarried := s.exHc
      wbHc := s.memHc
      haltedQ := false
      tohostValue := if s.tohostWe then s.tohostData else s.tohostValue
      xregs := writePort s.xregs s.wbWe s.memWb.rdIdx s.wbData
      dmem := s.dmemIn.nextMem p s.dmem } := by
  have hq : s.haltedQ = false := by
    simp only [halted, Bool.or_eq_false_iff] at hh
    exact hh.2
  cases hs : s.stall <;>
    simp [clock, edge, regFileEdge, DMemIn.edge, IfId.edge, IdEx.edge, ExMem.edge, MemWb.edge,
      frontEn, pipeEn, hh, hs, hq]

/-- What an edge does once the core has halted: IF/ID and ID/EX may still be flushed, and
nothing else moves. -/
theorem clock_of_halted (hh : s.halted = true) :
    s.clock = { s with
      ifId := if s.idRedirect then .nop else s.ifId
      idEx := if s.stall then .zero else s.idEx
      haltedQ := true } := by
  have hd : s.dmemIn.memWrite = false := by simp [dmemIn, pipeEn, hh]
  have hw : s.wbWe = false := by simp [wbWe, hh]
  simp [clock, edge, regFileEdge, DMemIn.edge, IfId.edge, IdEx.edge, ExMem.edge, MemWb.edge,
    frontEn, pipeEn, hh, hw, writePort_of_not, DMemIn.nextMem_of_memWrite_false p _ hd]

end TopPipeline
end RiscForge.Rtl
