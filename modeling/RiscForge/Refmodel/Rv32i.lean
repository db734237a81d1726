import RiscForge.Lib.LittleEndian
import RiscForge.Lib.PyInt
import RiscForge.Refmodel.Encoding
import Mathlib.Logic.Function.Basic

/-! The reference emulator of `refmodel/rv32i_emu.py`, over unbounded integers. -/
namespace RiscForge.Refmodel

open Lib Rtl

def XLEN : ℕ := 32
def XMASK : ℤ := 1 <<< XLEN - 1

section Helpers
variable (x value inst : ℤ)

/-- Mask to 32 unsigned bits. -/
def u32 : ℤ := x &&& XMASK

/-- The low 32 bits as a signed two's-complement integer. -/
def s32 : ℤ :=
  let x := x &&& XMASK
  if x &&& 1 <<< (XLEN - 1) ≠ 0 then x - 1 <<< XLEN else x

/-- Sign-extend a `bits`-wide integer. -/
def sext (bits : ℕ) : ℤ :=
  let sign : ℤ := 1 <<< (bits - 1)
  let value := value &&& (1 <<< bits - 1)
  (value ^^^ sign) - sign

def immI : ℤ := sext (inst >>> 20 &&& 0xFFF) 12

def immS : ℤ := sext ((inst >>> 25 &&& 0x7F) <<< 5 ||| (inst >>> 7 &&& 0x1F)) 12

def immB : ℤ :=
  sext ((inst >>> 31 &&& 0x1) <<< 12 ||| (inst >>> 25 &&& 0x3F) <<< 5 |||
    (inst >>> 8 &&& 0xF) <<< 1 ||| (inst >>> 7 &&& 0x1) <<< 11) 13

def immU : ℤ := inst &&& 0xFFFFF000

def immJ : ℤ :=
  sext ((inst >>> 31 &&& 0x1) <<< 20 ||| (inst >>> 21 &&& 0x3FF) <<< 1 |||
    (inst >>> 20 &&& 0x1) <<< 11 ||| (inst >>> 12 &&& 0xFF) <<< 12) 21

end Helpers

section Fields
variable (inst : ℤ)

def opcodeField : ℤ := inst &&& 0x7F
def rdField : ℤ := inst >>> 7 &&& 0x1F
def funct3Field : ℤ := inst >>> 12 &&& 0x7
def rs1Field : ℤ := inst >>> 15 &&& 0x1F
def rs2Field : ℤ := inst >>> 20 &&& 0x1F
def funct7Field : ℤ := inst >>> 25 &&& 0x7F
def funct12Field : ℤ := inst >>> 20 &&& 0xFFF

end Fields

/-- `StepTrace`: a register write is `(index, value)`, a store `(addr, value, size)`. -/
structure StepTrace where
  pc : ℤ
  inst : ℤ
  rdWrite : Option (ℤ × ℤ)
  memWrite : Option (ℤ × ℤ × ℤ)
  deriving DecidableEq, Repr

inductive TrapKind
  | illegal | misalignedFetch | misalignedLoad | misalignedStore | memRange
  deriving DecidableEq, Repr

structure Trap where
  kind : TrapKind
  pc : ℤ
  detail : String
  deriving DecidableEq, Repr

/-- What the emulator's methods raise. -/
inductive Raised
  | trap (t : Trap)
  | runtimeError (msg : String)
  | valueError (msg : String)
  deriving DecidableEq, Repr

inductive HaltReason
  | ecall | ebreak | tohostPass | tohostFail
  deriving DecidableEq, Repr

/-- One CPU's worth of state. -/
structure RV32I where
  regs : BitVec 5 → ℤ
  pc : ℤ
  mem : List (BitVec 8)
  memBase : ℤ
  tohostAddr : ℤ
  tohostValue : Option ℤ
  halted : Bool
  haltReason : Option HaltReason
  steps : ℕ
  csrs : ℤ → Option ℤ
  trapOnEcall : Bool

def csrMtvec : ℤ := 0x305
def csrMepc : ℤ := 0x341
def csrMcause : ℤ := 0x342
def csrMhartid : ℤ := 0xF14
def f12Mret : ℤ := 0x302
def f12Wfi : ℤ := 0x105
def causeBreakpoint : ℤ := 3
def causeEcallM : ℤ := 11

/-- `__init__`. -/
def RV32I.init (memSize : ℕ) (memBase tohostAddr : ℤ) (trapOnEcall : Bool) : RV32I where
  regs := fun _ => 0
  pc := memBase
  mem := List.replicate memSize 0#8
  memBase := memBase
  tohostAddr := tohostAddr
  tohostValue := none
  halted := false
  haltReason := none
  steps := 0
  csrs := fun csr => if csr = csrMhartid then some 0 else none
  trapOnEcall := trapOnEcall

/-- A method: it changes the state, and raises in whatever state it has reached. -/
abbrev Emu := EStateM Raised RV32I

def raiseTrap {α : Type} (kind : TrapKind) (pc : ℤ) (detail : String) : Emu α :=
  throw (.trap ⟨kind, pc, detail⟩)

section Memory

def memIndex (addr size : ℤ) : Emu ℕ := do
  let s ← get
  if addr < s.memBase ∨ addr + size > s.memBase + s.mem.length then
    raiseTrap .memRange s.pc s!"addr=0x{hexPad 8 addr} size={size}"
  else
    return (addr - s.memBase).toNat

def loadProgram (data : List (BitVec 8)) (base : Option ℤ) : Emu Unit := do
  let s ← get
  let base := base.getD s.memBase
  let offset := base - s.memBase
  let stop := offset + data.length
  if offset < 0 ∨ stop > s.mem.length then
    throw (.valueError s!"program does not fit: base=0x{hexPad 1 base}, len={data.length}, mem=[0x{hexPad 1 s.memBase}, 0x{hexPad 1 (s.memBase + s.mem.length)})")
  else
    set { s with mem := s.mem.take offset.toNat ++ data ++ s.mem.drop stop.toNat }

def fetch (addr : ℤ) : Emu ℤ := do
  let s ← get
  if addr &&& 0x3 ≠ 0 then
    raiseTrap .misalignedFetch s.pc s!"addr=0x{hexPad 8 addr}"
  else
    let i ← memIndex addr 4
    return unpackFrom s.mem i 4

def load (addr size : ℤ) (signed : Bool) : Emu ℤ := do
  let s ← get
  if (size = 2 ∨ size = 4) ∧ addr &&& (size - 1) ≠ 0 then
    raiseTrap .misalignedLoad s.pc s!"addr=0x{hexPad 8 addr} size={size}"
  else
    let i ← memIndex addr size
    if size = 1 then
      let v : ℤ := unpackFrom s.mem i 1
      return if signed then sext v 8 &&& XMASK else v
    else if size = 2 then
      let v : ℤ := unpackFrom s.mem i 2
      return if signed then sext v 16 &&& XMASK else v
    else
      return unpackFrom s.mem i 4

def store (addr value size : ℤ) : Emu Unit := do
  let s ← get
  if addr = s.tohostAddr then
    set { s with
      tohostValue := some (u32 value)
      halted := true
      haltReason := some (if u32 value = 1 then .tohostPass else .tohostFail) }
  else if (size = 2 ∨ size = 4) ∧ addr &&& (size - 1) ≠ 0 then
    raiseTrap .misalignedStore s.pc s!"addr=0x{hexPad 8 addr} size={size}"
  else
    let i ← memIndex addr size
    if size = 1 then
      set { s with mem := packInto s.mem i (value &&& 0xFF).toNat 1 }
    else if size = 2 then
      set { s with mem := packInto s.mem i (value &&& 0xFFFF).toNat 2 }
    else
      set { s with mem := packInto s.mem i (u32 value).toNat 4 }

end Memory

section Registers
variable (s : RV32I) (idx value : ℤ)

/-- A register index is a masked field of the word, so `regs` always has it. -/
def RV32I.r : ℤ := if idx = 0 then 0 else s.regs (BitVec.ofInt 5 idx)

def RV32I.wr : RV32I :=
  if idx ≠ 0 then { s with regs := Function.update s.regs (BitVec.ofInt 5 idx) (u32 value) }
  else s

end Registers

def wr (idx value : ℤ) : Emu Unit := modify fun s => s.wr idx value

section Execute

def branchTaken (f3 a b pc : ℤ) : Emu Bool :=
  match (IntEnum.ofValue f3 : Option F3Branch) with
  | some .beq => return a = b
  | some .bne => return a ≠ b
  | some .blt => return s32 a < s32 b
  | some .bge => return s32 a ≥ s32 b
  | some .bltu => return u32 a < u32 b
  | some .bgeu => return u32 a ≥ u32 b
  | none => raiseTrap .illegal pc s!"branch funct3={f3}"

/-- The jump target, checked before anything is written. -/
def jumpTarget (what : String) (target pc : ℤ) : Emu ℤ :=
  if target &&& 0x3 ≠ 0 then
    raiseTrap .misalignedFetch pc s!"{what} target=0x{hexPad 8 target}"
  else
    return target

def loadValue (f3 addr pc : ℤ) : Emu ℤ :=
  match (IntEnum.ofValue f3 : Option F3Load) with
  | some .lb => load addr 1 true
  | some .lh => load addr 2 true
  | some .lw => load addr 4 false
  | some .lbu => load addr 1 false
  | some .lhu => load addr 2 false
  | none => raiseTrap .illegal pc s!"load funct3={f3}"

def storeSize (f3 pc : ℤ) : Emu ℤ :=
  match (IntEnum.ofValue f3 : Option F3Store) with
  | some .sb => return 1
  | some .sh => return 2
  | some .sw => return 4
  | none => raiseTrap .illegal pc s!"store funct3={f3}"

def aluImm (f3 a imm inst pc : ℤ) : Emu ℤ :=
  match (IntEnum.ofValue f3 : Option F3Op) with
  | some .addSub => return u32 (a + imm)
  | some .slt => return if s32 a < s32 imm then 1 else 0
  | some .sltu => return if u32 a < u32 imm then 1 else 0
  | some .xor => return u32 (a ^^^ imm)
  | some .or => return u32 (a ||| imm)
  | some .and => return u32 (a &&& imm)
  | some .sll => return u32 (a <<< (imm &&& 0x1F).toNat)
  | some .sr =>
    let f7 := funct7Field inst
    let shamt := (imm &&& 0x1F).toNat
    if f7 = f7Default then return u32 a >>> shamt
    else if f7 = f7Alt then return u32 (s32 a >>> shamt)
    else raiseTrap .illegal pc s!"OP-IMM SR funct7=0x{hexPad 2 f7}"
  | none => raiseTrap .illegal pc s!"OP-IMM funct3={f3}"

def aluReg (f3 f7 a b pc : ℤ) : Emu ℤ :=
  match (IntEnum.ofValue f3 : Option F3Op) with
  | some .addSub =>
    if f7 = f7Default then return u32 (a + b)
    else if f7 = f7Alt then return u32 (a - b)
    else raiseTrap .illegal pc s!"OP ADD/SUB funct7=0x{hexPad 2 f7}"
  | some .sll => return u32 (a <<< (b &&& 0x1F).toNat)
  | some .slt => return if s32 a < s32 b then 1 else 0
  | some .sltu => return if u32 a < u32 b then 1 else 0
  | some .xor => return u32 (a ^^^ b)
  | some .sr =>
    let shamt := (b &&& 0x1F).toNat
    if f7 = f7Default then return u32 a >>> shamt
    else if f7 = f7Alt then return u32 (s32 a >>> shamt)
    else raiseTrap .illegal pc s!"OP SR funct7=0x{hexPad 2 f7}"
  | some .or => return u32 (a ||| b)
  | some .and => return u32 (a &&& b)
  | none => raiseTrap .illegal pc s!"OP funct3={f3}"

/-- `_take_trap`: enter the handler in direct mode. -/
def takeTrap (pc cause : ℤ) : Emu ℤ := do
  modify fun s => { s with csrs := Function.update s.csrs csrMepc (some (u32 pc)) }
  modify fun s => { s with csrs := Function.update s.csrs csrMcause (some (u32 cause)) }
  let s ← get
  return u32 ((s.csrs csrMtvec).getD 0 &&& ~~~0x3)

/-- The `funct3 = 0` half of SYSTEM. -/
def system (funct12 pc nextPc : ℤ) : Emu ℤ := do
  let s ← get
  if funct12 = f12Ecall then
    if s.trapOnEcall then takeTrap pc causeEcallM
    else
      set { s with halted := true, haltReason := some .ecall }
      return nextPc
  else if funct12 = f12Ebreak then
    if s.trapOnEcall then takeTrap pc causeBreakpoint
    else
      set { s with halted := true, haltReason := some .ebreak }
      return nextPc
  else if funct12 = f12Mret then
    return u32 ((s.csrs csrMepc).getD 0)
  else if funct12 = f12Wfi then
    return nextPc
  else
    raiseTrap .illegal pc s!"system funct12=0x{hexPad 3 funct12}"

/-- The CSR instructions; `op` is `01` for a write, `10` for set and `11` for clear. -/
def zicsr (csr funct3 rs1 rd : ℤ) : Emu Unit := do
  let s ← get
  let srcVal := if funct3 &&& 0b100 ≠ 0 then rs1 else s.r rs1
  let op := funct3 &&& 0b011
  let old := (s.csrs csr).getD 0
  if op = 0b01 then
    modify fun s => { s with csrs := Function.update s.csrs csr (some (u32 srcVal)) }
  else if srcVal ≠ 0 then
    if op = 0b10 then
      modify fun s => { s with csrs := Function.update s.csrs csr (some (u32 (old ||| srcVal))) }
    else if op = 0b11 then
      modify fun s =>
        { s with csrs := Function.update s.csrs csr (some (u32 (old &&& ~~~srcVal))) }
  wr rd old

/-- The opcode dispatch of `step`: the next pc, and the store to report. -/
def execute (pc inst : ℤ) : Emu (ℤ × Option (ℤ × ℤ × ℤ)) := do
  let s ← get
  let rd := rdField inst
  let funct3 := funct3Field inst
  let rs1 := rs1Field inst
  let rs2 := rs2Field inst
  let nextPc := u32 (pc + 4)
  match (IntEnum.ofValue (opcodeField inst) : Option Opcode) with
  | some .lui =>
    wr rd (immU inst)
    return (nextPc, none)
  | some .auipc =>
    wr rd (u32 (pc + immU inst))
    return (nextPc, none)
  | some .jal =>
    let target ← jumpTarget "JAL" (u32 (pc + immJ inst)) pc
    wr rd nextPc
    return (target, none)
  | some .jalr =>
    let target ← jumpTarget "JALR" (u32 (s.r rs1 + immI inst &&& ~~~1)) pc
    wr rd nextPc
    return (target, none)
  | some .branch =>
    let taken ← branchTaken funct3 (s.r rs1) (s.r rs2) pc
    if taken then
      let target ← jumpTarget "BR" (u32 (pc + immB inst)) pc
      return (target, none)
    else
      return (nextPc, none)
  | some .load =>
    let v ← loadValue funct3 (u32 (s.r rs1 + immI inst)) pc
    wr rd v
    return (nextPc, none)
  | some .store =>
    let addr := u32 (s.r rs1 + immS inst)
    let v := s.r rs2
    let size ← storeSize funct3 pc
    store addr v size
    return (nextPc, some (addr, u32 v, size))
  | some .imm =>
    let v ← aluImm funct3 (s.r rs1) (immI inst) inst pc
    wr rd v
    return (nextPc, none)
  | some .reg =>
    let v ← aluReg funct3 (funct7Field inst) (s.r rs1) (s.r rs2) pc
    wr rd v
    return (nextPc, none)
  | some .fence => return (nextPc, none)
  | some .system =>
    if funct3 = 0 then
      let target ← system (funct12Field inst) pc nextPc
      return (target, none)
    else if funct3 = 0b100 then
      raiseTrap .illegal pc "system funct3=0b100 reserved"
    else
      zicsr (funct12Field inst) funct3 rs1 rd
      return (nextPc, none)
  | none => raiseTrap .illegal pc s!"opcode=0x{hexPad 2 (opcodeField inst)}"

/-- The opcodes whose `rd` the trace reports. -/
def tracesRd : Option Opcode → Bool
  | some .lui | some .auipc | some .jal | some .jalr | some .load | some .imm | some .reg
  | some .system => true
  | _ => false

/-- One instruction. -/
def step : Emu StepTrace := do
  let s ← get
  if s.halted then
    throw (.runtimeError "step() called on halted CPU")
  else
    let pc := s.pc
    let inst ← fetch pc
    let (nextPc, memWrite) ← execute pc inst
    let s ← get
    let rd := rdField inst
    let rdWrite :=
      if rd ≠ 0 ∧ tracesRd (IntEnum.ofValue (opcodeField inst)) = true then
        some (rd, s.regs (BitVec.ofInt 5 rd))
      else none
    set { s with pc := nextPc, steps := s.steps + 1 }
    return { pc, inst, rdWrite, memWrite }

end Execute
end RiscForge.Refmodel
