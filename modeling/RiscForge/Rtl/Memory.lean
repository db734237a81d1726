import RiscForge.Rtl.Units
import Mathlib.Logic.Function.Basic

/-! The storage modules: register file, instruction memory and data memory. -/
namespace RiscForge.Rtl

/-- The elaboration parameters the two cores share, with the instruction image. A depth is
given by its `IDX_W = $clog2(DEPTH_WORDS)`, so every depth is a power of two. -/
structure Params where
  pcReset : Word
  imemIdxW : ℕ
  dmemIdxW : ℕ
  tohostAddr : Word
  uartAddr : Word
  imem : BitVec imemIdxW → Word

/-- The default addresses of `top.sv`, with `2 ^ w` words in each memory and the image `ws`. -/
def Params.ofImage (w : ℕ) (ws : List Word) : Params where
  pcReset := 0x00000000#32
  imemIdxW := w
  dmemIdxW := w
  tohostAddr := 0x80001000#32
  uartAddr := 0xFFFF0000#32
  imem := fun i => ws.getD i.toNat 0#32

section RegFile

/-- The index range of `xregs [1:31]`; `x0` has no storage. -/
abbrev XIdx := {i : BitVec 5 // i ≠ 0#5}

abbrev XRegs := XIdx → Word

/-- A read port of `reg_file.sv`. -/
def readPort (writeFirst : Bool) (xregs : XRegs) (we : Bool) (ws : BitVec 5) (wd : Word)
    (rs : BitVec 5) : Word :=
  if h : rs = 0#5 then 0#32
  else if writeFirst && we && ws = rs then wd
  else xregs ⟨rs, h⟩

/-- The write port of `reg_file.sv`, at a clock edge with `rst` low. -/
def writePort (xregs : XRegs) (we : Bool) (ws : BitVec 5) (wd : Word) : XRegs :=
  if h : we = true ∧ ws ≠ 0#5 then Function.update xregs ⟨ws, h.2⟩ wd else xregs

def regFileEdge (rst : Bool) (xregs : XRegs) (we : Bool) (ws : BitVec 5) (wd : Word) : XRegs :=
  if rst then fun _ => 0#32 else writePort xregs we ws wd

/-- The architectural value of a register. -/
def XRegs.get (xregs : XRegs) (rs : BitVec 5) : Word :=
  if h : rs = 0#5 then 0#32 else xregs ⟨rs, h⟩

@[simp] theorem readPort_false (xregs : XRegs) (we : Bool) (ws : BitVec 5) (wd : Word)
    (rs : BitVec 5) : readPort false xregs we ws wd rs = xregs.get rs := by
  simp [readPort, XRegs.get]

theorem XRegs.get_zero (xregs : XRegs) : xregs.get 0#5 = 0#32 := by simp [XRegs.get]

theorem XRegs.get_of_ne (xregs : XRegs) {r : BitVec 5} (h : r ≠ 0#5) :
    xregs.get r = xregs ⟨r, h⟩ := by
  simp [XRegs.get, h]

theorem XRegs.ext_get {x y : XRegs} (h : ∀ r, x.get r = y.get r) : x = y := by
  funext i
  have hi := h i.1
  rwa [x.get_of_ne i.2, y.get_of_ne i.2] at hi

theorem writePort_of_not {xregs : XRegs} {we : Bool} {ws : BitVec 5} {wd : Word}
    (h : we = false ∨ ws = 0#5) : writePort xregs we ws wd = xregs := by
  unfold writePort
  rcases h with h | h <;> simp [h]

/-- Write-first: a read in the cycle of a write already sees the register after it. -/
theorem get_writePort (xregs : XRegs) (we : Bool) (ws : BitVec 5) (wd : Word) (rs : BitVec 5) :
    (writePort xregs we ws wd).get rs = readPort true xregs we ws wd rs := by
  unfold readPort
  split
  case isTrue hr => rw [hr, XRegs.get_zero]
  case isFalse hr =>
    rw [XRegs.get_of_ne _ hr]
    by_cases hw : we = true ∧ ws ≠ 0#5
    · rw [writePort, dif_pos hw]
      by_cases he : ws = rs
      · subst he
        simp [hw.1]
      · have hne : (⟨rs, hr⟩ : XIdx) ≠ ⟨ws, hw.2⟩ := fun h => he (congrArg Subtype.val h).symm
        simp [Function.update_of_ne hne, he]
    · rw [writePort, dif_neg hw]
      by_cases he : ws = rs
      · subst he
        simp_all
      · simp [he]

end RegFile

section InstrMemory
variable (p : Params)

/-- `instr_memory.sv`: the address bits outside `[IDX_W+1:2]` are not used. -/
def instrMemory (addr : Word) : Word := p.imem (addr.extractLsb' 2 p.imemIdxW)

end InstrMemory

section DataMemory

abbrev DMem (w : ℕ) := BitVec w → Word

/-- The word with its bits from `lo` on replaced by `v`. -/
def setSlice (word : Word) (lo : ℕ) {len : ℕ} (v : BitVec len) : Word :=
  word &&& ~~~((BitVec.allOnes len).setWidth 32 <<< lo) ||| v.setWidth 32 <<< lo

/-- The request inputs of `data_memory.sv`. -/
structure DMemIn where
  addr : Word
  writeData : Word
  memRead : Bool
  memWrite : Bool
  memSize : MemSize
  memUnsigned : Bool

namespace DMemIn
variable (p : Params) (d : DMemIn)

def wordIdx : BitVec p.dmemIdxW := d.addr.extractLsb' 2 p.dmemIdxW
def byteOff : BitVec 2 := d.addr.extractLsb' 0 2
def isTohost : Bool := d.addr = p.tohostAddr
def isUart : Bool := d.addr = p.uartAddr
def isMmio : Bool := d.isTohost p || d.isUart p

def misaligned : Bool :=
  if d.memRead || d.memWrite then
    if d.isMmio p then false
    else match d.memSize with
      | .h => d.byteOff.getLsbD 0
      | .w => d.byteOff ≠ 0#2
      | .b => false
  else false

def selByte (word : Word) : BitVec 8 :=
  if d.byteOff = 0#2 then word.extractLsb' 0 8
  else if d.byteOff = 1#2 then word.extractLsb' 8 8
  else if d.byteOff = 2#2 then word.extractLsb' 16 8
  else word.extractLsb' 24 8

def selHalf (word : Word) : BitVec 16 :=
  if d.byteOff.getLsbD 1 then word.extractLsb' 16 16 else word.extractLsb' 0 16

def readData (mem : DMem p.dmemIdxW) : Word :=
  let word := mem (d.wordIdx p)
  if d.memRead then
    if d.isMmio p then 0#32
    else match d.memSize with
      | .b =>
        if d.memUnsigned then 0#24 ++ d.selByte word
        else ((d.selByte word).extractLsb' 7 1).replicate 24 ++ d.selByte word
      | .h =>
        if d.memUnsigned then 0#16 ++ d.selHalf word
        else ((d.selHalf word).extractLsb' 15 1).replicate 16 ++ d.selHalf word
      | .w => word
  else 0#32

def tohostWe : Bool := d.memWrite && d.isTohost p
def uartWe : Bool := d.memWrite && d.isUart p
def uartData : BitVec 8 := d.writeData.extractLsb' 0 8

/-- The addressed word with the stored bytes replaced. -/
def nextWord (word : Word) : Word :=
  let byte := d.writeData.extractLsb' 0 8
  let half := d.writeData.extractLsb' 0 16
  match d.memSize with
  | .b =>
    if d.byteOff = 0#2 then setSlice word 0 byte
    else if d.byteOff = 1#2 then setSlice word 8 byte
    else if d.byteOff = 2#2 then setSlice word 16 byte
    else setSlice word 24 byte
  | .h => if d.byteOff.getLsbD 1 then setSlice word 16 half else setSlice word 0 half
  | .w => d.writeData

/-- The store reaches the backing array: not MMIO and not misaligned. -/
def commits : Bool := d.memWrite && !d.isMmio p && !d.misaligned p

/-- The backing array after a clock edge with `rst` low. -/
def nextMem (mem : DMem p.dmemIdxW) : DMem p.dmemIdxW :=
  if d.commits p then Function.update mem (d.wordIdx p) (d.nextWord (mem (d.wordIdx p))) else mem

def edge (rst : Bool) (mem : DMem p.dmemIdxW) : DMem p.dmemIdxW :=
  if rst then mem else d.nextMem p mem

theorem nextMem_of_memWrite_false (h : d.memWrite = false) (mem : DMem p.dmemIdxW) :
    d.nextMem p mem = mem := by
  simp [nextMem, commits, h]

theorem nextMem_of_misaligned (h : d.misaligned p = true) (mem : DMem p.dmemIdxW) :
    d.nextMem p mem = mem := by
  simp [nextMem, commits, h]

theorem nextMem_of_tohostWe (h : d.tohostWe p = true) (mem : DMem p.dmemIdxW) :
    d.nextMem p mem = mem := by
  simp_all [nextMem, commits, isMmio, tohostWe]

/-- The read path looks at the address, the size and the sign, never at the store data. -/
theorem readData_congr {d e : DMemIn} (ha : d.addr = e.addr) (hr : d.memRead = e.memRead)
    (hs : d.memSize = e.memSize) (hu : d.memUnsigned = e.memUnsigned) (mem : DMem p.dmemIdxW) :
    d.readData p mem = e.readData p mem := by
  cases d
  cases e
  cases ha
  cases hr
  cases hs
  cases hu
  rfl

theorem misaligned_congr {d e : DMemIn} (ha : d.addr = e.addr) (hr : d.memRead = e.memRead)
    (hw : d.memWrite = e.memWrite) (hs : d.memSize = e.memSize) :
    d.misaligned p = e.misaligned p := by
  cases d
  cases e
  cases ha
  cases hr
  cases hw
  cases hs
  rfl

theorem misaligned_of_no_access (hr : d.memRead = false) (hw : d.memWrite = false) :
    d.misaligned p = false := by
  simp [misaligned, hr, hw]

theorem tohostWe_not_misaligned (h : d.tohostWe p = true) : d.misaligned p = false := by
  simp_all [misaligned, tohostWe, isMmio]

end DMemIn
end DataMemory

end RiscForge.Rtl
