import RiscForge.Lib.Effect
import RiscForge.Refmodel.Access
import RiscForge.Rtl.Lanes

/-! The word-array data memory as a refinement of the emulator's bytes, over runs of accesses. -/
namespace RiscForge.Lockstep

open Lib Rtl Refmodel

/-- A request that raises exactly one of the two strobes. -/
structure DAccess extends DMemIn where
  strobe : memWrite = !memRead

namespace DAccess
variable (p : Params) (d : DAccess)

/-- The same access as a method call on the emulator. A load returns its value. -/
def call : Emu (Option ℤ) :=
  if d.memRead then
    some <$> load d.addr.toNat d.memSize.bytes (!d.memUnsigned)
  else do
    store d.addr.toNat d.writeData.toNat d.memSize.bytes
    return none

/-- The trap that the emulator raises on a misaligned access. -/
def trapKind : TrapKind := if d.memRead then .misalignedLoad else .misalignedStore

/-- The address lies in the array and is no MMIO address of the RTL or of the emulator. -/
structure InArray (tohost : ℤ) : Prop where
  lt : d.addr.toNat < 4 * 2 ^ p.dmemIdxW
  mmio : d.isMmio p = false
  tohost : (d.addr.toNat : ℤ) ≠ tohost

end DAccess

section Call
variable {p : Params} {d : DAccess} {mem : DMem p.dmemIdxW} {s : RV32I}

/-- Corresponding contents: a byte array at address 0 that holds the words little-endian. -/
structure Flat (mem : DMem p.dmemIdxW) (s : RV32I) : Prop where
  base : s.memBase = 0
  agree : MemAgree mem s.mem

theorem Flat.inMem (h : Flat mem s) (hr : d.addr.toNat < 4 * 2 ^ p.dmemIdxW)
    (ha : d.addr.toNat % d.memSize.bytes = 0) : InMem s d.addr.toNat d.memSize.bytes := by
  have hl := h.agree.length
  have hb := h.base
  have hn : d.addr.toNat + d.memSize.bytes ≤ 4 * 2 ^ p.dmemIdxW := by
    rcases d.memSize.bytes_cases with hs | hs | hs <;> rw [hs] at ha ⊢ <;> omega
  exact ⟨by omega, by omega⟩

/-- The load mnemonic of a size and a signedness. -/
def loadOf : MemSize → Bool → F3Load
  | .b, u => if u then .lbu else .lb
  | .h, u => if u then .lhu else .lh
  | .w, _ => .lw

theorem loadMemSize_loadOf (m : MemSize) (u : Bool) : loadMemSize (loadOf m u) = m := by
  cases m <;> cases u <;> rfl

theorem loadSize_loadOf (m : MemSize) (u : Bool) : Isa.loadSize (loadOf m u) = m.bytes := by
  cases m <;> cases u <;> rfl

theorem load_loadOf (a : Word) (m : MemSize) (u : Bool) :
    load a.toNat m.bytes (!u) s =
      load a.toNat (Isa.loadSize (loadOf m u)) (loadSigned (loadOf m u)) s := by
  cases m with
  | w => cases u <;> simp [load, loadOf, MemSize.bytes, Isa.loadSize]
  | b | h => cases u <;> rfl

theorem readData_loadOf (hr : d.memRead = true) (hm : d.isMmio p = false) :
    d.readData p mem = Isa.loadValue (byteOf mem) (alignDown d.addr d.memSize.bytes)
      (loadOf d.memSize d.memUnsigned) := by
  let e : DMemIn := { d.toDMemIn with memUnsigned := loadUnsigned (loadOf d.memSize d.memUnsigned) }
  have he : d.readData p mem = e.readData p mem := by
    -- a word read does not look at the sign
    cases hs : d.memSize with
    | w => simp [DMemIn.readData, DMemIn.isMmio, DMemIn.isTohost, DMemIn.isUart, e, hs,
        DMemIn.wordIdx]
    | b | h =>
      refine DMemIn.readData_congr p (d := d.toDMemIn) (e := e) rfl rfl rfl ?_ mem
      cases hu : d.memUnsigned <;> simp [e, hs, hu, loadOf, loadUnsigned]
  have hl := readData_alignDown p (d := e) mem (loadOf d.memSize d.memUnsigned) hr hm
    (loadMemSize_loadOf _ _).symm rfl
  rw [he, hl, loadSize_loadOf]

/-- Both memories hold the same bytes under an aligned access. -/
theorem Flat.loadValue (h : Flat mem s) (hr : d.addr.toNat < 4 * 2 ^ p.dmemIdxW) {k : F3Load}
    (hk : Isa.loadSize k = d.memSize.bytes) (ha : d.addr.toNat % d.memSize.bytes = 0) :
    Isa.loadValue (byteOf mem) d.addr k = Isa.loadValue s.byte d.addr k := by
  refine Isa.loadValue_congr k fun j hj => ?_
  have hin := (h.inMem hr ha).2
  have ht := Isa.toNat_add_of_aligned (Isa.loadSize_cases k) (hk ▸ ha) hj
  rw [h.base, h.agree.length] at hin
  rw [h.agree.byteOf (by omega), RV32I.byte, h.base, Int.sub_zero, Int.toNat_natCast]

end Call

section Step
variable {p : Params} {d : DAccess} {mem : DMem p.dmemIdxW} {s : RV32I}

/-- What one access shows on the two sides, from `mem` and `s`. -/
structure Refines (d : DAccess) (mem : DMem p.dmemIdxW) (s : RV32I) : Prop where
  readData : ∀ v s', d.call s = .ok (some v) s' → ((d.readData p mem).toNat : ℤ) = v
  misaligned : d.misaligned p = true ↔
    ∃ t s', d.call s = .error (.trap t) s' ∧ t.kind = d.trapKind
  returns : d.misaligned p = false → ∃ v s', d.call s = .ok v s' ∧ v.isSome = d.memRead
  unchanged : d.misaligned p = true → d.nextMem p mem = mem ∧ stateAfter d.call s = s
  word : ∀ i : BitVec p.dmemIdxW,
    (d.nextMem p mem i).toNat = unpackFrom (stateAfter d.call s).mem (4 * i.toNat) 4

theorem call_load (hr : d.memRead = true) {v : ℤ} {s' : RV32I}
    (h : load d.addr.toNat d.memSize.bytes (!d.memUnsigned) s = .ok v s') :
    d.call s = .ok (some v) s' := by
  simp only [DAccess.call, hr, if_true]
  rw [map_eq_pure_bind, bind_ok h]
  rfl

theorem call_store (hr : d.memRead = false) {s' : RV32I}
    (h : store d.addr.toNat d.writeData.toNat d.memSize.bytes s = .ok () s') :
    d.call s = .ok none s' := by
  simp only [DAccess.call, hr, Bool.false_eq_true, if_false]
  rw [bind_ok h]
  rfl

theorem call_misaligned (hi : d.InArray p s.tohostAddr)
    (ha : d.addr.toNat % d.memSize.bytes ≠ 0) :
    ∃ t, d.call s = .error (.trap t) s ∧ t.kind = d.trapKind := by
  cases hr : d.memRead with
  | true =>
    obtain ⟨m, hm⟩ := load_misaligned (s := s) d.memSize.bytes_cases ha (!d.memUnsigned)
    refine ⟨⟨.misalignedLoad, s.pc, m⟩, ?_, by simp [DAccess.trapKind, hr]⟩
    simp only [DAccess.call, hr, if_true]
    rw [map_eq_pure_bind, bind_error hm]
  | false =>
    obtain ⟨m, hm⟩ := store_misaligned (s := s) (v := d.writeData) d.memSize.bytes_cases hi.tohost ha
    refine ⟨⟨.misalignedStore, s.pc, m⟩, ?_, by simp [DAccess.trapKind, hr]⟩
    simp only [DAccess.call, hr, Bool.false_eq_true, if_false]
    rw [bind_error hm]

theorem misaligned_iff_mod (hi : d.InArray p s.tohostAddr) :
    d.misaligned p = true ↔ d.addr.toNat % d.memSize.bytes ≠ 0 := by
  refine misaligned_iff p ?_ hi.mmio
  rw [d.strobe]
  cases d.memRead <;> simp

/-- An aligned access returns, and keeps the contents in correspondence. -/
theorem call_aligned (h : Flat mem s) (hi : d.InArray p s.tohostAddr)
    (ha : d.addr.toNat % d.memSize.bytes = 0) :
    ∃ v bytes, d.call s = .ok v { s with mem := bytes } ∧ v.isSome = d.memRead ∧
      (∀ r, v = some r → ((d.readData p mem).toNat : ℤ) = r) ∧
      MemAgree (d.nextMem p mem) bytes := by
  have hin := h.inMem hi.lt ha
  cases hr : d.memRead with
  | true =>
    have hk := loadSize_loadOf d.memSize d.memUnsigned
    have hv := h.loadValue hi.lt hk ha
    have hl := load_ok (s := s) (loadOf d.memSize d.memUnsigned) (hk ▸ ha) (hk ▸ hin)
    rw [← load_loadOf, ← hv] at hl
    refine ⟨_, s.mem, call_load hr hl, rfl, ?_, ?_⟩
    · rintro _ ⟨⟩
      rw [readData_loadOf hr hi.mmio, alignDown_of_aligned ha]
    · rw [DMemIn.nextMem_of_memWrite_false p d.toDMemIn (by simp [d.strobe, hr])]
      exact h.agree
  | false =>
    have hs := store_ok (v := d.writeData) d.memSize.bytes_cases hi.tohost ha hin
    refine ⟨none, _, call_store hr hs, rfl, nofun, ?_⟩
    have hm := h.agree.nextMem p (by simp [d.strobe, hr]) hi.mmio ha hi.lt
    rw [RV32I.storeMem, h.base, Int.sub_zero, Int.toNat_natCast]
    exact hm

theorem refines_step (h : Flat mem s) (hi : d.InArray p s.tohostAddr) : Refines d mem s := by
  have hmis := misaligned_iff_mod hi
  by_cases ha : d.addr.toNat % d.memSize.bytes = 0
  · obtain ⟨v, bytes, hc, hv, hval, hagree⟩ := call_aligned h hi ha
    have hno : ¬ d.misaligned p = true := fun hm => hmis.mp hm ha
    refine ⟨?_, ⟨fun hm => (hno hm).elim, ?_⟩, fun _ => ⟨v, _, hc, hv⟩,
      fun hm => (hno hm).elim, ?_⟩
    · intro r s' hr
      rw [hc] at hr
      cases hr
      exact hval r rfl
    · rintro ⟨t, s', hr, -⟩
      rw [hc] at hr
      cases hr
    · rw [stateAfter_ok hc]
      exact hagree.word
  · obtain ⟨t, hc, hk⟩ := call_misaligned hi ha
    have hyes := hmis.mpr ha
    have hnext := DMemIn.nextMem_of_misaligned p d.toDMemIn hyes mem
    refine ⟨?_, ⟨fun _ => ⟨t, s, hc, hk⟩, fun _ => hyes⟩, fun hm => ?_,
      fun _ => ⟨hnext, stateAfter_error hc⟩, ?_⟩
    · intro v s' hr
      rw [hc] at hr
      cases hr
    · rw [hyes] at hm
      cases hm
    · rw [stateAfter_error hc, hnext]
      exact h.agree.word

theorem flat_step (h : Flat mem s) (hi : d.InArray p s.tohostAddr) :
    Flat (d.nextMem p mem) (stateAfter d.call s) ∧
      (stateAfter d.call s).tohostAddr = s.tohostAddr := by
  by_cases ha : d.addr.toNat % d.memSize.bytes = 0
  · obtain ⟨v, bytes, hc, -, -, hagree⟩ := call_aligned h hi ha
    rw [stateAfter_ok hc]
    exact ⟨⟨h.base, hagree⟩, rfl⟩
  · obtain ⟨t, hc, -⟩ := call_misaligned hi ha
    rw [stateAfter_error hc, DMemIn.nextMem_of_misaligned p d.toDMemIn ((misaligned_iff_mod hi).mpr ha)]
    exact ⟨h, rfl⟩

end Step

section Sequence
variable (p : Params) {ds before after : List DAccess} {d : DAccess} {mem : DMem p.dmemIdxW}
  {s : RV32I}

/-- The array after a clock edge for each access. -/
def arrayAfter (mem : DMem p.dmemIdxW) (ds : List DAccess) : DMem p.dmemIdxW :=
  ds.foldl (fun m d => d.nextMem p m) mem

/-- The emulator after the same calls; a trap is caught and the next call is made. -/
def callsAfter (s : RV32I) (ds : List DAccess) : RV32I :=
  ds.foldl (fun s d => stateAfter d.call s) s

theorem flat_run (h : Flat mem s) (hi : ∀ d ∈ ds, d.InArray p s.tohostAddr) :
    Flat (arrayAfter p mem ds) (callsAfter s ds) ∧
      (callsAfter s ds).tohostAddr = s.tohostAddr := by
  induction ds generalizing mem s with
  | nil => exact ⟨h, rfl⟩
  | cons d ds ih =>
    obtain ⟨hf, ht⟩ := flat_step h (hi d List.mem_cons_self)
    obtain ⟨hfs, hts⟩ := ih hf (fun e he => ht.symm ▸ hi e (List.mem_cons_of_mem d he))
    exact ⟨hfs, hts.trans ht⟩

/-- Each access of a sequence shows the same on both sides, whatever came before it. -/
theorem data_memory_refines (h : Flat mem s) (hi : ∀ d ∈ ds, d.InArray p s.tohostAddr)
    (hd : ds = before ++ d :: after) :
    Refines d (arrayAfter p mem before) (callsAfter s before) := by
  subst hd
  have hbefore : ∀ e ∈ before, e.InArray p s.tohostAddr :=
    fun e he => hi e (List.mem_append_left _ he)
  obtain ⟨hf, ht⟩ := flat_run p h hbefore
  exact refines_step hf (ht.symm ▸ hi d (List.mem_append_right _ List.mem_cons_self))

/-- A store, a misaligned store over it and a load of the upper half, in two words of zeros. -/
def storeLoad : List DAccess :=
  [⟨⟨4#32, 0x80FF0201#32, false, true, .w, false⟩, rfl⟩,
    ⟨⟨5#32, 0#32, false, true, .h, true⟩, rfl⟩,
    ⟨⟨6#32, 0#32, true, false, .h, false⟩, rfl⟩]

theorem data_memory_refines_storeLoad :
    Refines (p := Params.ofImage 1 []) ⟨⟨6#32, 0#32, true, false, .h, false⟩, rfl⟩
      (arrayAfter (Params.ofImage 1 []) (fun _ => 0#32) (storeLoad.take 2))
      (callsAfter (RV32I.init 8 0 0x80001000 false) (storeLoad.take 2)) := by
  have hz : MemAgree (n := 1) (fun _ => 0#32) (RV32I.init 8 0 0x80001000 false).mem :=
    ⟨by decide, by decide⟩
  have hi : ∀ d ∈ storeLoad, d.InArray (Params.ofImage 1 []) 0x80001000 := by
    intro d hd
    simp only [storeLoad, List.mem_cons, List.not_mem_nil, or_false] at hd
    rcases hd with rfl | rfl | rfl <;> exact ⟨by decide, by decide, by decide⟩
  exact data_memory_refines (Params.ofImage 1 []) ⟨rfl, hz⟩ hi rfl

end Sequence
end RiscForge.Lockstep
