import RiscForge.Assembler.Correct

/-! A line is read as one statement only. -/
namespace RiscForge.Assembler

open Lib Rtl Isa

section Names
variable {name : String} {r r' : BitVec 5}

theorem abiNames_nodup : abiNames.Nodup := by decide

theorem abiNames_not_number :
    abiNames.all (fun name => name.toList.head? != some 'x') = true := by decide

theorem not_number {k : ℕ} (h : abiNames[k]? = some name) {ds : List Char} :
    name.toList ≠ 'x' :: ds := by
  intro hx
  have ha := List.all_eq_true.mp abiNames_not_number name (List.mem_of_getElem? h)
  rw [hx] at ha
  simp at ha

theorem fp_not_number {ds : List Char} : "fp".toList ≠ 'x' :: ds := by
  intro hx
  have hh : "fp".toList.head? = some 'x' := by
    rw [hx]
    rfl
  exact absurd hh (by decide)

theorem toNat_of_abi {k : ℕ} (hk : abiNames[k]? = some name) (h : Names name r) :
    r.toNat = k := by
  obtain ⟨hlt, -⟩ := List.getElem?_eq_some_iff.mp hk
  cases h with
  | abi h => exact ((List.getElem?_inj hlt abiNames_nodup).mp (hk.trans h.symm)).symm
  | fp => exact absurd (List.mem_of_getElem? hk) (by decide)
  | number hx => exact (not_number hk hx).elim

/-- A register name names one register. -/
theorem names_unique (h : Names name r) (h' : Names name r') : r = r' := by
  apply BitVec.eq_of_toNat_eq
  cases h with
  | abi h => exact (toNat_of_abi h h').symm
  | fp =>
    cases h' with
    | abi h' => exact toNat_of_abi h' .fp
    | fp => rfl
    | number hx => exact (fp_not_number hx).elim
  | number hx hd hr =>
    cases h' with
    | abi h' => exact toNat_of_abi h' (.number hx hd hr)
    | fp => exact (fp_not_number hx).elim
    | number hx' hd' hr' =>
      rw [hx] at hx'
      cases hx'
      rw [hr] at hr'
      exact Option.some.inj hr'

end Names

/-- The mnemonics of the statements, apart from their operands. -/
inductive Mnemonic
  | op (o : Op) | opImm (o : Op) | load (k : F3Load) | store (k : F3Store) | branch (c : F3Branch)
  | jal | jalr | lui | auipc | nop | mv | not | neg | j | jr | ret | beqz | bnez

/-- The mnemonic as it is written. -/
def Mnemonic.text : Mnemonic → Option String
  | .op o => some (opMnemonic o)
  | .opImm o => immMnemonic o
  | .load k => some (loadMnemonic k)
  | .store k => some (storeMnemonic k)
  | .branch c => some (branchMnemonic c)
  | .jal => some "jal"
  | .jalr => some "jalr"
  | .lui => some "lui"
  | .auipc => some "auipc"
  | .nop => some "nop"
  | .mv => some "mv"
  | .not => some "not"
  | .neg => some "neg"
  | .j => some "j"
  | .jr => some "jr"
  | .ret => some "ret"
  | .beqz => some "beqz"
  | .bnez => some "bnez"

def mnemonic : Stmt → Mnemonic
  | .op o .. => .op o
  | .opImm o .. => .opImm o
  | .load k .. => .load k
  | .store k .. => .store k
  | .branch c .. => .branch c
  | .jal .. => .jal
  | .jalr .. => .jalr
  | .lui .. => .lui
  | .auipc .. => .auipc
  | .nop => .nop
  | .mv .. => .mv
  | .not .. => .not
  | .neg .. => .neg
  | .j .. => .j
  | .jr .. => .jr
  | .ret => .ret
  | .beqz .. => .beqz
  | .bnez .. => .bnez

section Mnemonics

/-- The mnemonic that a text is. -/
def mnemonicOf (op : String) : Option Mnemonic :=
  match op with
  | "add" => some (.op .add)
  | "sub" => some (.op .sub)
  | "sll" => some (.op .sll)
  | "slt" => some (.op .slt)
  | "sltu" => some (.op .sltu)
  | "xor" => some (.op .xor)
  | "srl" => some (.op .srl)
  | "sra" => some (.op .sra)
  | "or" => some (.op .or)
  | "and" => some (.op .and)
  | "addi" => some (.opImm .add)
  | "slli" => some (.opImm .sll)
  | "slti" => some (.opImm .slt)
  | "sltiu" => some (.opImm .sltu)
  | "xori" => some (.opImm .xor)
  | "srli" => some (.opImm .srl)
  | "srai" => some (.opImm .sra)
  | "ori" => some (.opImm .or)
  | "andi" => some (.opImm .and)
  | "lb" => some (.load .lb)
  | "lh" => some (.load .lh)
  | "lw" => some (.load .lw)
  | "lbu" => some (.load .lbu)
  | "lhu" => some (.load .lhu)
  | "sb" => some (.store .sb)
  | "sh" => some (.store .sh)
  | "sw" => some (.store .sw)
  | "beq" => some (.branch .beq)
  | "bne" => some (.branch .bne)
  | "blt" => some (.branch .blt)
  | "bge" => some (.branch .bge)
  | "bltu" => some (.branch .bltu)
  | "bgeu" => some (.branch .bgeu)
  | "jal" => some .jal
  | "jalr" => some .jalr
  | "lui" => some .lui
  | "auipc" => some .auipc
  | "nop" => some .nop
  | "mv" => some .mv
  | "not" => some .not
  | "neg" => some .neg
  | "j" => some .j
  | "jr" => some .jr
  | "ret" => some .ret
  | "beqz" => some .beqz
  | "bnez" => some .bnez
  | _ => none

theorem mnemonicOf_text {k : Mnemonic} {op : String} (h : k.text = some op) :
    mnemonicOf op = some k := by
  cases k with
  | op o | opImm o => cases o <;> cases h <;> rfl
  | load k | store k | branch k => cases k <;> cases h <;> rfl
  | _ =>
    cases h
    rfl

end Mnemonics

section Operands
variable {py : Python} {syms : Syms} {ln : Line} {op : String} {st st' : Stmt}

/-- What the operands of a line are, given what it is read as. -/
def Operands (py : Python) (syms : Syms) (ln : Line) : Stmt → Prop
  | .op _ rd rs1 rs2 => ln.Register py 0 rd ∧ ln.Register py 1 rs1 ∧ ln.Register py 2 rs2
  | .opImm _ rd rs1 imm =>
    ln.Register py 0 rd ∧ ln.Register py 1 rs1 ∧ ln.value py syms 2 = .ok imm
  | .load _ r imm rs1 | .store _ r imm rs1 =>
    ln.Register py 0 r ∧ ln.value py syms 1 = .ok imm ∧ ln.Register py 2 rs1
  | .branch _ rs1 rs2 target =>
    ln.Register py 0 rs1 ∧ ln.Register py 1 rs2 ∧ ln.value py syms 2 = .ok target
  | .jal rd target =>
    ln.args.length = 2 ∧ ln.Register py 0 rd ∧ ln.value py syms 1 = .ok target ∨
      ln.args.length = 1 ∧ rd = 1#5 ∧ ln.value py syms 0 = .ok target
  | .jalr rd rs1 imm =>
    ln.args.length = 3 ∧ ln.Register py 0 rd ∧ ln.Register py 1 rs1 ∧
        ln.value py syms 2 = .ok imm ∨
      ln.args.length = 3 ∧ ln.Register py 0 rd ∧ ln.value py syms 1 = .ok imm ∧
        ln.Register py 2 rs1 ∧ (∀ r v, ln.reg py 1 = .ok r → ln.value py syms 2 ≠ .ok v) ∨
      ln.args.length = 1 ∧ rd = 1#5 ∧ ln.Register py 0 rs1 ∧ imm = 0
  | .lui rd imm | .auipc rd imm => ln.Register py 0 rd ∧ ln.value py syms 1 = .ok imm
  | .mv rd rs | .not rd rs | .neg rd rs => ln.Register py 0 rd ∧ ln.Register py 1 rs
  | .j target => ln.value py syms 0 = .ok target
  | .jr rs => ln.Register py 0 rs
  | .beqz rs target | .bnez rs target => ln.Register py 0 rs ∧ ln.value py syms 1 = .ok target
  | .nop | .ret => True

theorem Reads.text (h : Reads py syms ln op st) : (mnemonic st).text = some op := by
  cases h with
  | opImm ho => exact ho
  | _ => rfl

theorem Reads.operands (h : Reads py syms ln op st) : Operands py syms ln st := by
  cases h with
  | op _ h0 h1 h2 | opImm _ _ h0 h1 h2 | load _ h0 h1 h2 | store _ h0 h1 h2
  | branch _ h0 h1 h2 => exact ⟨h0, h1, h2⟩
  | jal hn h0 h1 => exact .inl ⟨hn, h0, h1⟩
  | jalRa hn h0 => exact .inr ⟨hn, rfl, h0⟩
  | jalr hn h0 h1 h2 => exact .inl ⟨hn, h0, h1, h2⟩
  | jalrDisp hn h0 h1 h2 hne => exact .inr (.inl ⟨hn, h0, h1, h2, hne⟩)
  | jalrRa hn h0 => exact .inr (.inr ⟨hn, rfl, h0, rfl⟩)
  | lui _ h0 h1 | auipc _ h0 h1 | mv _ h0 h1 | not _ h0 h1 | neg _ h0 h1 | beqz _ h0 h1
  | bnez _ h0 h1 => exact ⟨h0, h1⟩
  | j _ h0 | jr _ h0 => exact h0
  | nop | ret => trivial

theorem Line.register_unique {k : ℕ} {r r' : BitVec 5} (h : ln.Register py k r)
    (h' : ln.Register py k r') : r = r' := names_unique h h'

theorem Line.value_unique {k : ℕ} {v v' : ℤ} (h : ln.value py syms k = .ok v)
    (h' : ln.value py syms k = .ok v') : v = v' := by
  rw [h] at h'
  exact Except.ok.inj h'

/-- The assembler takes operand 1 for a register if it names one. Otherwise `jalr` has two
readings: `x` names `x0`, and so does `x` with thousands of zeros, but neither is taken. -/
def Line.Clear (py : Python) (ln : Line) : Prop :=
  ∀ r, ln.Register py 1 r → ∃ v, ln.reg py 1 = .ok v

theorem jalr_unique {rd rd' rs1 rs1' : BitVec 5} {imm imm' : ℤ} (hc : ln.Clear py)
    (h : Operands py syms ln (.jalr rd rs1 imm)) (h' : Operands py syms ln (.jalr rd' rs1' imm')) :
    Stmt.jalr rd rs1 imm = Stmt.jalr rd' rs1' imm' := by
  have hmix : ∀ {r : BitVec 5} {v : ℤ}, ln.Register py 1 r → ln.value py syms 2 = .ok v →
      ¬ ∀ r v, ln.reg py 1 = .ok r → ln.value py syms 2 ≠ .ok v := by
    intro r v hr hv hne
    obtain ⟨u, hu⟩ := hc r hr
    exact hne u v hu hv
  rcases h with ⟨hn, h0, h1, h2⟩ | ⟨hn, h0, h1, h2, hne⟩ | ⟨hn, rfl, h0, rfl⟩
  · rcases h' with ⟨-, h0', h1', h2'⟩ | ⟨-, -, -, -, hne⟩ | ⟨hn', -⟩
    · rw [ln.register_unique h0 h0', ln.register_unique h1 h1', ln.value_unique h2 h2']
    · exact (hmix h1 h2 hne).elim
    · omega
  · rcases h' with ⟨-, -, h1', h2'⟩ | ⟨-, h0', h1', h2', -⟩ | ⟨hn', -⟩
    · exact (hmix h1' h2' hne).elim
    · rw [ln.register_unique h0 h0', ln.value_unique h1 h1', ln.register_unique h2 h2']
    · omega
  · rcases h' with ⟨hn', -⟩ | ⟨hn', -⟩ | ⟨-, rfl, h0', rfl⟩
    · omega
    · omega
    · rw [ln.register_unique h0 h0']

theorem jal_unique {rd rd' : BitVec 5} {target target' : ℤ}
    (h : Operands py syms ln (.jal rd target)) (h' : Operands py syms ln (.jal rd' target')) :
    Stmt.jal rd target = Stmt.jal rd' target' := by
  rcases h with ⟨hn, h0, h1⟩ | ⟨hn, rfl, h0⟩
  · rcases h' with ⟨-, h0', h1'⟩ | ⟨hn', -⟩
    · rw [ln.register_unique h0 h0', ln.value_unique h1 h1']
    · omega
  · rcases h' with ⟨hn', -⟩ | ⟨-, rfl, h0'⟩
    · omega
    · rw [ln.value_unique h0 h0']

/-- With the same mnemonic, the operands determine the statement. -/
theorem operands_unique (hc : mnemonic st = .jalr → ln.Clear py) (hm : mnemonic st = mnemonic st')
    (h : Operands py syms ln st) (h' : Operands py syms ln st') : st = st' := by
  cases st with
  | op o rd rs1 rs2 =>
    cases st' <;> cases hm
    obtain ⟨h0, h1, h2⟩ := h
    obtain ⟨h0', h1', h2'⟩ := h'
    rw [ln.register_unique h0 h0', ln.register_unique h1 h1', ln.register_unique h2 h2']
  | opImm o rd rs1 imm =>
    cases st' <;> cases hm
    obtain ⟨h0, h1, h2⟩ := h
    obtain ⟨h0', h1', h2'⟩ := h'
    rw [ln.register_unique h0 h0', ln.register_unique h1 h1', ln.value_unique h2 h2']
  | load | store =>
    cases st' <;> cases hm
    obtain ⟨h0, h1, h2⟩ := h
    obtain ⟨h0', h1', h2'⟩ := h'
    rw [ln.register_unique h0 h0', ln.value_unique h1 h1', ln.register_unique h2 h2']
  | branch =>
    cases st' <;> cases hm
    obtain ⟨h0, h1, h2⟩ := h
    obtain ⟨h0', h1', h2'⟩ := h'
    rw [ln.register_unique h0 h0', ln.register_unique h1 h1', ln.value_unique h2 h2']
  | jal =>
    cases st' <;> cases hm
    exact jal_unique h h'
  | jalr =>
    cases st' <;> cases hm
    exact jalr_unique (hc rfl) h h'
  | lui | auipc | beqz | bnez =>
    cases st' <;> cases hm
    rw [ln.register_unique h.1 h'.1, ln.value_unique h.2 h'.2]
  | mv | not | neg =>
    cases st' <;> cases hm
    rw [ln.register_unique h.1 h'.1, ln.register_unique h.2 h'.2]
  | j =>
    cases st' <;> cases hm
    rw [ln.value_unique h h']
  | jr =>
    cases st' <;> cases hm
    rw [ln.register_unique h h']
  | nop | ret =>
    cases st' <;> cases hm
    rfl

theorem mem_oneWord_of_text {k : Mnemonic} (h : k.text = some op) : op ∈ oneWord := by
  cases k with
  | op o | opImm o => cases o <;> cases h <;> decide
  | load k | store k | branch k => cases k <;> cases h <;> decide
  | _ =>
    cases h
    decide

theorem Reads.mem_oneWord (h : Reads py syms ln op st) : op ∈ oneWord := mem_oneWord_of_text h.text

theorem Reads.mnemonic_eq (h : Reads py syms ln op st) : mnemonicOf op = some (mnemonic st) :=
  mnemonicOf_text h.text

theorem reads_unique (hc : op = "jalr" → ln.Clear py) (h : Reads py syms ln op st)
    (h' : Reads py syms ln op st') : st = st' := by
  refine operands_unique (fun hj => hc ?_) ?_ h.operands h'.operands
  · have ht := h.text
    rw [hj] at ht
    exact (Option.some.inj ht).symm
  · have hm := h.mnemonic_eq
    rw [h'.mnemonic_eq] at hm
    exact (Option.some.inj hm).symm

end Operands
end RiscForge.Assembler
