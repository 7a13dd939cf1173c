import RiscvHart.Proofs.Hart.Step
import RiscvHart.Proofs.Isa.Selection
import RiscvHart.Proofs.Memory.Refinement

/-!
# Conformance of the instructions that compute or transfer control

The actions of the hart, on the operands that the table finds in a word, do what the instruction
set prescribes in integers. From this a whole step of the hart does, whatever state it starts in.
-/

namespace RiscvHart

namespace Isa

def effect (i : Instr) (w : Nat) (pc a b : Int) : Effect where
  next := BitVec.ofInt 64 (next i w pc a b)
  write := (written i w pc a b).map fun v => (rd w, BitVec.ofInt 64 v)

/-- The effect of an instruction word on what the registers hold. -/
def effectFrom (i : Instr) (c : Code) (pc : Word) (x : Registers) : Effect :=
  effect i c.toNat pc.toNat (x.read (rs1 c.toNat)).toNat (x.read (rs2 c.toNat)).toNat

theorem read_registers_effect (i : Instr) (w : Nat) (pc a b : Int) (x : Registers) (r : Reg) :
    ((effect i w pc a b).registers x).read r =
      match written i w pc a b with
      | some v => if r = rd w ∧ rd w ≠ 0 then BitVec.ofInt 64 v else x.read r
      | none => x.read r := by
  rw [Effect.read_registers, effect]
  cases written i w pc a b <;> rfl

/-- The format in which the table has the operands of an instruction that computes. The shifts of
32 bits by an immediate have their amount in the place of the second register. -/
def layout (i : Instr) : Format :=
  if i = .lui ∨ i = .auipc then .u
  else if i = .jal then .j
  else if i ∈ branches then .b
  else if i ∈ registerForms ∨ i = .slliw ∨ i = .srliw ∨ i = .sraiw then .r
  else .i

theorem format_of_mem_table :
    ∀ e ∈ (table : List Entry), e.instr ∈ computational → e.encoding.format = layout e.instr := by
  decide

variable {i : Instr} {c : Code} {pc : Word} {x : Registers} {f : Word → Word → Word}

theorem add_four_eq_ofInt (pc : Word) : pc + 4 = BitVec.ofInt 64 (pc.toNat + 4) := by
  rw [BitVec.ofInt_add, ← Word.eq_ofInt_toNat]
  rfl

theorem add_signExtend_eq_ofInt {n : Nat} (v : Word) (imm : BitVec n) :
    v + imm.signExtend 64 = BitVec.ofInt 64 (v.toNat + imm.toInt) := by
  rw [BitVec.ofInt_add, ← Word.eq_ofInt_toNat, Word.signExtend_eq_ofInt]

theorem registerForm_effect (hi : i ∈ registerForms)
    (hf : ∀ a b, f (BitVec.ofInt 64 a) (BitVec.ofInt 64 b) = BitVec.ofInt 64 (computed i a b)) :
    (Action.compute f).effect? (.r c.rs1 c.rs2 c.rd) pc x = some (effectFrom i c pc x) := by
  have hwritten : ∀ a b, written i c.toNat pc.toNat a b = some (computed i a b) := by
    intro a b
    fin_cases hi <;> rfl
  have hnext : ∀ a b, next i c.toNat pc.toNat a b = pc.toNat + 4 := by
    intro a b
    fin_cases hi <;> rfl
  rw [Action.effect?, effectFrom, effect, hwritten, hnext, Option.map_some, ← hf,
    ← Word.eq_ofInt_toNat, ← Word.eq_ofInt_toNat, ← add_four_eq_ofInt, c.rs1_eq, c.rs2_eq, c.rd_eq]

theorem written_of_immediateForm (hi : i ∈ immediateForms) (w : Nat) (pc a b : Int) :
    written i w pc a b = some (computed i a (immI w)) := by
  fin_cases hi <;> rfl

theorem next_of_immediateForm (hi : i ∈ immediateForms) (w : Nat) (pc a b : Int) :
    next i w pc a b = pc + 4 := by
  fin_cases hi <;> rfl

/-- What a function of a register and an immediate word computes, if the word stands for the
immediate as far as the function looks at it. -/
theorem immediate_effect (hi : i ∈ immediateForms) {y : Word}
    (hf : ∀ a b, f (BitVec.ofInt 64 a) (BitVec.ofInt 64 b) = BitVec.ofInt 64 (computed i a b))
    (hy : ∀ v, f v y = f v (BitVec.ofInt 64 (immI c.toNat))) :
    some (⟨pc + 4, some (c.rd, f (x.read c.rs1) y)⟩ : Effect) = some (effectFrom i c pc x) := by
  rw [effectFrom, effect, written_of_immediateForm hi, next_of_immediateForm hi, Option.map_some,
    ← hf, ← Word.eq_ofInt_toNat, ← add_four_eq_ofInt, hy, c.rs1_eq, c.rd_eq]

theorem immediateForm_effect (hi : i ∈ immediateForms)
    (hf : ∀ a b, f (BitVec.ofInt 64 a) (BitVec.ofInt 64 b) = BitVec.ofInt 64 (computed i a b)) :
    (Action.compute f).effect? (.i c.rs1 c.rd c.immI) pc x = some (effectFrom i c pc x) := by
  refine immediate_effect hi hf fun v => ?_
  rw [Word.signExtend_eq_ofInt, c.toInt_immI]

/-- The low bits of the immediate do not depend on how it is signed. -/
theorem immI_emod {k : Nat} (hk : k ∣ 2 ^ 12) :
    (immI c.toNat % k).toNat = bitsAt c.toNat 20 12 % k := by
  have hdvd : (k : Int) ∣ ((2 ^ 12 : Nat) : Int) := Int.natCast_dvd_natCast.mpr hk
  rw [immI, signed, ← Int.emod_emod_of_dvd _ hdvd, Int.bmod_emod, Int.emod_emod_of_dvd _ hdvd,
    ← Int.natCast_emod, Int.toNat_natCast]

theorem shift_effect (hi : i ∈ immediateForms)
    (hf : ∀ a b, f (BitVec.ofInt 64 a) (BitVec.ofInt 64 b) = BitVec.ofInt 64 (computed i a b))
    (hlow : ∀ v y y', y.toNat % 64 = y'.toNat % 64 → f v y = f v y') :
    (Action.shift f).effect? (.i c.rs1 c.rd c.immI) pc x = some (effectFrom i c pc x) := by
  refine immediate_effect hi hf fun v => hlow v _ _ ?_
  have himm : c.immI.toNat = bitsAt c.toNat 20 12 := c.toNat_extractLsb' 20 12
  rw [Alu.amount_ofInt (k := 64) _ (by decide), immI_emod (by decide), BitVec.toNat_ofNat, himm]
  omega

theorem shiftW_effect (hi : i ∈ immediateForms)
    (hf : ∀ a b, f (BitVec.ofInt 64 a) (BitVec.ofInt 64 b) = BitVec.ofInt 64 (computed i a b))
    (hlow : ∀ v y y', y.toNat % 32 = y'.toNat % 32 → f v y = f v y') :
    (Action.shiftW f).effect? (.r c.rs1 c.rs2 c.rd) pc x = some (effectFrom i c pc x) := by
  refine immediate_effect hi hf fun v => hlow v _ _ ?_
  have hamount : c.rs2.toNat = bitsAt c.toNat 20 5 := c.toNat_extractLsb' 20 5
  rw [Alu.amount_ofInt (k := 32) _ (by decide), immI_emod (by decide), BitVec.toNat_setWidth,
    hamount, bitsAt, bitsAt]
  omega

theorem branch_effect {taken' : Word → Word → Bool} (hi : i ∈ branches)
    (hf : ∀ a b, taken' (BitVec.ofInt 64 a) (BitVec.ofInt 64 b) = taken i a b) :
    (Action.branch taken').effect? (.b c.rs1 c.rs2 c.immB) pc x = some (effectFrom i c pc x) := by
  have hwritten : ∀ a b, written i c.toNat pc.toNat a b = none := by
    intro a b
    fin_cases hi <;> rfl
  have hnext : ∀ a b, next i c.toNat pc.toNat a b =
      if taken i a b then pc.toNat + immB c.toNat else pc.toNat + 4 := by
    intro a b
    fin_cases hi <;> rfl
  rw [Action.effect?, effectFrom, effect, hwritten, hnext, ← hf, ← Word.eq_ofInt_toNat,
    ← Word.eq_ofInt_toNat, c.rs1_eq, c.rs2_eq, add_signExtend_eq_ofInt, add_four_eq_ofInt,
    c.toInt_immB, Option.map_none]
  split <;> rfl

theorem lui_effect (a b : Int) :
    Action.upper.effect? (.u c.rd c.immU) pc x = some (effect .lui c.toNat pc.toNat a b) := by
  have hwritten : written .lui c.toNat pc.toNat a b = some (immU c.toNat) := rfl
  have hnext : next .lui c.toNat pc.toNat a b = pc.toNat + 4 := rfl
  rw [effect, hwritten, hnext, Option.map_some, ← add_four_eq_ofInt, ← c.toInt_immU,
    ← Word.signExtend_eq_ofInt, ← c.rd_eq, Action.effect?]

theorem auipc_effect (a b : Int) :
    Action.upperFromPc.effect? (.u c.rd c.immU) pc x =
      some (effect .auipc c.toNat pc.toNat a b) := by
  have hwritten : written .auipc c.toNat pc.toNat a b = some (pc.toNat + immU c.toNat) := rfl
  have hnext : next .auipc c.toNat pc.toNat a b = pc.toNat + 4 := rfl
  rw [effect, hwritten, hnext, Option.map_some, ← add_four_eq_ofInt, ← c.toInt_immU,
    ← add_signExtend_eq_ofInt, ← c.rd_eq, Action.effect?]

theorem jal_effect (a b : Int) :
    Action.jump.effect? (.j c.rd c.immJ) pc x = some (effect .jal c.toNat pc.toNat a b) := by
  have hwritten : written .jal c.toNat pc.toNat a b = some ((pc.toNat : Int) + 4) := rfl
  have hnext : next .jal c.toNat pc.toNat a b = pc.toNat + immJ c.toNat := by
    rw [next, if_pos rfl]
  rw [effect, hwritten, hnext, Option.map_some, ← add_four_eq_ofInt, ← c.toInt_immJ,
    ← add_signExtend_eq_ofInt, ← c.rd_eq, Action.effect?]

theorem jalr_effect (b : Int) :
    Action.jumpRegister.effect? (.i c.rs1 c.rd c.immI) pc x =
      some (effect .jalr c.toNat pc.toNat (x.read (rs1 c.toNat)).toNat b) := by
  have hwritten : ∀ a, written .jalr c.toNat pc.toNat a b = some ((pc.toNat : Int) + 4) :=
    fun _ => rfl
  have hnext : ∀ a, next .jalr c.toNat pc.toNat a b =
      a + immI c.toNat - (a + immI c.toNat) % 2 := fun _ => rfl
  rw [effect, hwritten, hnext, Option.map_some, ← add_four_eq_ofInt, ← Word.clearLowest_ofInt,
    ← c.toInt_immI, ← add_signExtend_eq_ofInt, ← c.rd_eq, ← c.rs1_eq, Action.effect?]

theorem bne_ofInt (a b : Int) :
    (BitVec.ofInt 64 a != BitVec.ofInt 64 b) = taken .bne a b := by
  rw [bne, Word.beq_ofInt]
  exact (decide_not ..).symm

theorem bge_ofInt (a b : Int) :
    (!Alu.lessSigned (BitVec.ofInt 64 a) (BitVec.ofInt 64 b)) = taken .bge a b := by
  rw [Alu.lessSigned, Word.slt_ofInt, ← decide_not]
  exact decide_eq_decide.mpr Int.not_lt

theorem bgeu_ofInt (a b : Int) :
    (!Alu.lessUnsigned (BitVec.ofInt 64 a) (BitVec.ofInt 64 b)) = taken .bgeu a b := by
  rw [Alu.lessUnsigned, Word.ult_ofInt, ← decide_not]
  exact decide_eq_decide.mpr Int.not_lt

theorem effect?_eq_effect (hi : i ∈ computational) :
    i.action.effect? ((layout i).extract c) pc x = some (effectFrom i c pc x) := by
  have hshift : ∀ (g : Word → Nat → Word) (v y y' : Word),
      y.toNat % 64 = y'.toNat % 64 → g v (y.toNat % 64) = g v (y'.toNat % 64) :=
    fun g v y y' h => by rw [h]
  have hshiftW : ∀ (g : Word → Nat → Word) (v y y' : Word),
      y.toNat % 32 = y'.toNat % 32 → g v (y.toNat % 32) = g v (y'.toNat % 32) :=
    fun g v y y' h => by rw [h]
  cases i
  case lui => exact lui_effect _ _
  case auipc => exact auipc_effect _ _
  case jal => exact jal_effect _ _
  case jalr => exact jalr_effect _
  case beq => exact branch_effect (by decide) Word.beq_ofInt
  case bne => exact branch_effect (by decide) bne_ofInt
  case blt => exact branch_effect (by decide) Word.slt_ofInt
  case bge => exact branch_effect (by decide) bge_ofInt
  case bltu => exact branch_effect (by decide) Word.ult_ofInt
  case bgeu => exact branch_effect (by decide) bgeu_ofInt
  case addi => exact immediateForm_effect (by decide) Alu.add_ofInt
  case slti => exact immediateForm_effect (by decide) Alu.setLessSigned_ofInt
  case sltiu => exact immediateForm_effect (by decide) Alu.setLessUnsigned_ofInt
  case xori => exact immediateForm_effect (by decide) Alu.xor_ofInt
  case ori => exact immediateForm_effect (by decide) Alu.or_ofInt
  case andi => exact immediateForm_effect (by decide) Alu.and_ofInt
  case slli =>
    exact shift_effect (by decide) Alu.shiftLeft_ofInt (hshift fun v n => v <<< n)
  case srli =>
    exact shift_effect (by decide) Alu.shiftRight_ofInt (hshift fun v n => v >>> n)
  case srai =>
    exact shift_effect (by decide) Alu.shiftRightSigned_ofInt (hshift fun v n => v.sshiftRight n)
  case addiw => exact immediateForm_effect (by decide) Alu.addW_ofInt
  case slliw =>
    exact shiftW_effect (by decide) Alu.shiftLeftW_ofInt
      (hshiftW fun v n => Alu.extendW (Alu.lowW v <<< n))
  case srliw =>
    exact shiftW_effect (by decide) Alu.shiftRightW_ofInt
      (hshiftW fun v n => Alu.extendW (Alu.lowW v >>> n))
  case sraiw =>
    exact shiftW_effect (by decide) Alu.shiftRightSignedW_ofInt
      (hshiftW fun v n => Alu.extendW ((Alu.lowW v).sshiftRight n))
  case add => exact registerForm_effect (by decide) Alu.add_ofInt
  case sub => exact registerForm_effect (by decide) Alu.sub_ofInt
  case sll => exact registerForm_effect (by decide) Alu.shiftLeft_ofInt
  case slt => exact registerForm_effect (by decide) Alu.setLessSigned_ofInt
  case sltu => exact registerForm_effect (by decide) Alu.setLessUnsigned_ofInt
  case xor => exact registerForm_effect (by decide) Alu.xor_ofInt
  case srl => exact registerForm_effect (by decide) Alu.shiftRight_ofInt
  case sra => exact registerForm_effect (by decide) Alu.shiftRightSigned_ofInt
  case or => exact registerForm_effect (by decide) Alu.or_ofInt
  case and => exact registerForm_effect (by decide) Alu.and_ofInt
  case addw => exact registerForm_effect (by decide) Alu.addW_ofInt
  case subw => exact registerForm_effect (by decide) Alu.subW_ofInt
  case sllw => exact registerForm_effect (by decide) Alu.shiftLeftW_ofInt
  case srlw => exact registerForm_effect (by decide) Alu.shiftRightW_ofInt
  case sraw => exact registerForm_effect (by decide) Alu.shiftRightSignedW_ofInt
  all_goals exact absurd hi (by decide)

end Isa

/-! ## Steps -/

namespace Machine

def prescribedNext (m : Machine) (i : Instr) (c : Code) : Int :=
  Isa.next i c.toNat m.pc.current.toNat (m.registers.read (Isa.rs1 c.toNat)).toNat
    (m.registers.read (Isa.rs2 c.toNat)).toNat

def prescribedResult (m : Machine) (i : Instr) (c : Code) : Option Int :=
  Isa.written i c.toNat m.pc.current.toNat (m.registers.read (Isa.rs1 c.toNat)).toNat
    (m.registers.read (Isa.rs2 c.toNat)).toNat

end Machine

namespace Platform

variable {σ : Type} {s : Platform σ} {c : Code} {index : Nat} {e : Entry}

/-- That a step has done what the instruction set prescribes for an instruction word, given what
the registers held before it. -/
structure Conforms (i : Instr) (index : Nat) (c : Code) (s s' : Platform σ) : Prop where
  /-- The word has the four bytes at the program counter, from the lowest up. -/
  word : ∃ bs, s.machine.memory.slice s.machine.pc.current 4 = .ok bs ∧
    c.toNat = LittleEndian.ofBytes bs
  encodes : Isa.Encodes i c.toNat
  next : s'.machine.pc.current = BitVec.ofInt 64 (s.machine.prescribedNext i c)
  destination : ∀ v, s.machine.prescribedResult i c = some v → Isa.rd c.toNat ≠ 0 →
    s'.machine.registers.read (Isa.rd c.toNat) = BitVec.ofInt 64 v
  kept : ∀ r, s.machine.prescribedResult i c = none ∨ r ≠ Isa.rd c.toNat →
    s'.machine.registers.read r = s.machine.registers.read r
  zero : s'.machine.registers.read 0 = 0
  /-- Nothing else changes but the log and what the machine notes of the step. -/
  others : s' = { s with machine := { s.machine with
    pc := ⟨s'.machine.pc.current, s.machine.pc.current⟩
    registers := s'.machine.registers
    last := some ⟨s.machine.pc.current, c, index, i⟩
    log := s'.machine.log } }

/-- A step on a word of an instruction that computes or transfers control succeeds and does what
the instruction set prescribes. -/
theorem step_conforms (hfetch : s.machine.memory.fetch s.machine.pc.current = .ok c)
    (hdecode : Decoder.select table c = .known index e) (hbase : e.instr ∈ Isa.computational) :
    ∃ s', step s = (.ok (), s') ∧ Conforms e.instr index c s s' := by
  have hmem : e ∈ (table : List Entry) := (Decoder.select_known hdecode).1
  have hoperands : (e.read c).operands = (Isa.layout e.instr).extract c := by
    show e.encoding.format.extract c = _
    rw [Isa.format_of_mem_table e hmem hbase]
  have heffect : e.instr.action.effect? (e.read c).operands s.machine.pc.current
      s.machine.registers = some (Isa.effectFrom e.instr c s.machine.pc.current
        s.machine.registers) := by
    rw [hoperands]
    exact Isa.effect?_eq_effect hbase
  obtain ⟨s', hstep, hnext, hwritten, hothers⟩ := step_of_effect? hfetch hdecode heffect
  have hread : ∀ r, s'.machine.registers.read r =
      match s.machine.prescribedResult e.instr c with
      | some v =>
        if r = Isa.rd c.toNat ∧ Isa.rd c.toNat ≠ 0 then BitVec.ofInt 64 v
        else s.machine.registers.read r
      | none => s.machine.registers.read r := by
    intro r
    rw [hwritten]
    exact Isa.read_registers_effect ..
  refine ⟨s', hstep, Memory.slice_of_fetch hfetch, Isa.encodes_of_select hdecode, hnext, ?_, ?_,
    s'.machine.registers.read_zero, hothers⟩
  · intro v hv hrd
    rw [hread, hv]
    exact if_pos ⟨rfl, hrd⟩
  · intro r hr
    rw [hread]
    cases hv : s.machine.prescribedResult e.instr c with
    | none => rfl
    | some v =>
      have hne : r ≠ Isa.rd c.toNat := hr.resolve_left (by rw [hv]; exact Option.some_ne_none v)
      exact if_neg fun h => hne h.1

def subtracting : Machine :=
  { MemoryRequest.performAll [.allocate 0x1000 16, .write .word 0x1000 0x406282B3]
      (.start (.empty 0x2000) 0x1000) with
    registers := Registers.write (Registers.write (.zero gpr) 5 7) 6 9 }

set_option maxRecDepth 2000 in
theorem step_conforms_sub :
    subtracting.memory.fetch subtracting.pc.current = .ok 0x406282B3 ∧
      Decoder.select table 0x406282B3 = .known 28 ⟨.sub, .r Opcode.op 0 0x20, 100⟩ ∧
      ∃ s', step ⟨subtracting, Kernel.start (Host.unsupported (σ := Unit)) () 0⟩ = (.ok (), s') ∧
        Conforms .sub 28 0x406282B3
          ⟨subtracting, Kernel.start (Host.unsupported (σ := Unit)) () 0⟩ s' ∧
        s'.machine.registers.read 5 = BitVec.ofInt 64 (7 - 9) := by
  have hfetch : subtracting.memory.fetch subtracting.pc.current = .ok 0x406282B3 := by
    decide +kernel
  have hdecode : Decoder.select table 0x406282B3 = .known 28 ⟨.sub, .r Opcode.op 0 0x20, 100⟩ := by
    rfl
  obtain ⟨s', hstep, hconforms⟩ := step_conforms
    (s := ⟨subtracting, Kernel.start (Host.unsupported (σ := Unit)) () 0⟩)
    hfetch hdecode (by decide)
  have hresult : subtracting.prescribedResult .sub 0x406282B3 = some (7 - 9) := by decide +kernel
  exact ⟨hfetch, hdecode, s', hstep, hconforms, hconforms.destination _ hresult (by decide)⟩

/-! ## Steps that only write one register -/

variable {s' : Platform σ} {i : Instr} {v : Int}

/-- That a step has gone on to the next instruction, and that the instruction word at which it
stood has put `v` into its destination and has changed nothing else. -/
structure Retires (i : Instr) (index : Nat) (c : Code) (v : Int) (s s' : Platform σ) : Prop where
  /-- The word has the four bytes at the program counter, from the lowest up. -/
  word : ∃ bs, s.machine.memory.slice s.machine.pc.current 4 = .ok bs ∧
    c.toNat = LittleEndian.ofBytes bs
  encodes : Isa.Encodes i c.toNat
  next : s'.machine.pc.current = BitVec.ofInt 64 (s.machine.pc.current.toNat + 4)
  destination : Isa.rd c.toNat ≠ 0 →
    s'.machine.registers.read (Isa.rd c.toNat) = BitVec.ofInt 64 v
  kept : ∀ r, r ≠ Isa.rd c.toNat → s'.machine.registers.read r = s.machine.registers.read r
  zero : s'.machine.registers.read 0 = 0
  /-- Nothing else changes but the log and what the machine notes of the step. -/
  others : s' = { s with machine := { s.machine with
    pc := ⟨s'.machine.pc.current, s.machine.pc.current⟩
    registers := s'.machine.registers
    last := some ⟨s.machine.pc.current, c, index, i⟩
    log := s'.machine.log } }

theorem retires_of_write (hfetch : s.machine.memory.fetch s.machine.pc.current = .ok c)
    (hencodes : Isa.Encodes i c.toNat) (hnext : s'.machine.pc.current = s.machine.pc.current + 4)
    (hwritten : s'.machine.registers = s.machine.registers.write c.rd (BitVec.ofInt 64 v))
    (hothers : s' = { s with machine := { s.machine with
      pc := ⟨s'.machine.pc.current, s.machine.pc.current⟩
      registers := s'.machine.registers
      last := some ⟨s.machine.pc.current, c, index, i⟩
      log := s'.machine.log } }) :
    Retires i index c v s s' := by
  refine ⟨Memory.slice_of_fetch hfetch, hencodes, ?_, ?_, ?_, s'.machine.registers.read_zero,
    hothers⟩
  · rw [hnext, Isa.add_four_eq_ofInt]
  · intro hrd
    rw [hwritten, c.rd_eq, Registers.read_write, if_pos ⟨rfl, hrd⟩]
  · intro r hr
    rw [hwritten, c.rd_eq, Registers.read_write, if_neg fun h => hr h.1]

end Platform

end RiscvHart
