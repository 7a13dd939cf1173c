import RiscvHart.Machine.Perform
import RiscvHart.Proofs.Machine.Exec
import RiscvHart.Proofs.Register.Bank

/-!
# Actions that only compute

An action without access to memory moves the program counter and writes at most one register.
Both are functions of the operands, the program counter and the registers before the action.
-/

namespace RiscvHart

/-- What an action that only computes does. -/
structure Effect where
  next : Word
  write : Option (Reg × Word)

namespace Effect

def registers (e : Effect) (x : Registers) : Registers :=
  match e.write with
  | some (rd, v) => x.write rd v
  | none => x

theorem read_registers (e : Effect) (x : Registers) (q : Reg) :
    (e.registers x).read q =
      match e.write with
      | some (rd, v) => if q = rd ∧ rd ≠ 0 then v else x.read q
      | none => x.read q := by
  unfold registers
  split
  · exact x.read_write
  · rfl

end Effect

namespace Action

/-- The effect of an action on a machine with a program counter and registers, if it is one that
only computes and has operands that suit it. -/
def effect? (a : Action) (o : Operands) (pc : Word) (x : Registers) : Option Effect :=
  match a, o with
  | compute f, .r rs1 rs2 rd => some ⟨pc + 4, some (rd, f (x.read rs1) (x.read rs2))⟩
  | compute f, .i rs1 rd imm => some ⟨pc + 4, some (rd, f (x.read rs1) (imm.signExtend 64))⟩
  | shift f, .i rs1 rd imm =>
    some ⟨pc + 4, some (rd, f (x.read rs1) (BitVec.ofNat 64 (imm.toNat % 64)))⟩
  | shiftW f, .r rs1 amount rd => some ⟨pc + 4, some (rd, f (x.read rs1) (amount.setWidth 64))⟩
  | branch taken, .b rs1 rs2 imm =>
    some ⟨if taken (x.read rs1) (x.read rs2) then pc + imm.signExtend 64 else pc + 4, none⟩
  | upper, .u rd imm => some ⟨pc + 4, some (rd, imm.signExtend 64)⟩
  | upperFromPc, .u rd imm => some ⟨pc + 4, some (rd, pc + imm.signExtend 64)⟩
  | jump, .j rd imm => some ⟨pc + imm.signExtend 64, some (rd, pc + 4)⟩
  | jumpRegister, .i rs1 rd imm =>
    some ⟨(x.read rs1 + imm.signExtend 64) &&& ~~~1, some (rd, pc + 4)⟩
  | _, _ => none

/-- The formats of the operands with which an action only computes. -/
def computes (a : Action) (f : Format) : Bool :=
  match a, f with
  | compute _, .r | compute _, .i | shift _, .i | shiftW _, .r | branch _, .b => true
  | upper, .u | upperFromPc, .u | jump, .j | jumpRegister, .i => true
  | _, _ => false

theorem exists_effect? {a : Action} {f : Format} (h : a.computes f) (c : Code) (pc : Word)
    (x : Registers) : ∃ e, a.effect? (f.extract c) pc x = some e := by
  unfold computes at h
  split at h
  all_goals first | exact ⟨_, rfl⟩ | cases h

theorem perform_branch (taken : Word → Word → Bool) (rs1 rs2 : Reg) (imm : BitVec 13)
    (m : Machine) :
    (branch taken).perform (.b rs1 rs2 imm) m =
      (.ok none, ((m.readRegister rs1).2.readRegister rs2).2.jump
        (if taken (m.registers.read rs1) (m.registers.read rs2) then
          m.pc.current + imm.signExtend 64 else m.pc.current + 4)) := by
  show (ite (taken (m.registers.read rs1) (m.registers.read rs2) = true) _ _ :
    Exec Machine (Option Trap)) ((m.readRegister rs1).2.readRegister rs2).2 = _
  by_cases htaken : taken (m.registers.read rs1) (m.registers.read rs2) = true
  · rw [if_pos htaken, if_pos htaken]
    rfl
  · rw [if_neg htaken, if_neg htaken]
    rfl

/-- An action with an effect succeeds, raises no trap, and changes only what the effect
says, and the log. -/
theorem perform_of_effect? {a : Action} {o : Operands} {m : Machine} {e : Effect}
    (h : a.effect? o m.pc.current m.registers = some e) :
    ∃ m', a.perform o m = (.ok none, m') ∧
      m' = { m with
        pc := ⟨e.next, m.pc.current⟩, registers := e.registers m.registers, log := m'.log } := by
  unfold effect? at h
  split at h
  all_goals cases h
  case h_5 taken rs1 rs2 imm => exact ⟨_, perform_branch taken rs1 rs2 imm m, rfl⟩
  all_goals exact ⟨_, rfl, rfl⟩

end Action

end RiscvHart
