import RiscvHart.Isa.Alu
import RiscvHart.Isa.Instr

/-!
# Actions of instructions

What each instruction does, as one of a few kinds of action with the function or size that sets
it apart from the others of its kind.
-/

namespace RiscvHart

/-- A request that an instruction makes of the surroundings of the hart. -/
inductive Trap where
  | environmentCall
  | breakpoint
  deriving DecidableEq, Repr

inductive Action where
  /-- Computes from two registers, or from a register and an immediate. -/
  | compute (f : Word → Word → Word)
  /-- Shifts by the low six bits of the immediate. -/
  | shift (f : Word → Word → Word)
  /-- Shifts by the number in the second register field. -/
  | shiftW (f : Word → Word → Word)
  /-- Transfers control if a condition on two registers holds. -/
  | branch (taken : Word → Word → Bool)
  | load (width : Width) (signed : Bool)
  | store (width : Width)
  /-- Puts the upper immediate into a register. -/
  | upper
  /-- Adds the upper immediate to the address of the instruction. -/
  | upperFromPc
  | jump
  | jumpRegister
  /-- Has nothing to do on a hart that keeps its accesses in order. -/
  | fence
  | trap (t : Trap)

namespace Instr

def action : Instr → Action
  | lui => .upper
  | auipc => .upperFromPc
  | jal => .jump
  | jalr => .jumpRegister
  | beq => .branch fun a b => a == b
  | bne => .branch fun a b => a != b
  | blt => .branch Alu.lessSigned
  | bge => .branch fun a b => !Alu.lessSigned a b
  | bltu => .branch Alu.lessUnsigned
  | bgeu => .branch fun a b => !Alu.lessUnsigned a b
  | lb => .load .byte true
  | lh => .load .half true
  | lw => .load .word true
  | lbu => .load .byte false
  | lhu => .load .half false
  | lwu => .load .word false
  | ld => .load .double false
  | sb => .store .byte
  | sh => .store .half
  | sw => .store .word
  | sd => .store .double
  | addi | add => .compute Alu.add
  | slti | slt => .compute Alu.setLessSigned
  | sltiu | sltu => .compute Alu.setLessUnsigned
  | xori | xor => .compute Alu.xor
  | ori | or => .compute Alu.or
  | andi | and => .compute Alu.and
  | sub => .compute Alu.sub
  | sll => .compute Alu.shiftLeft
  | srl => .compute Alu.shiftRight
  | sra => .compute Alu.shiftRightSigned
  | slli => .shift Alu.shiftLeft
  | srli => .shift Alu.shiftRight
  | srai => .shift Alu.shiftRightSigned
  | fence | fenceI => .fence
  | ecall => .trap .environmentCall
  | ebreak => .trap .breakpoint
  | addiw | addw => .compute Alu.addW
  | subw => .compute Alu.subW
  | sllw => .compute Alu.shiftLeftW
  | srlw => .compute Alu.shiftRightW
  | sraw => .compute Alu.shiftRightSignedW
  | slliw => .shiftW Alu.shiftLeftW
  | srliw => .shiftW Alu.shiftRightW
  | sraiw => .shiftW Alu.shiftRightSignedW
  | mul => .compute Alu.mul
  | mulh => .compute Alu.mulHighSigned
  | mulhsu => .compute Alu.mulHighSignedUnsigned
  | mulhu => .compute Alu.mulHighUnsigned
  | div => .compute Alu.divSigned
  | divu => .compute Alu.divUnsigned
  | rem => .compute Alu.remSigned
  | remu => .compute Alu.remUnsigned
  | mulw => .compute Alu.mulW
  | divw => .compute Alu.divSignedW
  | divuw => .compute Alu.divUnsignedW
  | remw => .compute Alu.remSignedW
  | remuw => .compute Alu.remUnsignedW

end Instr

end RiscvHart
