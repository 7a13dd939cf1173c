import RiscvHart.Isa.Decoder

/-!
# Assembly text

Instructions as an assembler writes them, with numeric register names. The targets of branches
and jumps are written as absolute addresses, so the text of a word depends on where it lies.
-/

namespace RiscvHart

inductive OperandStyle where
  /-- All operands of the format, destination first. -/
  | plain
  /-- An offset with the register that it is relative to. -/
  | offset
  /-- The shift amount in place of the immediate that holds it. -/
  | shiftAmount
  /-- No operands. -/
  | omitted
  deriving DecidableEq, Repr

namespace Instr

def operandStyle : Instr → OperandStyle
  | jalr | lb | lh | lw | lbu | lhu | lwu | ld => .offset
  | slli | srli | srai | slliw | srliw | sraiw => .shiftAmount
  | fence | fenceI | ecall | ebreak => .omitted
  | _ => .plain

end Instr

namespace Assembly

def offset (imm : BitVec 12) (base : Reg) : String :=
  Numeral.signed imm.toInt ++ "(" ++ base.numericName ++ ")"

def operands (style : OperandStyle) (o : Operands) (pc : Word) : List String :=
  match style, o with
  | .omitted, _ => []
  | _, .bare => []
  | .shiftAmount, .r rs1 rs2 rd => [rd.numericName, rs1.numericName, Numeral.decimal rs2.toNat]
  | _, .r rs1 rs2 rd => [rd.numericName, rs1.numericName, rs2.numericName]
  | .shiftAmount, .i rs1 rd imm =>
    [rd.numericName, rs1.numericName, Numeral.decimal (imm.toNat % 64)]
  | .offset, .i rs1 rd imm => [rd.numericName, offset imm rs1]
  | .plain, .i rs1 rd imm => [rd.numericName, rs1.numericName, Numeral.signed imm.toInt]
  | _, .s rs1 rs2 imm => [rs2.numericName, offset imm rs1]
  | _, .b rs1 rs2 imm => [rs1.numericName, rs2.numericName, (pc + imm.signExtend 64).hex]
  | _, .u rd imm => [rd.numericName, Numeral.hexMarked (imm.toNat >>> 12)]
  | _, .j rd imm => [rd.numericName, (pc + imm.signExtend 64).hex]

def render (d : Decoded) (pc : Word) : String :=
  match operands d.instr.operandStyle d.operands pc with
  | [] => d.instr.mnemonic
  | items => d.instr.mnemonic ++ " " ++ ", ".intercalate items

end Assembly

def disassemble (c : Code) (pc : Word) : String :=
  match Decoder.decode? table c with
  | some d => Assembly.render d pc
  | none => "unknown [" ++ Numeral.hexMarkedPadded 8 c.toNat ++ "]"

end RiscvHart
