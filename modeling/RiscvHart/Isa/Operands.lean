import RiscvHart.Word.Fields
import RiscvHart.Register.Name

/-!
# Operands

The operand formats of instructions, and the operands that each format takes from a word.
Immediates are kept in the width of their format, not yet sign-extended; that of format U stands
in place, with twelve zeros below it.
-/

namespace RiscvHart

inductive Format where
  | bare | r | i | s | b | u | j
  deriving DecidableEq, Repr

inductive Operands where
  | bare
  | r (rs1 rs2 rd : Reg)
  | i (rs1 rd : Reg) (imm : BitVec 12)
  | s (rs1 rs2 : Reg) (imm : BitVec 12)
  | b (rs1 rs2 : Reg) (imm : BitVec 13)
  | u (rd : Reg) (imm : BitVec 32)
  | j (rd : Reg) (imm : BitVec 21)
  deriving DecidableEq, Repr

namespace Format

def name : Format → String
  | bare => "None"
  | r => "R"
  | i => "I"
  | s => "S"
  | b => "B"
  | u => "U"
  | j => "J"

def extract (f : Format) (c : Code) : Operands :=
  match f with
  | bare => .bare
  | r => .r c.rs1 c.rs2 c.rd
  | i => .i c.rs1 c.rd c.immI
  | s => .s c.rs1 c.rs2 c.immS
  | b => .b c.rs1 c.rs2 c.immB
  | u => .u c.rd c.immU
  | j => .j c.rd c.immJ

end Format

namespace Operands

def insert (o : Operands) (c : Code) : Code :=
  match o with
  | bare => c
  | r rs1 rs2 rd => ((c.setRs1 rs1).setRs2 rs2).setRd rd
  | i rs1 rd imm => ((c.setRs1 rs1).setRd rd).setImmI imm
  | s rs1 rs2 imm => ((c.setRs1 rs1).setRs2 rs2).setImmS imm
  | b rs1 rs2 imm => ((c.setRs1 rs1).setRs2 rs2).setImmB imm
  | u rd imm => (c.setRd rd).setImmU imm
  | j rd imm => (c.setRd rd).setImmJ imm

def render (o : Operands) : String :=
  let fields (format : String) (items : List (String × Nat)) : String :=
    format ++ " \x7b " ++
      ", ".intercalate (items.map fun (k, v) => k ++ ": " ++ Numeral.decimal v) ++ " \x7d"
  match o with
  | bare => "None"
  | r rs1 rs2 rd => fields "R" [("rs1", rs1.toNat), ("rs2", rs2.toNat), ("rd", rd.toNat)]
  | i rs1 rd imm => fields "I" [("rs1", rs1.toNat), ("rd", rd.toNat), ("imm", imm.toNat)]
  | s rs1 rs2 imm => fields "S" [("rs1", rs1.toNat), ("rs2", rs2.toNat), ("imm", imm.toNat)]
  | b rs1 rs2 imm => fields "B" [("rs1", rs1.toNat), ("rs2", rs2.toNat), ("imm", imm.toNat)]
  | u rd imm => fields "U" [("rd", rd.toNat), ("imm", imm.toNat)]
  | j rd imm => fields "J" [("rd", rd.toNat), ("imm", imm.toNat)]

end Operands

end RiscvHart
