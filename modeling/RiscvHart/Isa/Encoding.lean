import RiscvHart.Isa.Instr
import RiscvHart.Isa.Operands

/-!
# Encodings

How a table entry recognises its words. Most encodings are those of a format and fix the fields
that the format has for it; the others have a test of their own and say which format the operands
have.
-/

namespace RiscvHart

/-- What makes a word one of an entry's words. -/
inductive Encoding where
  | r (opcode : BitVec 7) (funct3 : BitVec 3) (funct7 : BitVec 7)
  | i (opcode : BitVec 7) (funct3 : BitVec 3)
  | s (opcode : BitVec 7) (funct3 : BitVec 3)
  | b (opcode : BitVec 7) (funct3 : BitVec 3)
  | u (opcode : BitVec 7)
  | j (opcode : BitVec 7)
  | custom (format : Format) (accepts : Code → Bool)

namespace Encoding

/-- A word matches when its fixed fields have the values of the encoding, or it
passes the test. -/
def Matches (e : Encoding) (c : Code) : Prop :=
  match e with
  | r opcode funct3 funct7 => c.opcode = opcode ∧ c.funct3 = funct3 ∧ c.funct7 = funct7
  | i opcode funct3 | s opcode funct3 | b opcode funct3 => c.opcode = opcode ∧ c.funct3 = funct3
  | u opcode | j opcode => c.opcode = opcode
  | custom _ accepts => accepts c = true

instance (e : Encoding) (c : Code) : Decidable (e.Matches c) :=
  match e with
  | r .. => inferInstanceAs (Decidable (_ ∧ _ ∧ _))
  | i .. | s .. | b .. => inferInstanceAs (Decidable (_ ∧ _))
  | u .. | j .. => inferInstanceAs (Decidable (_ = _))
  | custom _ accepts => inferInstanceAs (Decidable (accepts c = true))

def format : Encoding → Format
  | r .. => .r
  | i .. => .i
  | s .. => .s
  | b .. => .b
  | u .. => .u
  | j .. => .j
  | custom format _ => format

/-- Whether the words are told by a test and not by the fields of a format. -/
def isCustom : Encoding → Bool
  | custom .. => true
  | _ => false

/-- Puts the fixed fields of the encoding into a word and keeps its other bits. A test fixes no
fields. -/
def insert (e : Encoding) (c : Code) : Code :=
  match e with
  | r opcode funct3 funct7 => ((c.setOpcode opcode).setFunct3 funct3).setFunct7 funct7
  | i opcode funct3 | s opcode funct3 | b opcode funct3 => (c.setOpcode opcode).setFunct3 funct3
  | u opcode | j opcode => c.setOpcode opcode
  | custom .. => c

end Encoding

end RiscvHart
