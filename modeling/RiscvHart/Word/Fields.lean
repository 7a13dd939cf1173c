import RiscvHart.Word.Basic

/-!
# Fields of an instruction

An instruction keeps its operands in fields of bits. Immediates of the formats S, B and J are
scattered; their getters put the pieces together, and their setters take the same number apart.
Bit 0 of a B or J immediate is never stored, so it reads as zero, and a U immediate is the
instruction with its low twelve bits cleared.
-/

namespace RiscvHart.Code

/-- Whether there are `count` bits from bit `lsb` up, and at least one. -/
def HasField (lsb count : Nat) : Prop := 0 < count ∧ lsb + count ≤ 32

instance (lsb count : Nat) : Decidable (HasField lsb count) := inferInstanceAs (Decidable (_ ∧ _))

def lowBits (count : Nat) : Code := (BitVec.allOnes count).setWidth 32

def field (c : Code) (lsb count : Nat) : Code := (c >>> lsb) &&& lowBits count

/-- Replaces the `count` bits from bit `lsb` up by the low bits of `v`. -/
def setField (c : Code) (lsb count : Nat) (v : Code) : Code :=
  let mask := lowBits count <<< lsb
  (c &&& ~~~mask) ||| ((v <<< lsb) &&& mask)

def opcode (c : Code) : BitVec 7 := c.extractLsb' 0 7
def rd (c : Code) : BitVec 5 := c.extractLsb' 7 5
def funct3 (c : Code) : BitVec 3 := c.extractLsb' 12 3
def rs1 (c : Code) : BitVec 5 := c.extractLsb' 15 5
def rs2 (c : Code) : BitVec 5 := c.extractLsb' 20 5
def funct7 (c : Code) : BitVec 7 := c.extractLsb' 25 7

def shamt5 (c : Code) : BitVec 5 := c.extractLsb' 20 5

def shamt6 (c : Code) : BitVec 6 := c.extractLsb' 20 6

def immI (c : Code) : BitVec 12 := c.extractLsb' 20 12

def immS (c : Code) : BitVec 12 := c.extractLsb' 25 7 ++ c.extractLsb' 7 5

def immB (c : Code) : BitVec 13 :=
  c.extractLsb' 31 1 ++ c.extractLsb' 7 1 ++ c.extractLsb' 25 6 ++ c.extractLsb' 8 4 ++ 0#1

def immU (c : Code) : BitVec 32 := c.extractLsb' 12 20 ++ 0#12

def immJ (c : Code) : BitVec 21 :=
  c.extractLsb' 31 1 ++ c.extractLsb' 12 8 ++ c.extractLsb' 20 1 ++ c.extractLsb' 21 10 ++ 0#1

def setOpcode (c : Code) (v : BitVec 7) : Code := c.setField 0 7 (v.setWidth 32)
def setRd (c : Code) (v : BitVec 5) : Code := c.setField 7 5 (v.setWidth 32)
def setFunct3 (c : Code) (v : BitVec 3) : Code := c.setField 12 3 (v.setWidth 32)
def setRs1 (c : Code) (v : BitVec 5) : Code := c.setField 15 5 (v.setWidth 32)
def setRs2 (c : Code) (v : BitVec 5) : Code := c.setField 20 5 (v.setWidth 32)
def setFunct7 (c : Code) (v : BitVec 7) : Code := c.setField 25 7 (v.setWidth 32)

def setImmI (c : Code) (v : BitVec 12) : Code := c.setField 20 12 (v.setWidth 32)

def setImmS (c : Code) (v : BitVec 12) : Code :=
  let v := v.setWidth 32
  (c.setField 7 5 v).setField 25 7 (v >>> 5)

def setImmB (c : Code) (v : BitVec 13) : Code :=
  let v := v.setWidth 32
  (((c.setField 31 1 (v >>> 12)).setField 7 1 (v >>> 11)).setField 25 6 (v >>> 5)).setField 8 4
    (v >>> 1)

def setImmU (c : Code) (v : BitVec 32) : Code := (c &&& 0xFFF) ||| (v &&& 0xFFFFF000)

def setImmJ (c : Code) (v : BitVec 21) : Code :=
  let v := v.setWidth 32
  (((c.setField 31 1 (v >>> 20)).setField 12 8 (v >>> 12)).setField 20 1 (v >>> 11)).setField 21 10
    (v >>> 1)

end RiscvHart.Code
