import RiscvHart.Isa.Instr
import RiscvHart.Register.Name
import Mathlib.Algebra.Group.Int.Defs
import Mathlib.Algebra.Group.Nat.Defs

/-!
# What the instruction set prescribes

The encodings of the instructions, and what those that compute or transfer control do, written in
integers and without the functions that the hart is built from. An instruction word is a natural
number. The contents of registers and the program counter are integers, and a result goes into
its register modulo `2 ^ 64`.
-/

namespace RiscvHart.Isa

def bitsAt (w lsb count : Nat) : Nat := w / 2 ^ lsb % 2 ^ count

def unsigned (bits : Nat) (a : Int) : Int := a % 2 ^ bits

def signed (bits : Nat) (a : Int) : Int := a.bmod (2 ^ bits)

/-! ## Encodings -/

def opcode (w : Nat) : Nat := bitsAt w 0 7
def funct3 (w : Nat) : Nat := bitsAt w 12 3
def funct7 (w : Nat) : Nat := bitsAt w 25 7

/-- The upper six bits, which tell the shifts to the right by an immediate apart. -/
def funct6 (w : Nat) : Nat := bitsAt w 26 6

def rd (w : Nat) : Reg := BitVec.ofNat 5 (bitsAt w 7 5)
def rs1 (w : Nat) : Reg := BitVec.ofNat 5 (bitsAt w 15 5)
def rs2 (w : Nat) : Reg := BitVec.ofNat 5 (bitsAt w 20 5)

def HasFunct3 (w op f3 : Nat) : Prop := opcode w = op ∧ funct3 w = f3

def HasFunct7 (w op f3 f7 : Nat) : Prop := opcode w = op ∧ funct3 w = f3 ∧ funct7 w = f7

/-- The fixed bits of each instruction. A shift to the left by an immediate has no fixed
bits above its shift amount here, and a shift to the right is the arithmetic one for one
value of them only. -/
def Encodes (i : Instr) (w : Nat) : Prop :=
  match i with
  | .lui => opcode w = 0x37
  | .auipc => opcode w = 0x17
  | .jal => opcode w = 0x6F
  | .jalr => HasFunct3 w 0x67 0
  | .beq => HasFunct3 w 0x63 0
  | .bne => HasFunct3 w 0x63 1
  | .blt => HasFunct3 w 0x63 4
  | .bge => HasFunct3 w 0x63 5
  | .bltu => HasFunct3 w 0x63 6
  | .bgeu => HasFunct3 w 0x63 7
  | .lb => HasFunct3 w 0x03 0
  | .lh => HasFunct3 w 0x03 1
  | .lw => HasFunct3 w 0x03 2
  | .ld => HasFunct3 w 0x03 3
  | .lbu => HasFunct3 w 0x03 4
  | .lhu => HasFunct3 w 0x03 5
  | .lwu => HasFunct3 w 0x03 6
  | .sb => HasFunct3 w 0x23 0
  | .sh => HasFunct3 w 0x23 1
  | .sw => HasFunct3 w 0x23 2
  | .sd => HasFunct3 w 0x23 3
  | .addi => HasFunct3 w 0x13 0
  | .slti => HasFunct3 w 0x13 2
  | .sltiu => HasFunct3 w 0x13 3
  | .xori => HasFunct3 w 0x13 4
  | .ori => HasFunct3 w 0x13 6
  | .andi => HasFunct3 w 0x13 7
  | .slli => HasFunct3 w 0x13 1
  | .srli => HasFunct3 w 0x13 5 ∧ funct6 w ≠ 0x10
  | .srai => HasFunct3 w 0x13 5 ∧ funct6 w = 0x10
  | .add => HasFunct7 w 0x33 0 0x00
  | .sub => HasFunct7 w 0x33 0 0x20
  | .sll => HasFunct7 w 0x33 1 0x00
  | .slt => HasFunct7 w 0x33 2 0x00
  | .sltu => HasFunct7 w 0x33 3 0x00
  | .xor => HasFunct7 w 0x33 4 0x00
  | .srl => HasFunct7 w 0x33 5 0x00
  | .sra => HasFunct7 w 0x33 5 0x20
  | .or => HasFunct7 w 0x33 6 0x00
  | .and => HasFunct7 w 0x33 7 0x00
  | .fence => HasFunct3 w 0x0F 0
  | .fenceI => HasFunct3 w 0x0F 1
  | .ecall => w = 0x00000073
  | .ebreak => w = 0x00100073
  | .addiw => HasFunct3 w 0x1B 0
  | .slliw => HasFunct7 w 0x1B 1 0x00
  | .srliw => HasFunct7 w 0x1B 5 0x00
  | .sraiw => HasFunct7 w 0x1B 5 0x20
  | .addw => HasFunct7 w 0x3B 0 0x00
  | .subw => HasFunct7 w 0x3B 0 0x20
  | .sllw => HasFunct7 w 0x3B 1 0x00
  | .srlw => HasFunct7 w 0x3B 5 0x00
  | .sraw => HasFunct7 w 0x3B 5 0x20
  | .mul => HasFunct7 w 0x33 0 0x01
  | .mulh => HasFunct7 w 0x33 1 0x01
  | .mulhsu => HasFunct7 w 0x33 2 0x01
  | .mulhu => HasFunct7 w 0x33 3 0x01
  | .div => HasFunct7 w 0x33 4 0x01
  | .divu => HasFunct7 w 0x33 5 0x01
  | .rem => HasFunct7 w 0x33 6 0x01
  | .remu => HasFunct7 w 0x33 7 0x01
  | .mulw => HasFunct7 w 0x3B 0 0x01
  | .divw => HasFunct7 w 0x3B 4 0x01
  | .divuw => HasFunct7 w 0x3B 5 0x01
  | .remw => HasFunct7 w 0x3B 6 0x01
  | .remuw => HasFunct7 w 0x3B 7 0x01

/-! ## Immediates -/

def immI (w : Nat) : Int := signed 12 (bitsAt w 20 12)

/-- The offset of a branch: an even number of 13 bits. -/
def immB (w : Nat) : Int :=
  signed 13 (2 ^ 12 * bitsAt w 31 1 + 2 ^ 11 * bitsAt w 7 1 + 2 ^ 5 * bitsAt w 25 6 +
    2 * bitsAt w 8 4)

/-- The upper immediate: a multiple of `2 ^ 12`, signed from bit 31. -/
def immU (w : Nat) : Int := signed 32 (2 ^ 12 * bitsAt w 12 20)

/-- The offset of a jump: an even number of 21 bits. -/
def immJ (w : Nat) : Int :=
  signed 21 (2 ^ 20 * bitsAt w 31 1 + 2 ^ 12 * bitsAt w 12 8 + 2 ^ 11 * bitsAt w 20 1 +
    2 * bitsAt w 21 10)

/-! ## Instructions that compute -/

def registerForms : List Instr :=
  [.add, .sub, .sll, .slt, .sltu, .xor, .srl, .sra, .or, .and, .addw, .subw, .sllw, .srlw, .sraw]

def immediateForms : List Instr :=
  [.addi, .slti, .sltiu, .xori, .ori, .andi, .slli, .srli, .srai, .addiw, .slliw, .srliw, .sraiw]

def branches : List Instr := [.beq, .bne, .blt, .bge, .bltu, .bgeu]

/-- The instructions without access to memory, but for those of multiplication and division and
those that ask something of the surroundings. -/
def computational : List Instr :=
  [.lui, .auipc, .jal, .jalr] ++ branches ++ immediateForms ++ registerForms

def bitwise (f : Nat → Nat → Nat) (a b : Int) : Int :=
  f (unsigned 64 a).toNat (unsigned 64 b).toNat

def computed (i : Instr) (a b : Int) : Int :=
  match i with
  | .add | .addi => a + b
  | .sub => a - b
  | .slt | .slti => if signed 64 a < signed 64 b then 1 else 0
  | .sltu | .sltiu => if unsigned 64 a < unsigned 64 b then 1 else 0
  | .xor | .xori => bitwise Nat.xor a b
  | .or | .ori => bitwise Nat.lor a b
  | .and | .andi => bitwise Nat.land a b
  | .sll | .slli => a * 2 ^ (b % 64).toNat
  | .srl | .srli => unsigned 64 a / 2 ^ (b % 64).toNat
  | .sra | .srai => signed 64 a / 2 ^ (b % 64).toNat
  | .addw | .addiw => signed 32 (a + b)
  | .subw => signed 32 (a - b)
  | .sllw | .slliw => signed 32 (a * 2 ^ (b % 32).toNat)
  | .srlw | .srliw => signed 32 (unsigned 32 a / 2 ^ (b % 32).toNat)
  | .sraw | .sraiw => signed 32 a / 2 ^ (b % 32).toNat
  | _ => 0

def taken (i : Instr) (a b : Int) : Bool :=
  match i with
  | .beq => unsigned 64 a = unsigned 64 b
  | .bne => unsigned 64 a ≠ unsigned 64 b
  | .blt => signed 64 a < signed 64 b
  | .bge => signed 64 b ≤ signed 64 a
  | .bltu => unsigned 64 a < unsigned 64 b
  | .bgeu => unsigned 64 b ≤ unsigned 64 a
  | _ => false

/-- What goes into the destination, if anything, where the instruction word `w` lies at `pc` and
the source registers hold `a` and `b`. -/
def written (i : Instr) (w : Nat) (pc a b : Int) : Option Int :=
  if i = .lui then some (immU w)
  else if i = .auipc then some (pc + immU w)
  else if i = .jal ∨ i = .jalr then some (pc + 4)
  else if i ∈ immediateForms then some (computed i a (immI w))
  else if i ∈ registerForms then some (computed i a b)
  else none

def next (i : Instr) (w : Nat) (pc a b : Int) : Int :=
  if i = .jal then pc + immJ w
  else if i = .jalr then a + immI w - (a + immI w) % 2
  else if taken i a b then pc + immB w
  else pc + 4

end RiscvHart.Isa
