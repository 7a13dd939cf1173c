import RiscvHart.Isa.Encoding
import RiscvHart.Word.Pattern

/-!
# The instruction table

One entry for each instruction of RV64IM: how its words are recognised, and which entry wins when
a word matches two. Only the shifts to the right by an immediate overlap: `srli` is recognised by
opcode and `funct3` alone, and `srai` takes the words with its upper bits by a smaller
precedence.
-/

namespace RiscvHart

/-- One row of an instruction table. Among the entries that match a word, the one with the
smallest precedence wins. -/
structure Entry where
  instr : Instr
  encoding : Encoding
  precedence : Nat

namespace Entry

def Matches (e : Entry) (c : Code) : Prop := e.encoding.Matches c

instance (e : Entry) (c : Code) : Decidable (e.Matches c) :=
  inferInstanceAs (Decidable (e.encoding.Matches c))

end Entry

namespace Opcode

def lui : BitVec 7 := 0b0110111
def auipc : BitVec 7 := 0b0010111
def jal : BitVec 7 := 0b1101111
def jalr : BitVec 7 := 0b1100111
def branch : BitVec 7 := 0b1100011
def load : BitVec 7 := 0b0000011
def store : BitVec 7 := 0b0100011
def opImm : BitVec 7 := 0b0010011
def opImm32 : BitVec 7 := 0b0011011
def op : BitVec 7 := 0b0110011
def op32 : BitVec 7 := 0b0111011
def miscMem : BitVec 7 := 0b0001111

end Opcode

/-- The words of `srai`: the upper six bits tell it from `srli`. -/
def sraiPattern : Pattern := .ofText "010000 ?????? ????? 101 ????? 0010011" rfl

def ecallPattern : Pattern := .ofText "000000000000 00000 000 00000 1110011" rfl

def ebreakPattern : Pattern := .ofText "000000000001 00000 000 00000 1110011" rfl

def table : List Entry :=
  [⟨.lui, .u Opcode.lui, 100⟩,
    ⟨.auipc, .u Opcode.auipc, 100⟩,
    ⟨.jal, .j Opcode.jal, 100⟩,
    ⟨.jalr, .i Opcode.jalr 0b000, 100⟩,
    ⟨.beq, .b Opcode.branch 0b000, 100⟩,
    ⟨.bne, .b Opcode.branch 0b001, 100⟩,
    ⟨.blt, .b Opcode.branch 0b100, 100⟩,
    ⟨.bge, .b Opcode.branch 0b101, 100⟩,
    ⟨.bltu, .b Opcode.branch 0b110, 100⟩,
    ⟨.bgeu, .b Opcode.branch 0b111, 100⟩,
    ⟨.lb, .i Opcode.load 0b000, 100⟩,
    ⟨.lh, .i Opcode.load 0b001, 100⟩,
    ⟨.lw, .i Opcode.load 0b010, 100⟩,
    ⟨.lbu, .i Opcode.load 0b100, 100⟩,
    ⟨.lhu, .i Opcode.load 0b101, 100⟩,
    ⟨.sb, .s Opcode.store 0b000, 100⟩,
    ⟨.sh, .s Opcode.store 0b001, 100⟩,
    ⟨.sw, .s Opcode.store 0b010, 100⟩,
    ⟨.addi, .i Opcode.opImm 0b000, 100⟩,
    ⟨.slti, .i Opcode.opImm 0b010, 100⟩,
    ⟨.sltiu, .i Opcode.opImm 0b011, 100⟩,
    ⟨.xori, .i Opcode.opImm 0b100, 100⟩,
    ⟨.ori, .i Opcode.opImm 0b110, 100⟩,
    ⟨.andi, .i Opcode.opImm 0b111, 100⟩,
    ⟨.slli, .i Opcode.opImm 0b001, 100⟩,
    ⟨.srli, .i Opcode.opImm 0b101, 100⟩,
    ⟨.srai, .custom .i sraiPattern.accepts, 50⟩,
    ⟨.add, .r Opcode.op 0b000 0b0000000, 100⟩,
    ⟨.sub, .r Opcode.op 0b000 0b0100000, 100⟩,
    ⟨.sll, .r Opcode.op 0b001 0b0000000, 100⟩,
    ⟨.slt, .r Opcode.op 0b010 0b0000000, 100⟩,
    ⟨.sltu, .r Opcode.op 0b011 0b0000000, 100⟩,
    ⟨.xor, .r Opcode.op 0b100 0b0000000, 100⟩,
    ⟨.srl, .r Opcode.op 0b101 0b0000000, 100⟩,
    ⟨.sra, .r Opcode.op 0b101 0b0100000, 100⟩,
    ⟨.or, .r Opcode.op 0b110 0b0000000, 100⟩,
    ⟨.and, .r Opcode.op 0b111 0b0000000, 100⟩,
    ⟨.fence, .i Opcode.miscMem 0b000, 100⟩,
    ⟨.fenceI, .i Opcode.miscMem 0b001, 100⟩,
    ⟨.ecall, .custom .bare ecallPattern.accepts, 50⟩,
    ⟨.ebreak, .custom .bare ebreakPattern.accepts, 50⟩,
    ⟨.lwu, .i Opcode.load 0b110, 100⟩,
    ⟨.ld, .i Opcode.load 0b011, 100⟩,
    ⟨.sd, .s Opcode.store 0b011, 100⟩,
    ⟨.addiw, .i Opcode.opImm32 0b000, 100⟩,
    ⟨.slliw, .r Opcode.opImm32 0b001 0b0000000, 100⟩,
    ⟨.srliw, .r Opcode.opImm32 0b101 0b0000000, 100⟩,
    ⟨.sraiw, .r Opcode.opImm32 0b101 0b0100000, 100⟩,
    ⟨.addw, .r Opcode.op32 0b000 0b0000000, 100⟩,
    ⟨.subw, .r Opcode.op32 0b000 0b0100000, 100⟩,
    ⟨.sllw, .r Opcode.op32 0b001 0b0000000, 100⟩,
    ⟨.srlw, .r Opcode.op32 0b101 0b0000000, 100⟩,
    ⟨.sraw, .r Opcode.op32 0b101 0b0100000, 100⟩,
    ⟨.mul, .r Opcode.op 0b000 0b0000001, 100⟩,
    ⟨.mulh, .r Opcode.op 0b001 0b0000001, 100⟩,
    ⟨.mulhsu, .r Opcode.op 0b010 0b0000001, 100⟩,
    ⟨.mulhu, .r Opcode.op 0b011 0b0000001, 100⟩,
    ⟨.div, .r Opcode.op 0b100 0b0000001, 100⟩,
    ⟨.divu, .r Opcode.op 0b101 0b0000001, 100⟩,
    ⟨.rem, .r Opcode.op 0b110 0b0000001, 100⟩,
    ⟨.remu, .r Opcode.op 0b111 0b0000001, 100⟩,
    ⟨.mulw, .r Opcode.op32 0b000 0b0000001, 100⟩,
    ⟨.divw, .r Opcode.op32 0b100 0b0000001, 100⟩,
    ⟨.divuw, .r Opcode.op32 0b101 0b0000001, 100⟩,
    ⟨.remw, .r Opcode.op32 0b110 0b0000001, 100⟩,
    ⟨.remuw, .r Opcode.op32 0b111 0b0000001, 100⟩]

end RiscvHart
