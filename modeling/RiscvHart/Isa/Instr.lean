/-!
# Instructions

The instructions of RV64IM, the extension each belongs to, and how they are spelled.
-/

namespace RiscvHart

inductive Extension where
  | rv32i | rv64i | rv32m | rv64m
  deriving DecidableEq, Repr

namespace Extension

def name : Extension → String
  | rv32i => "rv32i"
  | rv64i => "rv64i"
  | rv32m => "rv32m"
  | rv64m => "rv64m"

end Extension

/-- The instructions, in the order of their extensions. -/
inductive Instr where
  | lui | auipc | jal | jalr | beq | bne | blt | bge | bltu | bgeu | lb | lh | lw | lbu | lhu
  | sb | sh | sw | addi | slti | sltiu | xori | ori | andi | slli | srli | srai | add | sub | sll
  | slt | sltu | xor | srl | sra | or | and | fence | fenceI | ecall | ebreak
  | lwu | ld | sd | addiw | slliw | srliw | sraiw | addw | subw | sllw | srlw | sraw
  | mul | mulh | mulhsu | mulhu | div | divu | rem | remu
  | mulw | divw | divuw | remw | remuw
  deriving DecidableEq, Repr

namespace Instr

def mnemonic : Instr → String
  | lui => "lui"
  | auipc => "auipc"
  | jal => "jal"
  | jalr => "jalr"
  | beq => "beq"
  | bne => "bne"
  | blt => "blt"
  | bge => "bge"
  | bltu => "bltu"
  | bgeu => "bgeu"
  | lb => "lb"
  | lh => "lh"
  | lw => "lw"
  | lbu => "lbu"
  | lhu => "lhu"
  | sb => "sb"
  | sh => "sh"
  | sw => "sw"
  | addi => "addi"
  | slti => "slti"
  | sltiu => "sltiu"
  | xori => "xori"
  | ori => "ori"
  | andi => "andi"
  | slli => "slli"
  | srli => "srli"
  | srai => "srai"
  | add => "add"
  | sub => "sub"
  | sll => "sll"
  | slt => "slt"
  | sltu => "sltu"
  | xor => "xor"
  | srl => "srl"
  | sra => "sra"
  | or => "or"
  | and => "and"
  | fence => "fence"
  | fenceI => "fence.i"
  | ecall => "ecall"
  | ebreak => "ebreak"
  | lwu => "lwu"
  | ld => "ld"
  | sd => "sd"
  | addiw => "addiw"
  | slliw => "slliw"
  | srliw => "srliw"
  | sraiw => "sraiw"
  | addw => "addw"
  | subw => "subw"
  | sllw => "sllw"
  | srlw => "srlw"
  | sraw => "sraw"
  | mul => "mul"
  | mulh => "mulh"
  | mulhsu => "mulhsu"
  | mulhu => "mulhu"
  | div => "div"
  | divu => "divu"
  | rem => "rem"
  | remu => "remu"
  | mulw => "mulw"
  | divw => "divw"
  | divuw => "divuw"
  | remw => "remw"
  | remuw => "remuw"

def name (i : Instr) : String := i.mnemonic.map fun c => if c = '.' then '_' else c.toUpper

def extension : Instr → Extension
  | lwu | ld | sd | addiw | slliw | srliw | sraiw | addw | subw | sllw | srlw | sraw => .rv64i
  | mul | mulh | mulhsu | mulhu | div | divu | rem | remu => .rv32m
  | mulw | divw | divuw | remw | remuw => .rv64m
  | _ => .rv32i

def fullName (i : Instr) : String := i.extension.name ++ "_" ++ i.mnemonic

def all : List Instr :=
  [.lui, .auipc, .jal, .jalr, .beq, .bne, .blt, .bge, .bltu, .bgeu, .lb, .lh, .lw, .lbu, .lhu,
    .sb, .sh, .sw, .addi, .slti, .sltiu, .xori, .ori, .andi, .slli, .srli, .srai, .add, .sub,
    .sll, .slt, .sltu, .xor, .srl, .sra, .or, .and, .fence, .fenceI, .ecall, .ebreak, .lwu, .ld,
    .sd, .addiw, .slliw, .srliw, .sraiw, .addw, .subw, .sllw, .srlw, .sraw, .mul, .mulh, .mulhsu,
    .mulhu, .div, .divu, .rem, .remu, .mulw, .divw, .divuw, .remw, .remuw]

theorem mem_all (i : Instr) : i ∈ all := by cases i <;> decide

end Instr

end RiscvHart
