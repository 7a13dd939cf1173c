import RiscvHart.Isa.Instr
import RiscvHart.Machine.Fault
import RiscvHart.Register.Name

/-!
# Events

What can be seen of a run as it goes on: each instruction before and after it is executed, the
accesses to registers and memory, new memory, and the remarks of the engine.
-/

namespace RiscvHart

/-- An instruction that was executed: where it lay, its word, and the entry of
the table for it. -/
structure Executed where
  pc : Word
  word : Code
  index : Nat
  instr : Instr
  deriving DecidableEq, Repr

inductive Severity where
  | error | warning
  deriving DecidableEq, Repr

inductive Remark where
  | illegalInstruction (word : Code) (pc : Word)
  | unknownSyscall (number : Word) (arguments : List Word)
  | bootstrapFailed (fault : Fault)
  | hartFault (fault : Fault)
  | breakpointHit (pc : Word)
  | traceFailed (reason : String)
  deriving DecidableEq, Repr

namespace Remark

def severity : Remark → Severity
  | illegalInstruction .. | breakpointHit _ | traceFailed _ => .warning
  | _ => .error

def origin : Remark → String
  | illegalInstruction .. => "hartsim::hart::executor"
  | unknownSyscall .. => "hartsim::hart::syscall"
  | bootstrapFailed _ | hartFault _ => "hartsim::hart"
  | breakpointHit _ => "hartsim"
  | traceFailed _ => "hartsim::trace"

def message : Remark → String
  | illegalInstruction word pc =>
    "Illegal instruction: " ++ Numeral.hexMarkedPadded 8 word.toNat ++ " at " ++ pc.hex
  | unknownSyscall number arguments =>
    "unknown syscall " ++ Numeral.decimal number.toNat ++ " args=[" ++
      ", ".intercalate (arguments.map fun v => Numeral.hex v.toNat) ++ "]"
  | bootstrapFailed fault => "process bootstrap failed: " ++ fault.message
  | hartFault fault => "hart fault: " ++ fault.message
  | breakpointHit pc => "guest hit ebreak at " ++ pc.hex
  | traceFailed reason => "trace output failed: " ++ reason

def line (r : Remark) : String :=
  let label :=
    match r.severity with
    | .error => "ERROR"
    | .warning => "WARN"
  label ++ " [" ++ r.origin ++ "] " ++ r.message

end Remark

inductive Event where
  /-- The word at `pc` was fetched. -/
  | before (pc : Word) (word : Code)
  /-- An instruction is complete, and the program counter stands at `pc`. -/
  | after (last : Executed) (pc : Word)
  | registerRead (r : Reg) (value : Word)
  /-- A register was written; `new` is the value that the guest gave, even to `x0`. -/
  | registerWrite (r : Reg) (new old : Word)
  | allocated (addr : Word) (size : Nat)
  | memoryRead (addr value : Word) (width : Width)
  | memoryWrite (addr new old : Word) (width : Width)
  | remarked (r : Remark)
  deriving DecidableEq, Repr

inductive EventKind where
  | before | after | registerRead | registerWrite | allocated | memoryRead | memoryWrite
  deriving DecidableEq, Repr

namespace Event

/-- The kind of an event; remarks have no listeners. -/
def kind? : Event → Option EventKind
  | before .. => some .before
  | after .. => some .after
  | registerRead .. => some .registerRead
  | registerWrite .. => some .registerWrite
  | allocated .. => some .allocated
  | memoryRead .. => some .memoryRead
  | memoryWrite .. => some .memoryWrite
  | remarked _ => none

end Event

end RiscvHart
