import RiscvHart.Failure
import RiscvHart.Memory.Basic

/-!
# Faults

The errors that end a run, and the error of a control request that does not fit the state of the
hart.
-/

namespace RiscvHart

/-- Why a run ends with an error, or a request is refused. -/
inductive Fault where
  | illegalInstruction (word : Code) (pc : Word)
  | outOfBounds (addr : Word)
  | outOfMemory (requested : Nat)
  | regionOverlap (addr : Word) (size : Nat)
  | syscallUnimplemented (number : Word)
  | invalidState
  deriving DecidableEq, Repr

namespace Fault

def message : Fault → String
  | illegalInstruction word pc =>
    "illegal instruction " ++ Numeral.hexMarkedPadded 8 word.toNat ++ " at " ++ pc.hex
  | outOfBounds addr => "access to unmapped address " ++ addr.hex
  | outOfMemory requested => "out of memory (" ++ Numeral.hexMarked requested ++ " bytes requested)"
  | regionOverlap addr size =>
    "region [" ++ addr.hex ++ ", +" ++ Numeral.hexMarked size ++ ") overlaps a mapped region"
  | syscallUnimplemented number => "unimplemented syscall " ++ Numeral.decimal number.toNat
  | invalidState => "hart is not in a state that allows this operation"

def ofMemory : MemoryError → Fault
  | .outOfBounds addr => .outOfBounds addr
  | .outOfMemory requested => .outOfMemory requested
  | .regionOverlap addr size => .regionOverlap addr size

end Fault

end RiscvHart
