/-!
# Scheduled interruptions

A run can be told in advance after how many instructions it is to be paused, and after how many
it is to end.
-/

namespace RiscvHart

/-- What is asked of a hart between two instructions. -/
inductive Request where
  | pause | stop
  deriving DecidableEq, Repr

/-- The numbers of instructions after which a run is interrupted. -/
structure Schedule where
  /-- The run ends when exactly so many instructions are complete. -/
  stopAt : Option Nat
  pauseAt : List Nat
  /-- How many instructions are complete. -/
  completed : Nat
  deriving DecidableEq, Repr

namespace Schedule

def none : Schedule := ⟨.none, [], 0⟩

/-- Counts one more instruction. At the last one a run does not pause any more. -/
def advance (s : Schedule) : Schedule × List Request :=
  let count := s.completed + 1
  let requests :=
    if s.stopAt = some count then [.stop] else if count ∈ s.pauseAt then [.pause] else []
  ({ s with completed := count }, requests)

end Schedule

end RiscvHart
