import RiscvHart.Machine.Fault

/-!
# Execution states

A hart is started at most once. A started hart runs or is paused until it stops or fails, and it
never comes back from there. A request that does not fit the state is refused and changes
nothing.
-/

namespace RiscvHart

inductive ExecutionState where
  | stopped
  | running
  | paused
  /-- A fault ended the run. -/
  | invalid
  deriving DecidableEq, Repr

namespace ExecutionState

def name : ExecutionState → String
  | stopped => "Stopped"
  | running => "Running"
  | paused => "Paused"
  | invalid => "InvalidState"

end ExecutionState

/-- The state of a hart, and whether it was ever started. -/
structure Monitor where
  state : ExecutionState
  started : Bool
  deriving DecidableEq, Repr

namespace Monitor

def new : Monitor := ⟨.stopped, false⟩

def start (m : Monitor) (paused : Bool) : Except Fault Monitor :=
  if m.started ∨ m.state ≠ .stopped then .error .invalidState
  else .ok ⟨if paused then .paused else .running, true⟩

def transition (m : Monitor) (sources : List ExecutionState) (target : ExecutionState) :
    Except Fault Monitor :=
  if m.started ∧ m.state ∈ sources then .ok { m with state := target } else .error .invalidState

def pause (m : Monitor) : Except Fault Monitor := m.transition [.running] .paused

def resume (m : Monitor) : Except Fault Monitor := m.transition [.paused] .running

def stop (m : Monitor) : Except Fault Monitor := m.transition [.running, .paused] .stopped

def halt (m : Monitor) : Monitor := if m.state = .invalid then m else { m with state := .stopped }

def fail (_ : Monitor) : Monitor := ⟨.invalid, true⟩

/-- What someone is told who waits until the state is not `blocking` any more: the state, once it
is another one. -/
def passed? (m : Monitor) (blocking : ExecutionState) : Option ExecutionState :=
  if m.state = blocking then none else some m.state

end Monitor

/-- A gate that is opened once and stays open. -/
structure Gate where
  isOpen : Bool
  deriving DecidableEq, Repr

namespace Gate

def closed : Gate := ⟨false⟩

def signal (_ : Gate) : Gate := ⟨true⟩

end Gate

end RiscvHart
