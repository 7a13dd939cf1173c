import RiscvHart.Hart.Basic

/-!
# Debugging sessions

A debugger is attached to a hart before the hart is started, which then waits to be told how far
to run. Every run of a session ends at the first of these: a breakpoint, the last step of its
budget, a breakpoint instruction of the guest, the end of the program, a fault.
-/

namespace RiscvHart

inductive DebugError where
  | targetFault (f : Fault)
  | notPaused
  | finished
  deriving DecidableEq, Repr

namespace DebugError

def message : DebugError → String
  | targetFault f => "target fault: " ++ f.message
  | notPaused => "hart is not paused"
  | finished => "program finished"

end DebugError

namespace Hart

variable {σ : Type}

def attachDebugger (h : Hart σ) : Except Fault (Hart σ) :=
  h.pauseOnBreakpoint.map fun h => { h with watch := { h.watch with debugger := some .new } }

def debugger (h : Hart σ) : DebugControl := h.watch.debugger.getD .new

def modifyDebugger (f : DebugControl → DebugControl) (h : Hart σ) : Hart σ :=
  { h with watch := { h.watch with debugger := h.watch.debugger.map f } }

/-- Sets a breakpoint; says whether there was none. -/
def setBreakpoint (h : Hart σ) (addr : Word) : Bool × Hart σ :=
  ((h.debugger.setBreakpoint addr).1, h.modifyDebugger fun c => (c.setBreakpoint addr).2)

def clearBreakpoint (h : Hart σ) (addr : Word) : Bool × Hart σ :=
  ((h.debugger.clearBreakpoint addr).1, h.modifyDebugger fun c => (c.clearBreakpoint addr).2)

def targetFault (h : Hart σ) : DebugError := .targetFault (h.machine.fault.getD .invalidState)

/-- Why a hart cannot be told to go on, if it cannot. -/
def notReady? (h : Hart σ) : Option DebugError :=
  match h.state with
  | .paused => none
  | .running => some .notPaused
  | .stopped => some .finished
  | .invalid => some h.targetFault

/-- The stop that a run has come to. A pause that the debugger did not ask for is that of a
breakpoint instruction. -/
def stopReached (h : Hart σ) : Except DebugError DebugStop :=
  match h.debugger.stop with
  | some stop => .ok stop
  | none =>
    match h.state with
    | .paused => .ok (.breakpointHit h.machine.pc.current)
    | .invalid => .error h.targetFault
    | _ => .error .finished

def runWithBudget (h : Hart σ) (fuel : Nat) (budget : Option Nat) :
    Except DebugError DebugStop × Hart σ :=
  let armed := h.modifyDebugger fun c => c.arm budget
  match armed.resume fuel with
  | .error fault => (.error (.targetFault fault), armed)
  | .ok h => (h.stopReached, h)

def continueUntil (h : Hart σ) (fuel steps : Nat) : Except DebugError DebugStop × Hart σ :=
  match h.notReady? with
  | some e => (.error e, h)
  | none =>
    if steps = 0 then (.ok (.stepsCompleted h.machine.pc.current), h)
    else h.runWithBudget fuel (some steps)

def stepOnce (h : Hart σ) (fuel : Nat) : Except DebugError DebugStop × Hart σ :=
  h.continueUntil fuel 1

def continueRun (h : Hart σ) (fuel : Nat) : Except DebugError DebugStop × Hart σ :=
  match h.notReady? with
  | some e => (.error e, h)
  | none => h.runWithBudget fuel none

/-- Reads memory without an event. -/
def inspect (h : Hart σ) (w : Width) (addr : Word) : Except DebugError Word :=
  match h.machine.memory.peek w addr with
  | .ok v => .ok v
  | .error e => .error (.targetFault (.ofMemory e))

end Hart

end RiscvHart
