import RiscvHart.Hart.Schedule
import RiscvHart.Machine.Basic

/-!
# Stops of a debugger

After each instruction a debugger looks whether the run has reached a breakpoint or used up the
number of steps that it was given. It also remembers where the last instructions were.
-/

namespace RiscvHart

inductive DebugStop where
  | stepsCompleted (pc : Word)
  | breakpointHit (pc : Word)
  deriving DecidableEq, Repr

structure DebugControl where
  /-- The breakpoints in ascending order. -/
  breakpoints : List Word
  /-- The steps left; without a number the run goes on to a breakpoint. -/
  budget : Option Nat
  /-- The addresses of the last instructions, the newest first. -/
  recent : List Word
  /-- The stop that the run has come to. -/
  stop : Option DebugStop
  deriving DecidableEq, Repr

namespace DebugControl

def historyLength : Nat := 64

def new : DebugControl := ⟨[], none, [], none⟩

/-- Puts an address in its place in an ascending list; says whether it is new there. -/
def insertBreakpoint (addr : Word) : List Word → Bool × List Word
  | [] => (true, [addr])
  | b :: rest =>
    if addr.toNat < b.toNat then (true, addr :: b :: rest)
    else if addr = b then (false, b :: rest)
    else
      let (isNew, others) := insertBreakpoint addr rest
      (isNew, b :: others)

/-- Sets a breakpoint; says whether there was none. -/
def setBreakpoint (c : DebugControl) (addr : Word) : Bool × DebugControl :=
  let (isNew, bs) := insertBreakpoint addr c.breakpoints
  (isNew, { c with breakpoints := bs })

def clearBreakpoint (c : DebugControl) (addr : Word) : Bool × DebugControl :=
  (c.breakpoints.contains addr, { c with breakpoints := c.breakpoints.filter fun b => b ≠ addr })

def arm (c : DebugControl) (budget : Option Nat) : DebugControl :=
  { c with budget := budget, stop := none }

/-- The addresses of the last instructions, the oldest first. -/
def history (c : DebugControl) : List Word := c.recent.reverse

def remember (c : DebugControl) (m : Machine) : DebugControl :=
  match m.last with
  | some e => { c with recent := (e.pc :: c.recent).take historyLength }
  | none => c

/-- The stop that a machine has come to, and the steps left if it has come to none. A breakpoint
comes before the end of the steps. -/
def stopAt (c : DebugControl) (pc : Word) : Option DebugStop × Option Nat :=
  if c.breakpoints.contains pc then (some (.breakpointHit pc), none)
  else
    match c.budget with
    | none => (none, none)
    | some left => if left ≤ 1 then (some (.stepsCompleted pc), none) else (none, some (left - 1))

def observe (c : DebugControl) (m : Machine) : DebugControl × List Request :=
  let c := c.remember m
  match c.stopAt m.pc.current with
  | (some stop, budget) => ({ c with budget := budget, stop := some stop }, [.pause])
  | (none, budget) => ({ c with budget := budget }, [])

end DebugControl

end RiscvHart
