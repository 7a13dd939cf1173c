import RiscvHart.Kernel.Calls
import RiscvHart.Machine.Perform

/-!
# One instruction

A step fetches the word at the program counter, finds its entry in the table, performs its action
and serves the trap that it raises. A word that no entry recognises, or that cannot be fetched,
ends the step with a fault. A breakpoint pauses the hart or ends the run, as the machine is set
up.
-/

namespace RiscvHart.Platform

variable {σ : Type}

open Exec

def fetch : Exec (Platform σ) Code :=
  onMachine (attempt fun m => (m.memory.fetch m.pc.current).map fun c => (c, m))

/-- The entry of a word, with its place in the table. -/
def decode (c : Code) : Exec (Platform σ) (Nat × Entry) := do
  match Decoder.select table c with
  | .known index entry => return (index, entry)
  | .ambiguous => crash .ambiguousEntry
  | .unknown => do
    let pc := (← get).machine.pc.current
    modifyMachine fun m => m.emit (.remarked (.illegalInstruction c pc))
    fault (.illegalInstruction c pc)

def serveTrap (pc : Word) : Option Trap → Exec (Platform σ) Unit
  | none => return ()
  | some .environmentCall => environmentCall
  | some .breakpoint =>
    modifyMachine fun m =>
      if m.pausesOnBreakpoint then { m with pauseRequested := true }
      else { m with breakpoint := some pc }

def complete (e : Executed) : Exec (Platform σ) Unit :=
  modifyMachine fun m => { m with last := some e }.emit (.after e m.pc.current)

def step : Exec (Platform σ) Unit := do
  let word ← fetch
  let pc := (← get).machine.pc.current
  modifyMachine fun m => m.emit (.before pc word)
  let (index, entry) ← decode word
  let trap ← onMachine (entry.instr.action.perform (entry.read word).operands)
  serveTrap pc trap
  complete ⟨pc, word, index, entry.instr⟩

end RiscvHart.Platform
