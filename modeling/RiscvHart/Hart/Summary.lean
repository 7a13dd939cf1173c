import RiscvHart.Hart.Basic

/-!
# Whole runs

A program is run by preparing its process, letting the hart run, and waiting for the end. What
comes of it is the fault that ended the run, or a summary of how it ended.
-/

namespace RiscvHart

structure RunSummary where
  haltReason : Option HaltReason
  exitCode : Option (BitVec 32)
  /-- Where the program counter stood at the end. -/
  pc : Word
  deriving DecidableEq, Repr

namespace Hart

variable {σ : Type}

def summary (h : Hart σ) : RunSummary :=
  ⟨h.machine.haltReason, h.machine.exitCode, h.machine.pc.current⟩

def await (h : Hart σ) : Except Fault RunSummary × Hart σ :=
  let (result, h) := h.waitTillDone
  (result.map fun () => h.summary, h)

def runToEnd (h : Hart σ) (fuel : Nat) (args : ProcessArgs) :
    Except Crash (Except Fault RunSummary × Hart σ) :=
  match h.init fuel args with
  | .error c => .error c
  | .ok (.error fault, h) => .ok (.error fault, h)
  | .ok (.ok (), h) => .ok h.await

end Hart

end RiscvHart
