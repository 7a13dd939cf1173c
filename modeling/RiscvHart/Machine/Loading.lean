import RiscvHart.Machine.Basic
import RiscvHart.Program.Loader

/-!
# Loading into a machine

A machine takes a program into its memory. Each span that is mapped on the way is an event, also
when the program is not loaded in the end.
-/

namespace RiscvHart.Machine

/-- Takes over the memory of an attempt to load, with an event for each span that was mapped. -/
def loadProgram (m : Machine) (attempt : Memory → Loading) :
    Except (Failure LoadError) Image × Machine :=
  let loading := attempt m.memory
  let mapped := { m with memory := loading.memory }
  (loading.result,
    loading.mapped.foldl (fun m s => m.emit (.allocated (BitVec.ofNat 64 s.start) s.size)) mapped)

end RiscvHart.Machine
