import RiscvHart.Kernel.Heap
import RiscvHart.Kernel.Host
import RiscvHart.Random.ChaCha
import RiscvHart.Text.Utf8

/-!
# The kernel

What answers the system calls of a guest: the host below it, a generator of random bytes, and a
table of the mappings that it has handed out. A platform is a machine on top of a kernel.
-/

namespace RiscvHart

structure Kernel (σ : Type) where
  host : Host σ
  hostState : σ
  random : ChaCha.Generator
  /-- The base and size of each anonymous mapping. -/
  mappings : List (Word × Nat)

namespace Kernel

variable {σ : Type}

def start (host : Host σ) (hostState : σ) (seed : Word) : Kernel σ :=
  ⟨host, hostState, .ofSeed seed, []⟩

def record (k : Kernel σ) (base : Word) (size : Nat) : Kernel σ :=
  { k with mappings := (base, size) :: k.mappings.filter fun e => e.1 ≠ base }

def forget (k : Kernel σ) (base : Word) : Kernel σ :=
  { k with mappings := k.mappings.filter fun e => e.1 ≠ base }

end Kernel

/-- A machine with the kernel under it. -/
structure Platform (σ : Type) where
  machine : Machine
  kernel : Kernel σ

namespace Platform

variable {σ α : Type}

def onMachine (x : Exec Machine α) : Exec (Platform σ) α :=
  Exec.on Platform.machine (fun s m => { s with machine := m }) x

def modifyMachine (f : Machine → Machine) : Exec (Platform σ) Unit :=
  Exec.modify fun s => { s with machine := f s.machine }

/-- Tells the host what has happened, and then has it do something. -/
def consult (f : Host σ → σ → α × σ) : Exec (Platform σ) α := fun s =>
  let (a, hostState) := f s.kernel.host (s.kernel.host.hear s.machine.log s.kernel.hostState)
  (.ok a, { s with kernel := { s.kernel with hostState := hostState } })

def askHost (f : Host σ → σ → Reply σ) : Exec (Platform σ) Int :=
  consult fun host s =>
    let r := f host s
    (r.result, r.state)

/-- Does something on the machine, which is left as it then is; says whether
there was no error. -/
def tryInPlace (f : Machine → Except MemoryError Unit × Machine) : Exec (Platform σ) Bool :=
  fun s =>
  match f s.machine with
  | (.ok (), m) => (.ok true, { s with machine := m })
  | (.error _, m) => (.ok false, { s with machine := m })

/-- Writes bytes to memory, if they have a place there; says whether they have. -/
def tryFill (addr : Word) (bs : List Byte) : Exec (Platform σ) Bool := fun s =>
  match s.machine.fill addr bs with
  | .ok m => (.ok true, { s with machine := m })
  | .error _ => (.ok false, s)

end Platform

end RiscvHart
