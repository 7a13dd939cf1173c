import RiscvHart.Kernel.Errno
import RiscvHart.Kernel.Syscall
import RiscvHart.Machine.Log

/-!
# Hosts

The system under the kernel, which does what the kernel cannot: it reads, writes and opens files
and answers the calls that are passed on to it. A host has a state of its own and is a function
of it, so a run on a host can be repeated.
-/

namespace RiscvHart

/-- An argument of a call to the host: a value, or a buffer that the host finds at an
address of its own. -/
inductive HostArgument where
  | value (v : Word)
  | buffer (bytes : List Byte)
  deriving DecidableEq, Repr

inductive Clock where
  /-- Time since the start of 1970. -/
  | realtime
  /-- Time since the start of the machine. -/
  | elapsed
  deriving DecidableEq, Repr

structure Reply (σ : Type) where
  result : Int
  state : σ

/-- A host with states of type `σ`. -/
structure Host (σ : Type) where
  /-- Takes notice of what has happened on the machine; a host is told before each call to it. -/
  hear : EventLog → σ → σ
  /-- The host's own number of a call, if it has the call. -/
  remap : σ → Syscall → Option Int
  /-- Makes the host's call of a given number. -/
  invoke : Int → List HostArgument → σ → Reply σ
  /-- Reads from a descriptor into a buffer of a given length. Gives the bytes
  that it puts there. -/
  read : (fd : BitVec 32) → (length : Nat) → σ → Reply σ × List Byte
  write : (fd : BitVec 32) → List Byte → σ → Reply σ
  openat : (dirfd : BitVec 32) → (path : List Byte) → (flags mode : BitVec 32) → σ → Reply σ
  /-- The seconds and nanoseconds that a clock shows. -/
  clock : Clock → σ → Word × Word

namespace Host

variable {σ : Type}

def call (remap : σ → Syscall → Option Int) (invoke : Int → List HostArgument → σ → Reply σ)
    (c : Syscall) (arguments : List HostArgument) (s : σ) : Reply σ :=
  match remap s c with
  | some number => invoke number arguments s
  | none => ⟨Errno.notImplemented.result, s⟩

/-- A host that reads, writes and opens by calls of its own. -/
def forwarding (remap : σ → Syscall → Option Int) (invoke : Int → List HostArgument → σ → Reply σ) :
    Host σ where
  hear _ s := s
  remap := remap
  invoke := invoke
  read fd length s :=
    (call remap invoke .read
      [.value (fd.signExtend 64), .buffer [], .value (BitVec.ofNat 64 length), .value 0, .value 0,
        .value 0] s, [])
  write fd bytes s :=
    call remap invoke .write
      [.value (fd.signExtend 64), .buffer bytes, .value (BitVec.ofNat 64 bytes.length), .value 0,
        .value 0, .value 0] s
  openat dirfd path flags mode s :=
    call remap invoke .openat
      [.value (dirfd.signExtend 64), .buffer path, .value (flags.signExtend 64),
        .value (mode.setWidth 64), .value 0, .value 0] s
  clock _ _ := (0, 0)

def unsupported : Host σ :=
  forwarding (fun _ _ => none) fun _ _ s => ⟨Errno.notImplemented.result, s⟩

end Host

end RiscvHart
