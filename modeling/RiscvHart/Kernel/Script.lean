import RiscvHart.Kernel.Host

/-!
# Scripted hosts

A host for trying out programs: its answers are fixed in advance, and it keeps a list of what it
was asked for. The host's number of a call is that of the guest plus a thousand.
-/

namespace RiscvHart

inductive HostCall where
  | invoke (number : Int) (arguments : List HostArgument)
  | read (fd : BitVec 32) (length result : Nat)
  | write (fd : BitVec 32) (bytes : List Byte) (result : Int)
  | openat (dirfd : BitVec 32) (path : List Byte) (flags mode : BitVec 32)
  deriving DecidableEq, Repr

namespace HostArgument

/-- The value in hexadecimal; where a buffer lies is not known. -/
def render : HostArgument → String
  | value v => v.hex
  | buffer _ => "ptr"

end HostArgument

namespace HostCall

def hexBytes (bs : List Byte) : String := String.join (bs.map fun b => Numeral.hexPadded 2 b.toNat)

def line : HostCall → String
  | invoke number arguments =>
    "invoke " ++ Numeral.signed number ++ " [" ++
      " ".intercalate (arguments.map HostArgument.render) ++ "]"
  | read fd length result =>
    "read " ++ Numeral.signed fd.toInt ++ " " ++ Numeral.decimal length ++ " -> " ++
      Numeral.decimal result
  | write fd bytes result =>
    "write " ++ Numeral.signed fd.toInt ++ " " ++ hexBytes bytes ++ " -> " ++ Numeral.signed result
  | openat dirfd path flags mode =>
    "openat " ++ Numeral.signed dirfd.toInt ++ " " ++ hexBytes path ++ " " ++
      Numeral.signed flags.toInt ++ " " ++ Numeral.decimal mode.toNat

end HostCall

structure Script where
  /-- The calls that the host has, by the numbers of the guest; without a list it has all. -/
  known : Option (List Nat)
  invokeResult : Int
  /-- What is left to be read. -/
  input : List Byte
  /-- The results of the next writes; after them a write takes all. -/
  writeResults : List Int
  openResult : Int
  /-- The calls so far, the newest first. -/
  calls : List HostCall

namespace Script

def record (s : Script) (c : HostCall) : Script := { s with calls := c :: s.calls }

def lines (s : Script) : List String := (s.calls.map HostCall.line).reverse

def remap (s : Script) (c : Syscall) : Option Int :=
  if s.known.all fun numbers => numbers.contains c.number then some (c.number + 1000) else none

def invoke (number : Int) (arguments : List HostArgument) (s : Script) : Reply Script :=
  ⟨s.invokeResult, s.record (.invoke number arguments)⟩

def read (fd : BitVec 32) (length : Nat) (s : Script) : Reply Script × List Byte :=
  let data := s.input.take length
  let rest := { s with input := s.input.drop length }
  (⟨data.length, rest.record (.read fd length data.length)⟩, data)

def write (fd : BitVec 32) (bytes : List Byte) (s : Script) : Reply Script :=
  let result := s.writeResults.headD bytes.length
  let rest := { s with writeResults := s.writeResults.tail }
  ⟨result, rest.record (.write fd bytes result)⟩

def openat (dirfd : BitVec 32) (path : List Byte) (flags mode : BitVec 32) (s : Script) :
    Reply Script :=
  ⟨s.openResult, s.record (.openat dirfd path flags mode)⟩

end Script

namespace Host

def scripted : Host Script where
  hear _ s := s
  remap := Script.remap
  invoke := Script.invoke
  read := Script.read
  write := Script.write
  openat := Script.openat
  clock _ _ := (0, 0)

def scriptedForwarding : Host Script := forwarding Script.remap Script.invoke

end Host

end RiscvHart
