import RiscvHart.Program.ElfHeaders

/-!
# Executables

What is taken from a file to be loaded: the marks it has to bear, and of its headers the segments
that are to be in memory, each with the bytes of the file that it starts with.
-/

namespace RiscvHart

inductive LoadError where
  | invalidElf (reason : String)
  | notElf64
  | notLittleEndian
  | wrongMachine (machine : Nat)
  | truncated (vaddr : Word)
  | addressOverflow (vaddr : Word)
  | memory (e : MemoryError)
  deriving DecidableEq, Repr

namespace LoadError

def message : LoadError → String
  | invalidElf reason => "invalid elf: " ++ reason
  | notElf64 => "not a 64-bit elf"
  | notLittleEndian => "not a little-endian elf"
  | wrongMachine machine => "elf machine " ++ Numeral.decimal machine ++ " is not RISC-V"
  | truncated vaddr => "segment at " ++ vaddr.hex ++ " lies outside the file"
  | addressOverflow vaddr =>
    "segment at " ++ vaddr.hex ++ " runs past the end of the address space"
  | memory e => e.message

end LoadError

/-- A part of a program as it is to be in memory: the bytes of `data`, then zeros
up to `memSize`. -/
structure Segment where
  vaddr : Word
  memSize : Nat
  data : List Byte
  deriving DecidableEq

structure Executable where
  entry : Word
  segments : List Segment

namespace Elf

def magic : List Byte := [0x7F, 0x45, 0x4C, 0x46]

def class64 : Nat := 2

def dataLittleEndian : Nat := 1

def machineRiscv : Nat := 243

/-- Checks the marks of the file, which stand in its first 20 bytes. -/
def checkMarks (file : List Byte) : Except LoadError Unit :=
  if file.length < 20 ∨ file.take 4 ≠ magic then .error (.invalidElf "bad magic")
  else if number file 4 1 ≠ class64 then .error .notElf64
  else if number file 5 1 ≠ dataLittleEndian then .error .notLittleEndian
  else if number file 18 2 ≠ machineRiscv then .error (.wrongMachine (number file 18 2))
  else .ok ()

def kindLoad : Nat := 1

/-- The segment of a program header, if it is to be in memory. Its bytes have to be in the file,
and to have room in the segment. -/
def segmentOf? (file : List Byte) (h : ProgramHeader) : Except LoadError (Option Segment) :=
  match h.kind? with
  | .error reason => .error (.invalidElf reason)
  | .ok kind =>
    if kind ≠ kindLoad ∨ h.memSize = 0 then .ok none
    else if file.length < h.offset + h.fileSize ∨ h.memSize < h.fileSize then
      .error (.truncated h.vaddr)
    else .ok (some ⟨h.vaddr, h.memSize, (file.drop h.offset).take h.fileSize⟩)

def segment? (file : List Byte) (pos : Nat) : Except (Failure LoadError) (Option Segment) :=
  match headerAt file pos with
  | .error c => .error (.crash c)
  | .ok h =>
    match segmentOf? file h with
    | .error e => .error (.error e)
    | .ok segment => .ok segment

def segments (file : List Byte) : List Nat → Except (Failure LoadError) (List Segment)
  | [] => .ok []
  | pos :: rest =>
    match segment? file pos with
    | .error e => .error e
    | .ok none => segments file rest
    | .ok (some s) => (segments file rest).map (s :: ·)

def read (file : List Byte) : Except (Failure LoadError) Executable :=
  match checkMarks file with
  | .error e => .error (.error e)
  | .ok () =>
    match openFile file with
    | .error c => .error (.crash c)
    | .ok () => (segments file (programHeaders file)).map fun ss => ⟨entry file, ss⟩

end Elf

end RiscvHart
