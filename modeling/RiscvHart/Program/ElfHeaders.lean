import RiscvHart.Failure
import RiscvHart.Memory.Basic

/-!
# The headers of executables

What any reader of 64-bit little-endian ELF files sees in one: the entry address, where the
program headers stand, and what each says of its segment. A header that cannot be read is a
crash. Which files and which segments are taken is not decided here, but where a program is
loaded.
-/

namespace RiscvHart

structure ProgramHeader where
  kind : Nat
  offset : Nat
  vaddr : Word
  fileSize : Nat
  memSize : Nat
  deriving DecidableEq

namespace Elf

def number (file : List Byte) (pos n : Nat) : Nat := LittleEndian.ofBytes ((file.drop pos).take n)

def headerLength : Nat := 64

def programHeaderLength : Nat := 56

/-- The grain of the file: program headers stand at multiples of it. -/
def headerGrain : Nat := 8

def entry (file : List Byte) : Word := BitVec.ofNat 64 (number file 24 8)

/-- The positions of the program headers. There are none if the table has no place in the file or
its entries have no length. -/
def programHeaders (file : List Byte) : List Nat :=
  let start := number file 32 8
  let length := number file 54 2
  let count := number file 56 2
  if start = 0 ∨ length = 0 then [] else (List.range count).map fun i => start + i * length

def header (file : List Byte) (pos : Nat) : ProgramHeader where
  kind := number file pos 4
  offset := number file (pos + 8) 8
  vaddr := BitVec.ofNat 64 (number file (pos + 16) 8)
  fileSize := number file (pos + 32) 8
  memSize := number file (pos + 40) 8

def openFile (file : List Byte) : Except Crash Unit :=
  if file.length < headerLength then .error .unreadableHeader else .ok ()

/-- Reads the program header at a position, if it lies in the file and on its grain. -/
def headerAt (file : List Byte) (pos : Nat) : Except Crash ProgramHeader :=
  let length := number file 54 2
  if length < programHeaderLength ∨ file.length < pos + length ∨ pos % headerGrain ≠ 0 then
    .error .unreadableHeader
  else .ok (header file pos)

/-- The kinds of segment that have a meaning, those left to systems and processors included. -/
def isKnownKind (kind : Nat) : Bool := kind ≤ 7 || (0x60000000 ≤ kind && kind ≤ 0x7FFFFFFF)

end Elf

def ProgramHeader.kind? (h : ProgramHeader) : Except String Nat :=
  if Elf.isKnownKind h.kind then .ok h.kind else .error "Invalid type"

end RiscvHart
