import RiscvHart.Word.Basic

/-!
# Contents of files

A file is a row of blocks. A block that was never written is a hole: it reads as zeros and takes
no room, so a file can be much longer than what was written to it.
-/

namespace RiscvHart

structure Contents where
  size : Nat
  /-- The blocks that were written with their numbers, the highest number first. -/
  blocks : List (Nat × List Byte)

namespace Contents

def blockSize : Nat := 4096

theorem blockSize_pos : 0 < blockSize := by decide

def empty : Contents := ⟨0, []⟩

def block (c : Contents) (n : Nat) : List Byte :=
  (c.blocks.lookup n).getD (List.replicate blockSize 0)

def isHole (c : Contents) (n : Nat) : Bool := (c.blocks.lookup n).isNone

def insertBlock (n : Nat) (bytes : List Byte) : List (Nat × List Byte) → List (Nat × List Byte)
  | [] => [(n, bytes)]
  | (m, old) :: rest =>
    if m < n then (n, bytes) :: (m, old) :: rest
    else if m = n then (n, bytes) :: rest
    else (m, old) :: insertBlock n bytes rest

def writeBlock (c : Contents) (n offset : Nat) (bytes : List Byte) : Contents :=
  let old := c.block n
  let new := old.take offset ++ bytes ++ old.drop (offset + bytes.length)
  { c with blocks := insertBlock n new c.blocks }

def writeBlocks (c : Contents) (pos : Nat) (bytes : List Byte) : Contents :=
  match bytes with
  | [] => c
  | b :: rest =>
    let offset := pos % blockSize
    let room := blockSize - offset
    (c.writeBlock (pos / blockSize) offset ((b :: rest).take room)).writeBlocks (pos + room)
      ((b :: rest).drop room)
termination_by bytes.length
decreasing_by
  have := Nat.mod_lt pos blockSize_pos
  simp only [List.length_drop, List.length_cons]
  omega

/-- Writes bytes from a position on. A file grows if they end after it; what then lies between is
a hole or zeros. -/
def write (c : Contents) (pos : Nat) (bytes : List Byte) : Contents :=
  if bytes = [] then c else { c.writeBlocks pos bytes with size := max c.size (pos + bytes.length) }

def readBlocks (c : Contents) (pos : Nat) : (count : Nat) → List Byte
  | 0 => []
  | n + 1 =>
    let offset := pos % blockSize
    let taken := min (n + 1) (blockSize - offset)
    ((c.block (pos / blockSize)).drop offset).take taken ++
      c.readBlocks (pos + taken) (n + 1 - taken)
termination_by count => count
decreasing_by
  have := Nat.mod_lt pos blockSize_pos
  omega

def read (c : Contents) (pos count : Nat) : List Byte := c.readBlocks pos (min count (c.size - pos))

def ofList (bytes : List Byte) : Contents := empty.write 0 bytes

def toList (c : Contents) : List Byte := c.read 0 c.size

/-- The first place from `pos` on with data; a file without one has none to tell. -/
def dataFrom? (c : Contents) (pos : Nat) : Option Nat :=
  if c.size ≤ pos then none
  else ((c.blocks.filter fun b => pos / blockSize ≤ b.1).getLast?).map fun b =>
    max pos (b.1 * blockSize)

/-- The first place from `pos` on that lies in a hole, which after all holes is the end. -/
def holeFrom? (c : Contents) (pos : Nat) : Option Nat :=
  if c.size ≤ pos then none
  else
    let first := pos / blockSize
    let hole := ((List.range' first (c.blocks.length + 1)).find? c.isHole).getD first
    some (min c.size (max pos (hole * blockSize)))

end Contents

end RiscvHart
