import RiscvHart.Files.Host
import RiscvHart.Text.Blank
import RiscvHart.Text.Cluster

/-!
# Lines of input

The console takes its input in blocks and reads lines from them, so what it has taken is lost for
the guest. A line that is not a text is passed over.
-/

namespace RiscvHart.Shell

structure LineInput where
  taken : List Byte

inductive InputLine where
  | ended
  | unreadable
  /-- A backspace in the line would cut a character in two. -/
  | broken
  | text (line : String)

namespace LineInput

def newline : Byte := 0x0A

def blockSize : Nat := 8192

def inputNumber : Nat := 0

/-- Takes blocks until there is a whole line or nothing is left. What cannot be
read is at its end. -/
def fill : (fuel : Nat) → List Byte → FileHost → List Byte × FileHost
  | 0, taken, h => (taken, h)
  | fuel + 1, taken, h =>
    if taken.contains newline then (taken, h)
    else
      match h.readFrom inputNumber blockSize with
      | (.ok (b :: rest), h) => fill fuel (taken ++ b :: rest) h
      | (_, h) => (taken, h)

/-- The size of a cluster as it is kept: in one byte. -/
def keptSize (cluster : List Char) : Nat := (Text.utf8 (String.ofList cluster)).length % 256

/-- Takes as many bytes away from characters, the last of which comes first. -/
def dropBytes : (bytes : Nat) → List Char → Option (List Char)
  | 0, cs => some cs
  | _ + 1, [] => some []
  | bytes + 1, c :: rest =>
    if bytes + 1 < c.utf8Size then none else dropBytes (bytes + 1 - c.utf8Size) rest
termination_by _ cs => cs.length

/-- Does what backspaces say, with what was kept so far in reverse: a backspace that is a cluster
takes the cluster before it away, as many bytes as were counted for it. -/
def eraseFrom (kept : List Char) (sizes : List Nat) : List (List Char) → Option (List Char)
  | [] => some kept.reverse
  | cluster :: rest =>
    if cluster = ['\x08'] then
      match sizes with
      | [] => eraseFrom kept [] rest
      | size :: sizes => (dropBytes size kept).bind fun kept => eraseFrom kept sizes rest
    else eraseFrom (cluster.reverse ++ kept) (keptSize cluster :: sizes) rest

def eraseBack (cs : List Char) : Option (List Char) := eraseFrom [] [] (Text.clusters cs)

/-- Drops the break at the end of a line, which is a newline that a carriage return
may stand before. -/
def dropBreak (cs : List Char) : List Char :=
  match cs.reverse with
  | '\n' :: '\r' :: rest => rest.reverse
  | '\n' :: rest => rest.reverse
  | _ => cs

def readText (bytes : List Byte) : InputLine :=
  match Text.ofUtf8? bytes with
  | none => .unreadable
  | some text =>
    match eraseBack (dropBreak text.toList) with
    | some cs => .text (String.ofList cs)
    | none => .broken

def read (l : LineInput) (fuel : Nat) (h : FileHost) : InputLine × LineInput × FileHost :=
  let (taken, h) := fill fuel l.taken h
  if taken = [] then (.ended, ⟨[]⟩, h)
  else
    let body := taken.takeWhile (· ≠ newline)
    (readText (taken.take (body.length + 1)), ⟨taken.drop (body.length + 1)⟩, h)

end LineInput

end RiscvHart.Shell
