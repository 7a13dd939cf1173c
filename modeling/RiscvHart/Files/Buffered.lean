import RiscvHart.Files.Host

/-!
# Buffered writing

Pieces of text wait in a buffer until they fill it, and are then written at once. A piece that
does not go with those that wait is kept for the next time, unless it alone would fill the
buffer.
-/

namespace RiscvHart

/-- A descriptor to write to, with the pieces that wait. -/
structure Buffered where
  fd : Nat
  /-- The pieces that wait, the newest first. -/
  waiting : List (List Byte)
  /-- The number of bytes that wait. -/
  size : Nat

namespace Buffered

def capacity : Nat := 8192

def start (fd : Nat) : Buffered := ⟨fd, [], 0⟩

/-- Writes what waits. If that fails, it goes on waiting. -/
def flush (b : Buffered) (h : FileHost) : Except Errno Buffered × FileHost :=
  if b.size = 0 then (.ok b, h)
  else
    match h.writeTo b.fd b.waiting.reverse.flatten with
    | (.ok _, h) => (.ok (start b.fd), h)
    | (.error e, h) => (.error e, h)

def push (b : Buffered) (h : FileHost) (piece : List Byte) : Except Errno Buffered × FileHost :=
  let add (b : Buffered) (h : FileHost) : Except Errno Buffered × FileHost :=
    if capacity ≤ piece.length then
      match h.writeTo b.fd piece with
      | (.ok _, h) => (.ok b, h)
      | (.error e, h) => (.error e, h)
    else (.ok ⟨b.fd, piece :: b.waiting, b.size + piece.length⟩, h)
  if b.size + piece.length ≤ capacity then add b h
  else
    match b.flush h with
    | (.ok b, h) => add b h
    | (.error e, h) => (.error e, h)

/-- Adds pieces up to the first that fails. What comes after it is lost. -/
def pushAll (b : Buffered) (h : FileHost) : List (List Byte) → Option Errno × Buffered × FileHost
  | [] => (none, b, h)
  | piece :: rest =>
    match b.push h piece with
    | (.ok b, h) => b.pushAll h rest
    | (.error e, h) => (some e, b, h)

end Buffered

end RiscvHart
