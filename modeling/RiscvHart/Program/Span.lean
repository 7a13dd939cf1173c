import RiscvHart.Word.Basic

/-!
# Spans of addresses

Ranges of addresses that are to be mapped. Spans that meet or touch become one, so that no byte
is mapped twice and no segment is cut.
-/

namespace RiscvHart

/-- The addresses from `start` up to `finish`, the latter excluded. -/
structure Span where
  start : Nat
  finish : Nat
  deriving DecidableEq, Repr

namespace Span

/-- The size of a page, to which spans are rounded. -/
def pageSize : Nat := 4096

def size (s : Span) : Nat := s.finish - s.start

/-- The pages that hold the `size` bytes from `addr` on, if they end where an
address can stand. -/
def pages? (addr : Word) (size : Nat) : Option Span :=
  let finish := (addr.toNat + size + (pageSize - 1)) / pageSize * pageSize
  if finish < addressLimit then some ⟨addr.toNat / pageSize * pageSize, finish⟩ else none

def before (s t : Span) : Bool := s.start < t.start || (s.start = t.start && s.finish ≤ t.finish)

/-- Joins each span of a sorted list with those after it that it meets or touches. -/
def joinSorted : List Span → List Span
  | [] => []
  | [s] => [s]
  | s :: t :: rest =>
    if t.start ≤ s.finish then joinSorted (⟨s.start, max s.finish t.finish⟩ :: rest)
    else s :: joinSorted (t :: rest)
termination_by ss => ss.length

/-- The fewest spans with the same addresses, in order. -/
def join (ss : List Span) : List Span := joinSorted (ss.mergeSort before)

end Span

end RiscvHart
