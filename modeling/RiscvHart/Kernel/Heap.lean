import RiscvHart.Machine.Basic

/-!
# The heap

The heap is the range of addresses from its start up to the break. It is backed by one region at
its start, which grows when the break moves beyond its end and is kept when the break moves back.
-/

namespace RiscvHart.Machine

/-- Sees to it that the region at the start of the heap has `size` bytes at least. -/
def backHeap (m : Machine) (start : Word) (size : Nat) : Except MemoryError Unit × Machine :=
  match m.memory.regionFrom? start with
  | some r => if size ≤ r.size then (.ok (), m) else m.resizeInPlace start size
  | none =>
    match m.allocate start size with
    | .ok allocated => (.ok (), allocated)
    | .error e => (.error e, m)

/-- Moves the break, once the heap reaches that far. -/
def growHeapInPlace (m : Machine) (newEnd : Word) : Except MemoryError Unit × Machine :=
  match m.landmarks.get? Landmarks.heapStart with
  | none => (.error (.outOfBounds newEnd), m)
  | some start =>
    match m.backHeap start (newEnd.toNat - start.toNat) with
    | (.ok (), grown) => (.ok (), grown.mark Landmarks.heapEnd newEnd)
    | (.error e, left) => (.error e, left)

end RiscvHart.Machine
