import RiscvHart.Memory.Cells
import RiscvHart.Text.Numeral

/-!
# Regions

A region is a run of mapped bytes. It starts at its base and its bytes are zero until they are
written.
-/

namespace RiscvHart

/-- A run of mapped bytes. -/
structure Region where
  base : Word
  size : Nat
  cells : Cells

namespace Region

def zeros (base : Word) (size : Nat) : Region := ⟨base, size, .zeros⟩

def finish (r : Region) : Nat := r.base.toNat + r.size

/-- Whether the `len` bytes from `addr` on all lie in the region. -/
def Covers (r : Region) (addr : Word) (len : Nat) : Prop :=
  r.base.toNat ≤ addr.toNat ∧ addr.toNat + len ≤ r.finish

instance (r : Region) (addr : Word) (len : Nat) : Decidable (r.Covers addr len) :=
  inferInstanceAs (Decidable (_ ∧ _))

def byte? (r : Region) (addr : Word) : Option Byte :=
  if r.Covers addr 1 then some (r.cells.get (addr.toNat - r.base.toNat)) else none

def slice (r : Region) (addr : Word) (len : Nat) : List Byte :=
  r.cells.read (addr.toNat - r.base.toNat) len

def write (r : Region) (addr : Word) (bs : List Byte) : Region :=
  { r with cells := r.cells.write (addr.toNat - r.base.toNat) bs }

/-- Changes the size. The bytes that both sizes have are kept, and added ones are zero. -/
def resize (r : Region) (size : Nat) : Region :=
  { r with size := size, cells := r.cells.take (min r.size size) }

/-- A region at the same base that has the bytes of another one. -/
def withBytesOf (r bytes : Region) : Region :=
  { r with size := bytes.size, cells := bytes.cells }

/-- Takes the bytes out, changes how many they are, and puts them back. Where the room for them
could not be `reserved` they are put back as they were. Says which it was. -/
def resizeInPlace (r : Region) (size : Nat) (reserved : Bool) : Bool × Region :=
  let emptied : Region := { r with size := 0, cells := .zeros }
  if reserved then (true, emptied.withBytesOf (r.resize size))
  else (false, emptied.withBytesOf r)

def render (r : Region) : String :=
  "MemRegion[" ++ r.base.hex ++ ", " ++ Numeral.hexMarked r.finish ++ ")"

end Region

end RiscvHart
