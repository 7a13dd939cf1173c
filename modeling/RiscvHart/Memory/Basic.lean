import RiscvHart.Memory.Region
import RiscvHart.Word.Bytes

/-!
# Memory

Guest memory is a set of regions that do not meet, with a budget for the bytes of all of them. An
operation that checks everything before it changes anything gives a memory only if it succeeds. A
change of size is made in place, and gives the memory that it leaves even if it fails.
-/

namespace RiscvHart

inductive MemoryError where
  | outOfBounds (addr : Word)
  | outOfMemory (requested : Nat)
  | regionOverlap (addr : Word) (size : Nat)
  deriving DecidableEq, Repr

namespace MemoryError

def message : MemoryError → String
  | outOfBounds addr => "address " ++ addr.hex ++ " is outside every mapped region"
  | outOfMemory requested =>
    "memory arena exhausted (" ++ Numeral.hexMarked requested ++ " bytes requested)"
  | regionOverlap addr size =>
    "region [" ++ addr.hex ++ ", +" ++ Numeral.hexMarked size ++ ") overlaps a mapped region"

end MemoryError

/-- Guest memory: its regions, the highest first, how many bytes they have, and how many they may
have. -/
structure Memory where
  capacity : Nat
  /-- Whether the machine below can give the room for a region of a given size. -/
  backs : Nat → Bool
  used : Nat
  regions : List Region

namespace Memory

/-- The size of the largest region that an allocator takes a request for. -/
def largestRegion : Nat := 0x7FFFFFFFFFFFFFFF

/-- Memory without regions, over a machine that gives room for regions of certain sizes. -/
def emptyOver (backs : Nat → Bool) (capacity : Nat) : Memory := ⟨capacity, backs, 0, []⟩

/-- Memory without regions, over a machine that has room for all that an allocator can be asked
for. -/
def empty (capacity : Nat) : Memory := emptyOver (fun size => size ≤ largestRegion) capacity

instance : Inhabited Memory := ⟨empty 0⟩

def regionFrom? (m : Memory) (base : Word) : Option Region := m.regions.find? fun r => r.base = base

/-- The highest region that starts at or below an address. -/
def regionBelow? (m : Memory) (addr : Word) : Option Region :=
  m.regions.find? fun r => r.base.toNat ≤ addr.toNat

/-- The region that has all of the `len` bytes from `addr` on. -/
def regionOf? (m : Memory) (addr : Word) (len : Nat) : Option Region :=
  (m.regionBelow? addr).filter fun r => r.Covers addr len

def contains (m : Memory) (addr : Word) : Bool := (m.regionOf? addr 1).isSome

def byte? (m : Memory) (addr : Word) : Option Byte :=
  (m.regionBelow? addr).bind fun r => r.byte? addr

/-- Whether the highest region that starts below `finish`, other than the one at `skip`, ends
above `addr`. As regions do not meet, no lower one has to be looked at. -/
def overlaps (m : Memory) (addr : Word) (finish : Nat) (skip : Option Word) : Bool :=
  match (m.regions.filter fun r => some r.base ≠ skip).find? fun r => r.base.toNat < finish with
  | some r => decide (addr.toNat < r.finish)
  | none => false

/-- Puts a region in its place among others; it takes the place of one with the same base. -/
def insertRegion (r : Region) : List Region → List Region
  | [] => [r]
  | s :: rest =>
    if s.base.toNat < r.base.toNat then r :: s :: rest
    else if s.base = r.base then r :: rest
    else s :: insertRegion r rest

def modifyRegion (m : Memory) (base : Word) (f : Region → Region) : Memory :=
  { m with regions := m.regions.map fun r => if r.base = base then f r else r }

/-- Maps `size` bytes of zeros from `addr` on. A request for no bytes maps nothing. -/
def allocate (m : Memory) (addr : Word) (size : Nat) : Except MemoryError Memory :=
  if size = 0 then .ok m
  else if addressLimit ≤ addr.toNat + size then .error (.regionOverlap addr size)
  else if m.overlaps addr (addr.toNat + size) none then .error (.regionOverlap addr size)
  else if m.capacity < m.used + size then .error (.outOfMemory size)
  else if m.backs size = false then .error (.outOfMemory size)
  else
    .ok { m with regions := insertRegion (.zeros addr size) m.regions, used := m.used + size }

/-- Why a region of `old` bytes at `base` may not get more of them, if there is a reason. -/
def growthError? (m : Memory) (base : Word) (old size : Nat) : Option MemoryError :=
  if size ≤ old then none
  else if addressLimit ≤ base.toNat + size then some (.regionOverlap base size)
  else if m.overlaps base (base.toNat + size) (some base) then some (.regionOverlap base size)
  else if m.capacity < m.used - old + size then some (.outOfMemory (size - old))
  else none

/-- Changes the size of the region that starts at `base`. The memory given is the one that is
left, whether there was an error or not. -/
def resizeInPlace (m : Memory) (base : Word) (size : Nat) : Except MemoryError Unit × Memory :=
  match m.regionFrom? base with
  | none => (.error (.outOfBounds base), m)
  | some r =>
    match m.growthError? base r.size size with
    | some e => (.error e, m)
    | none =>
      -- Room is asked for only where the region grows.
      let reserved := decide (size ≤ r.size) || m.backs size
      let changed := m.modifyRegion base fun r => (r.resizeInPlace size reserved).2
      if (r.resizeInPlace size reserved).1 then
        (.ok (), { changed with used := m.used - r.size + size })
      else (.error (.outOfMemory (size - r.size)), changed)

def release (m : Memory) (base : Word) : Except MemoryError (Nat × Memory) :=
  match m.regionFrom? base with
  | none => .error (.outOfBounds base)
  | some r =>
    .ok (r.size,
      { m with regions := m.regions.filter (fun s => s.base ≠ base), used := m.used - r.size })

def accessible (m : Memory) (addr : Word) (len : Nat) : Bool :=
  len = 0 || (m.regionOf? addr len).isSome

def slice (m : Memory) (addr : Word) (len : Nat) : Except MemoryError (List Byte) :=
  if len = 0 then .ok []
  else
    match m.regionOf? addr len with
    | some r => .ok (r.slice addr len)
    | none => .error (.outOfBounds addr)

def fill (m : Memory) (addr : Word) (bs : List Byte) : Except MemoryError Memory :=
  if bs = [] then .ok m
  else
    match m.regionOf? addr bs.length with
    | some r => .ok (m.modifyRegion r.base fun r => r.write addr bs)
    | none => .error (.outOfBounds addr)

def peek (m : Memory) (w : Width) (addr : Word) : Except MemoryError Word :=
  (m.slice addr w.bytes).map Word.ofBytes

def poke (m : Memory) (w : Width) (addr v : Word) : Except MemoryError Memory :=
  m.fill addr (v.toBytes w)

def fetch (m : Memory) (addr : Word) : Except MemoryError Code :=
  (m.peek .word addr).map fun v => v.setWidth 32

def ascending (m : Memory) : List Region := m.regions.reverse

def render (m : Memory) : String :=
  "MemoryImage \x7b regions: [" ++ ", ".intercalate (m.ascending.map Region.render) ++
    "], used: " ++ Numeral.decimal m.used ++ ", capacity: " ++ Numeral.decimal m.capacity ++ " \x7d"

end Memory

end RiscvHart
