/-!
# Words

The sizes of data that a 64-bit hart handles, and the arithmetic on them that `BitVec` does not
already name: sign extension from any width, rounding to a multiple, cutting to low bits.
-/

namespace RiscvHart

/-- A register value or an address. -/
abbrev Word := BitVec 64

/-- An instruction as it lies in memory. -/
abbrev Code := BitVec 32

/-- One cell of memory. -/
abbrev Byte := BitVec 8

/-- The number of addresses; every end of a mapped range stays below it. -/
abbrev addressLimit : Nat := 0x10000000000000000

/-- The sizes in which memory is accessed. -/
inductive Width where
  | byte | half | word | double
  deriving DecidableEq, Repr

namespace Width

def bytes : Width → Nat
  | byte => 1
  | half => 2
  | word => 4
  | double => 8

def bits (w : Width) : Nat := 8 * w.bytes

def ofBytes? : Nat → Option Width
  | 1 => some byte
  | 2 => some half
  | 4 => some word
  | 8 => some double
  | _ => none

theorem bytes_pos (w : Width) : 0 < w.bytes := by cases w <;> decide

theorem bytes_le (w : Width) : w.bytes ≤ 8 := by cases w <;> decide

end Width

namespace Word

/-- Reads the low `n` bits as a two's-complement number: they are moved to the top and back down
with copies of their first bit. -/
def signExtendLow (v : Word) (n : Nat) : Word := (v <<< (64 - n)).sshiftRight (64 - n)

def signExtend32 (v : Word) : Word := (v.setWidth 32).signExtend 64

def low (v : Word) (n : Nat) : Word := (v.setWidth n).setWidth 64

/-- The value that an access of width `w` can carry. -/
def cut (v : Word) (w : Width) : Word := v.low w.bits

/-- Whether exactly one bit is set. -/
def IsPowerOfTwo (v : Word) : Prop := v ≠ 0 ∧ v &&& (v - 1) = 0

instance (v : Word) : Decidable v.IsPowerOfTwo := inferInstanceAs (Decidable (_ ∧ _))

/-- The least multiple of `align` that is not below `v`, if a word can hold it. -/
def alignUp? (v align : Word) : Option Word :=
  let up := (v.toNat + align.toNat - 1) / align.toNat * align.toNat
  if up < addressLimit then some (BitVec.ofNat 64 up) else none

/-- Clears the bits below a power of two, which gives the greatest multiple of
it not above `v`. -/
def alignDown (v align : Word) : Word := v &&& ~~~(align - 1)

end Word

end RiscvHart
