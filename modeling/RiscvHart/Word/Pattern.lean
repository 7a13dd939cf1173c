import RiscvHart.Word.Basic

/-!
# Bit patterns

A pattern fixes some bits of an instruction and leaves the others open. It is written as a text
with one of the characters `0`, `1` and `?` for each bit, the first for bit 31; any other
character is there for the reader only.
-/

namespace RiscvHart

/-- The fixed bits of an instruction: those set in `mask`, with their values in `key`. -/
structure Pattern where
  key : Code
  mask : Code
  deriving DecidableEq, Repr

namespace Pattern

/-- An instruction matches when its fixed bits have the values of the key. -/
def Matches (p : Pattern) (c : Code) : Prop := c &&& p.mask = p.key

instance (p : Pattern) (c : Code) : Decidable (p.Matches c) := inferInstanceAs (Decidable (_ = _))

def accepts (p : Pattern) (c : Code) : Bool := decide (p.Matches c)

@[simp] theorem accepts_iff (p : Pattern) (c : Code) : p.accepts c = true ↔ p.Matches c := by
  simp [accepts]

/-- What one character of a written pattern says about a bit: `none` leaves it open. Characters
that stand for no bit give no answer at all. -/
def readBit? : Char → Option (Option Bool)
  | '0' => some (some false)
  | '1' => some (some true)
  | '?' => some none
  | _ => none

def push (p : Pattern) (bit : Option Bool) : Pattern where
  key := p.key <<< 1 ||| (if bit = some true then 1 else 0)
  mask := p.mask <<< 1 ||| (if bit.isSome then 1 else 0)

def ofBits (bits : List (Option Bool)) : Pattern := bits.foldl push ⟨0, 0⟩

/-- Reads a written pattern. It has to describe exactly 32 bits. -/
def ofString? (text : String) : Option Pattern :=
  let bits := text.toList.filterMap readBit?
  if bits.length = 32 then some (ofBits bits) else none

/-- The pattern that is written as a text known to describe 32 bits. -/
def ofText (text : String) (h : (ofString? text).isSome = true) : Pattern := (ofString? text).get h

end Pattern

end RiscvHart
