import RiscvHart.Word.Basic

/-!
# Texts as bytes

The UTF-8 bytes of a text, and the text of bytes: either only of those that are a text, or of
any, with the replacement character for each piece that cannot be a character.
-/

namespace RiscvHart.Text

def utf8 (s : String) : List Byte := (s.toList.flatMap String.utf8EncodeChar).map UInt8.toBitVec

def ofUtf8? (bs : List Byte) : Option String :=
  String.fromUTF8? ⟨(bs.map UInt8.ofBitVec).toArray⟩

/-- A character that is begun: how many bytes are to come, the bits so far, and the range that
the next byte has to lie in. -/
structure BegunChar where
  left : Nat
  bits : Nat
  low : Nat
  high : Nat

/-- Stands for a piece that cannot be a character. -/
def replacement : Char := '\uFFFD'

/-- What a first byte begins: a whole character, or one with more bytes to come. -/
def beginChar (b : Nat) : List Char × Option BegunChar :=
  if b < 0x80 then ([Char.ofNat b], none)
  else if 0xC2 ≤ b ∧ b ≤ 0xDF then ([], some ⟨1, b - 0xC0, 0x80, 0xBF⟩)
  else if b = 0xE0 then ([], some ⟨2, 0, 0xA0, 0xBF⟩)
  else if b = 0xED then ([], some ⟨2, 0xD, 0x80, 0x9F⟩)
  else if 0xE1 ≤ b ∧ b ≤ 0xEF then ([], some ⟨2, b - 0xE0, 0x80, 0xBF⟩)
  else if b = 0xF0 then ([], some ⟨3, 0, 0x90, 0xBF⟩)
  else if b = 0xF4 then ([], some ⟨3, 4, 0x80, 0x8F⟩)
  else if 0xF1 ≤ b ∧ b ≤ 0xF3 then ([], some ⟨3, b - 0xF0, 0x80, 0xBF⟩)
  else ([replacement], none)

def takeByte (begun : Option BegunChar) (b : Nat) : List Char × Option BegunChar :=
  match begun with
  | none => beginChar b
  | some c =>
    if c.low ≤ b ∧ b ≤ c.high then
      let bits := c.bits * 0x40 + b % 0x40
      if c.left = 1 then ([Char.ofNat bits], none) else ([], some ⟨c.left - 1, bits, 0x80, 0xBF⟩)
    else
      let (cs, next) := beginChar b
      (replacement :: cs, next)

def decodeFrom (begun : Option BegunChar) : List Byte → List Char
  | [] => if begun.isSome then [replacement] else []
  | b :: rest =>
    let (cs, next) := takeByte begun b.toNat
    cs ++ decodeFrom next rest

def ofBytes (bs : List Byte) : String := String.ofList (decodeFrom none bs)

end RiscvHart.Text
