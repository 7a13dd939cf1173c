import RiscvHart.Word.Basic

/-!
# Arithmetic of instructions

What an instruction computes from two words. The operations ending in `W` work on the low 32 bits
and sign-extend their result. A division by zero gives all ones as quotient and the dividend as
remainder.
-/

namespace RiscvHart.Alu

def extendW (v : BitVec 32) : Word := v.signExtend 64

def lowW (v : Word) : BitVec 32 := v.setWidth 32

def add (a b : Word) : Word := a + b
def sub (a b : Word) : Word := a - b
def and (a b : Word) : Word := a &&& b
def or (a b : Word) : Word := a ||| b
def xor (a b : Word) : Word := a ^^^ b

def lessSigned (a b : Word) : Bool := a.slt b

def lessUnsigned (a b : Word) : Bool := a.ult b

def flag (b : Bool) : Word := if b then 1 else 0

def setLessSigned (a b : Word) : Word := flag (lessSigned a b)
def setLessUnsigned (a b : Word) : Word := flag (lessUnsigned a b)

/-- Only the low six bits of a shift amount count. -/
def shiftLeft (a b : Word) : Word := a <<< (b.toNat % 64)
def shiftRight (a b : Word) : Word := a >>> (b.toNat % 64)
def shiftRightSigned (a b : Word) : Word := a.sshiftRight (b.toNat % 64)

def mul (a b : Word) : Word := a * b

def mulHighUnsigned (a b : Word) : Word := ((a.setWidth 128 * b.setWidth 128) >>> 64).setWidth 64

def mulHighSigned (a b : Word) : Word := ((a.signExtend 128 * b.signExtend 128) >>> 64).setWidth 64

/-- The upper half of the product of a signed number by an unsigned one. A negative
first operand is `2 ^ 64` too large when read as unsigned, which makes the upper half
too large by the second. -/
def mulHighSignedUnsigned (a b : Word) : Word :=
  if a.msb then mulHighUnsigned a b - b else mulHighUnsigned a b

def divSigned (a b : Word) : Word := if b = 0 then BitVec.allOnes 64 else a.sdiv b
def divUnsigned (a b : Word) : Word := if b = 0 then BitVec.allOnes 64 else a / b
def remSigned (a b : Word) : Word := if b = 0 then a else a.srem b
def remUnsigned (a b : Word) : Word := if b = 0 then a else a % b

def addW (a b : Word) : Word := extendW (lowW a + lowW b)
def subW (a b : Word) : Word := extendW (lowW a - lowW b)
def mulW (a b : Word) : Word := extendW (lowW a * lowW b)

/-- Only the low five bits of the amount of a 32-bit shift count. -/
def shiftLeftW (a b : Word) : Word := extendW (lowW a <<< (b.toNat % 32))
def shiftRightW (a b : Word) : Word := extendW (lowW a >>> (b.toNat % 32))
def shiftRightSignedW (a b : Word) : Word := extendW ((lowW a).sshiftRight (b.toNat % 32))

def divSignedW (a b : Word) : Word :=
  if lowW b = 0 then BitVec.allOnes 64 else extendW ((lowW a).sdiv (lowW b))

def divUnsignedW (a b : Word) : Word :=
  if lowW b = 0 then BitVec.allOnes 64 else extendW (lowW a / lowW b)

def remSignedW (a b : Word) : Word :=
  if lowW b = 0 then extendW (lowW a) else extendW ((lowW a).srem (lowW b))

def remUnsignedW (a b : Word) : Word :=
  if lowW b = 0 then extendW (lowW a) else extendW (lowW a % lowW b)

end RiscvHart.Alu
