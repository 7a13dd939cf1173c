import RiscvHart.Word.Basic
import RiscvHart.Text.Blank

/-!
# Numerals

Numbers written in decimal and hexadecimal digits, and read back. A numeral is read from the
left; the first character that is no digit, or the first digit that makes the number too large,
decides the error.
-/

namespace RiscvHart

inductive Radix where
  | decimal | hexadecimal
  deriving DecidableEq, Repr

namespace Radix

def base : Radix → Nat
  | decimal => 10
  | hexadecimal => 16

theorem one_lt_base (r : Radix) : 1 < r.base := by cases r <;> decide

def digitValue? (r : Radix) (c : Char) : Option Nat :=
  let value? :=
    if '0' ≤ c ∧ c ≤ '9' then some (c.toNat - '0'.toNat)
    else if 'a' ≤ c ∧ c ≤ 'f' then some (c.toNat - 'a'.toNat + 10)
    else if 'A' ≤ c ∧ c ≤ 'F' then some (c.toNat - 'A'.toNat + 10)
    else none
  value?.filter (· < r.base)

def digit (d : Nat) : Char :=
  if d < 10 then Char.ofNat ('0'.toNat + d) else Char.ofNat ('a'.toNat + (d - 10))

/-- The digits of a number in front of `tail`, without leading zeros. -/
def digitsBefore (r : Radix) (n : Nat) (tail : List Char) : List Char :=
  if n < r.base then digit n :: tail else digitsBefore r (n / r.base) (digit (n % r.base) :: tail)
termination_by n
decreasing_by
  have := r.one_lt_base
  exact Nat.div_lt_self (by omega) this

/-- The digits of a number, without leading zeros; zero has one digit. -/
def digits (r : Radix) (n : Nat) : List Char := r.digitsBefore n []

end Radix

namespace Numeral

def decimal (n : Nat) : String := String.ofList (Radix.decimal.digits n)

def signed (n : Int) : String :=
  match n with
  | .ofNat k => decimal k
  | .negSucc k => "-" ++ decimal (k + 1)

def hex (n : Nat) : String := String.ofList (Radix.hexadecimal.digits n)

def hexPadded (width n : Nat) : String :=
  let ds := Radix.hexadecimal.digits n
  String.ofList (List.replicate (width - ds.length) '0' ++ ds)

def hexMarked (n : Nat) : String := "0x" ++ hex n

def hexMarkedPadded (width n : Nat) : String := "0x" ++ hexPadded width n

end Numeral

inductive NumeralError where
  | empty
  | invalidDigit
  | tooLarge
  deriving DecidableEq, Repr

namespace NumeralError

def message : NumeralError → String
  | empty => "cannot parse integer from empty string"
  | invalidDigit => "invalid digit found in string"
  | tooLarge => "number too large to fit in target type"

end NumeralError

namespace Numeral

def readDigits (r : Radix) (limit acc : Nat) : List Char → Except NumeralError Nat
  | [] => .ok acc
  | c :: rest =>
    match r.digitValue? c with
    | none => .error .invalidDigit
    | some d =>
      if acc * r.base + d < limit then readDigits r limit (acc * r.base + d) rest
      else .error .tooLarge

def readNatural (r : Radix) (limit : Nat) : List Char → Except NumeralError Nat
  | [] => .error .empty
  | ['+'] => .error .invalidDigit
  | '+' :: rest => readDigits r limit 0 rest
  | cs => readDigits r limit 0 cs

/-- Reads a decimal number from 0 to `last`; either sign may stand before its digits, so `-0` is
a way to write zero. -/
def readRanged? (last : Nat) : List Char → Option Nat
  | ['-'] => none
  | '-' :: rest => (readDigits .decimal 1 0 rest).toOption
  | cs => (readNatural .decimal (last + 1) cs).toOption

/-- Reads a word: hexadecimal after `0x` or `0X`, else decimal. Blanks around it do not count. -/
def readWord (s : String) : Except NumeralError Word :=
  let value :=
    match Text.trim s.toList with
    | '0' :: 'x' :: rest => readNatural .hexadecimal addressLimit rest
    | '0' :: 'X' :: rest => readNatural .hexadecimal addressLimit rest
    | cs => readNatural .decimal addressLimit cs
  value.map (BitVec.ofNat 64)

end Numeral

namespace Word

def hex (v : Word) : String := Numeral.hexMarked v.toNat

end Word

end RiscvHart
