import RiscvHart.Isa.Assembly

/-!
# Colours

How the console marks what it shows: each kind of text has a colour of its own on a terminal with
256 colours.
-/

namespace RiscvHart.Console

inductive Ink where
  | invalid | instruction | data | address | register | arrow
  deriving DecidableEq, Repr

namespace Ink

def number : Ink → Nat
  | invalid => 9
  | instruction => 10
  | data => 11
  | address => 12
  | register => 13
  | arrow => 14

def write (ink : Ink) (text : String) : String :=
  "\x1b[38;5;" ++ Numeral.decimal ink.number ++ "m" ++ text ++ "\x1b[39m"

end Ink

def padded (width : Nat) (text : String) : String :=
  text ++ String.ofList (List.replicate (width - text.length) ' ')

def showAddress (v : Word) : String := Ink.address.write (Numeral.hexMarkedPadded 8 v.toNat)

def showIndex (n : Nat) : String := Ink.data.write (Numeral.decimal n)

def showValue (v : Word) : String := Ink.data.write (Numeral.hexMarkedPadded 16 v.toNat)

def showRegister (r : Reg) : String := Ink.register.write (padded 5 r.abiName)

end RiscvHart.Console
