import RiscvHart.Isa.Table

/-!
# Decoding

A decoder is a list of entries. Of the entries that match a word it selects the one with the
smallest precedence, wherever that stands in the list. Two matching entries of the same
precedence leave the selection open when the second is met while the first is the best so far.
-/

namespace RiscvHart

/-- The result of matching a word against a table. -/
inductive Selection where
  | unknown
  | known (index : Nat) (entry : Entry)
  | ambiguous

namespace Selection

/-- Whether two entries have an equal right to the word. -/
def isAmbiguous : Selection → Bool
  | ambiguous => true
  | _ => false

end Selection

structure Decoded where
  instr : Instr
  operands : Operands
  deriving DecidableEq, Repr

namespace Decoded

def render (d : Decoded) : String := d.instr.name ++ ", " ++ d.operands.render

end Decoded

namespace Entry

def read (e : Entry) (c : Code) : Decoded := ⟨e.instr, e.encoding.format.extract c⟩

end Entry

abbrev Decoder := List Entry

namespace Decoder

/-- Goes on through a list whose first entry has the given index, with the best match so far. -/
def scan (c : Code) (best : Option (Nat × Entry)) (index : Nat) : List Entry → Selection
  | [] =>
    match best with
    | none => .unknown
    | some (i, e) => .known i e
  | e :: rest =>
    if e.Matches c then
      match best with
      | none => scan c (some (index, e)) (index + 1) rest
      | some (_, held) =>
        if e.precedence = held.precedence then .ambiguous
        else if held.precedence < e.precedence then scan c best (index + 1) rest
        else scan c (some (index, e)) (index + 1) rest
    else scan c best (index + 1) rest

def select (d : Decoder) (c : Code) : Selection := scan c none 0 d

def decode? (d : Decoder) (c : Code) : Option Decoded :=
  match d.select c with
  | .known _ e => some (e.read c)
  | _ => none

def candidates (d : Decoder) (c : Code) : List Entry := d.filter fun e => e.Matches c

/-- Finds the first entry with the given extension and mnemonic; letters of either case agree. -/
def lookup? (d : Decoder) (extension mnemonic : String) : Option Entry :=
  d.find? fun e =>
    Text.lowerAscii e.instr.extension.name = Text.lowerAscii extension ∧
      Text.lowerAscii e.instr.mnemonic = Text.lowerAscii mnemonic

/-- Finds the entry with the given mnemonic; of several, the first with the
smallest precedence. -/
def lookupMnemonic? (d : Decoder) (mnemonic : String) : Option Entry :=
  (d.filter fun e => Text.lowerAscii e.instr.mnemonic = Text.lowerAscii mnemonic).foldl
    (fun best e =>
      match best with
      | none => some e
      | some held => if e.precedence < held.precedence then some e else best)
    none

end Decoder

end RiscvHart
