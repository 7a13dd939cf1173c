import RiscvHart.Isa.Assembly
import RiscvHart.Machine.Event

/-!
# Traces

A trace writes chosen events of a run as lines: the instructions as they are fetched, the
accesses to memory, the writes to registers.
-/

namespace RiscvHart

structure TraceMode where
  instructions : Bool
  memory : Bool
  registers : Bool
  deriving DecidableEq, Repr

namespace TraceMode

def empty : TraceMode := ⟨false, false, false⟩

def full : TraceMode := ⟨true, true, true⟩

def union (a b : TraceMode) : TraceMode :=
  ⟨a.instructions || b.instructions, a.memory || b.memory, a.registers || b.registers⟩

/-- The mode as a number: instructions count one, memory two, registers four. -/
def number (m : TraceMode) : Nat :=
  m.instructions.toNat + 2 * m.memory.toNat + 4 * m.registers.toNat

def ofName? (name : String) : Option TraceMode :=
  if name ∈ ["instruction", "instr", "i"] then some { empty with instructions := true }
  else if name ∈ ["memory", "mem", "m"] then some { empty with memory := true }
  else if name ∈ ["register", "reg", "r"] then some { empty with registers := true }
  else if name = "all" then some full
  else none

def items : List Char → List (List Char)
  | [] => [[]]
  | c :: rest =>
    match c, items rest with
    | ',', others => [] :: others
    | c, first :: others => (c :: first) :: others
    | c, [] => [[c]]

/-- Reads names between commas. Blanks around a name do not count, nor does its case, and empty
items are passed over. The first unknown name is the error. -/
def readItems : List (List Char) → Except String TraceMode
  | [] => .ok empty
  | item :: rest =>
    let name := Text.trim item
    if name = [] then readItems rest
    else
      let name := Text.lowerAscii (String.ofList name)
      match ofName? name with
      | some mode => (readItems rest).map mode.union
      | none => .error ("unknown trace mode \x60" ++ name ++ "\x60")

def read (s : String) : Except String TraceMode := readItems (items s.toList)

end TraceMode

namespace Event

/-- A number in hexadecimal with its mark, which is a piece of its own. -/
def hexPieces (v : Word) : List String := ["0x", Numeral.hex v.toNat]

/-- A number in at least `width` hexadecimal digits; each zero that fills it up is a piece of its
own. -/
def filledPieces (width n : Nat) : List String :=
  let digits := Numeral.hex n
  List.replicate (width - digits.length) "0" ++ [digits]

/-- The line of an event in a trace, if the mode shows it, in the pieces that
it is written in. -/
def tracePieces? (mode : TraceMode) : Event → Option (List String)
  | before pc word =>
    if mode.instructions then
      some ("0x" :: filledPieces 8 pc.toNat ++ ": " :: filledPieces 8 word.toNat ++
        ["  ", disassemble word pc, "\n"])
    else none
  | memoryRead addr value width =>
    if mode.memory then
      some ("    mem[" :: hexPieces addr ++ "] -> " :: hexPieces value ++
        [" (", Numeral.decimal width.bytes, "B)", "\n"])
    else none
  | memoryWrite addr new old _ =>
    if mode.memory then
      some ("    mem[" :: hexPieces addr ++ "] <- " :: hexPieces new ++ " (was " :: hexPieces old ++
        [")", "\n"])
    else none
  | registerWrite r new old =>
    if mode.registers then
      some ("    " :: r.numericName :: " <- " :: hexPieces new ++ " (was " :: hexPieces old ++
        [")", "\n"])
    else none
  | _ => none

end Event

def traceText (mode : TraceMode) (events : List Event) : String :=
  String.join ((events.filterMap (Event.tracePieces? mode)).map String.join)

end RiscvHart
