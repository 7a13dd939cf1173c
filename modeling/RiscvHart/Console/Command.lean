import RiscvHart.Usage.Parse

/-!
# Console commands

The commands of the debugger's console and how they are written. The first word of a line may be
given as the name of a file in a folder: what counts is its last part without an extension.
-/

namespace RiscvHart.Console

open Usage

inductive ViewRequest where
  | pc
  | register (name : String)
  | registers (start count : Nat)
  | memory (addr : String) (length : Nat)
  deriving DecidableEq, Repr

inductive Command where
  | print (v : ViewRequest)
  | display (v : ViewRequest)
  | undisplay (v : ViewRequest)
  | list
  | history (count : Nat)
  /-- Runs for some steps, or without a limit. -/
  | proceed (steps : Option Nat)
  | setBreakpoint (addr : String)
  | clearBreakpoint (addr : String)
  | breakpoints
  | stats
  | quit
  deriving DecidableEq, Repr

def readCount? (s : String) : Option Nat :=
  (Numeral.readNatural .decimal addressLimit s.toList).toOption

def readSmall? (s : String) : Option Nat := Numeral.readRanged? 0xFF s.toList

def readLength? (s : String) : Option Nat := Numeral.readRanged? 0xFFFFFFFF s.toList

def anyText (key : String) : Operand := ⟨key, true, fun _ => true⟩

def numberSwitch (key : String) (short : Option Char) (read? : String → Option Nat) : Switch :=
  ⟨key, short, some key, .value (fun s => (read? s).isSome) false⟩

def viewCommands : List Usage.Command :=
  [.simple "pc" [] [], .simple "reg" [] [anyText "reg"],
    ⟨"regs", [], [helpSwitch, numberSwitch "start" none readSmall?,
      numberSwitch "len" (some 'l') readSmall?],
      [], none, []⟩,
    ⟨"mem", [], [helpSwitch, numberSwitch "len" (some 'l') readLength?],
      [anyText "addr"], none, []⟩]

def optionalCount (key : String) : Operand := ⟨key, false, fun s => (readCount? s).isSome⟩

def grammar : Usage.Command where
  name := ""
  aliases := []
  switches := []
  operands := []
  tail := none
  subcommands :=
    [.group "print" ["p"] viewCommands, .group "display" ["d"] viewCommands,
      .group "undisplay" [] viewCommands, .simple "list" ["l", "ls"] [],
      .simple "history" ["his"] [optionalCount "count"], .simple "si" ["s", "step"] [],
      .simple "continue" ["c"] [optionalCount "steps"],
      ⟨"break", ["b"], [helpSwitch, ⟨"delete", some 'd', some "delete", .mark⟩],
       [anyText "addr"], none, []⟩,
      .group "info" [] [.simple "breakpoints" ["b", "bp", "break"] []], .simple "stats" [] [],
      .simple "quit" ["q", "exit"] []]

def standardHistory : Nat := 20

def standardLength : Nat := 16

def numberOr (p : Parsed) (key : String) (read? : String → Option Nat) (standard : Nat) : Nat :=
  ((p.value? key).bind read?).getD standard

def viewOf? (p : Parsed) (name : String) : Option ViewRequest :=
  match name with
  | "pc" => some .pc
  | "reg" => some (.register ((p.value? "reg").getD ""))
  | "regs" => some (.registers (numberOr p "start" readSmall? 0) (numberOr p "len" readSmall? 32))
  | "mem" => some (.memory ((p.value? "addr").getD "")
      (numberOr p "len" readLength? standardLength))
  | _ => none

def commandOf? (p : Parsed) : Option Command :=
  match p.path with
  | ["print", name] => (viewOf? p name).map .print
  | ["display", name] => (viewOf? p name).map .display
  | ["undisplay", name] => (viewOf? p name).map .undisplay
  | ["list"] => some .list
  | ["history"] => some (.history (numberOr p "count" readCount? standardHistory))
  | ["si"] => some (.proceed (some 1))
  | ["continue"] => some (.proceed ((p.value? "steps").bind readCount?))
  | ["break"] =>
    let addr := (p.value? "addr").getD ""
    some (if p.has "delete" then .clearBreakpoint addr else .setBreakpoint addr)
  | ["info", "breakpoints"] => some .breakpoints
  | ["stats"] => some .stats
  | ["quit"] => some .quit
  | _ => none

/-- The parts of a path, without those that stay where they are. -/
def pathParts (word : List Char) : List (List Char) :=
  (word.splitOn '/').filter fun part => part ≠ [] ∧ part ≠ ['.']

/-- The last part of a path without its extension. A part that starts with its only
point has none. -/
def stem? (word : List Char) : Option (List Char) :=
  match (pathParts word).getLast? with
  | none => none
  | some part =>
    if part = ['.', '.'] then none
    else
      let back := part.reverse
      match (back.dropWhile (· ≠ '.')).tail.reverse with
      | [] => some part
      | before => some before

/-- The words that a line is understood by. A first word that names no file is passed over
together with the word after it. -/
def wordsOf (line : String) : List String :=
  match Text.words line.toList with
  | [] => []
  | first :: rest =>
    match stem? first with
    | some name => (name :: rest).map String.ofList
    | none => rest.tail.map String.ofList

def readLine (line : String) : Except Rejection Command :=
  match grammar.parse (wordsOf line) with
  | .error e => .error e
  | .ok p =>
    match commandOf? p with
    | some c => .ok c
    | none => .error .missingSubcommand

end RiscvHart.Console
