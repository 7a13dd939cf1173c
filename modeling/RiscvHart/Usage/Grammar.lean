import RiscvHart.Text.Numeral

/-!
# Grammars of command lines

A command takes operands, which are told by their order, and switches, which are told by their
names; or it has subcommands, one of which has to follow it.
-/

namespace RiscvHart.Usage

inductive Effect where
  /-- Asks for help and nothing else. -/
  | help
  /-- Asks for the version and nothing else. -/
  | version
  /-- Is there or not. -/
  | mark
  /-- Takes a value out of those that are accepted. One that does not repeat
  can be given once. -/
  | value (accepts : String → Bool) (repeats : Bool)

/-- An argument that is told by its names. -/
structure Switch where
  key : String
  short : Option Char
  long : Option String
  effect : Effect

/-- An argument that is told by its place. -/
structure Operand where
  key : String
  required : Bool
  accepts : String → Bool

structure Command where
  name : String
  aliases : List String
  switches : List Switch
  operands : List Operand
  /-- The key of all the words after a double dash, if the command keeps them apart. -/
  tail : Option String
  subcommands : List Command

/-- Why words are not what a grammar describes, or what else they ask for. -/
inductive Rejection where
  | help
  | version
  /-- A command stands alone that needs a subcommand. -/
  | missingSubcommand
  | unknownSubcommand
  | unknownArgument
  | missingArgument
  | missingValue
  | invalidValue
  | surplusValue
  | repeatedSwitch
  deriving DecidableEq, Repr

namespace Rejection

def message : Rejection → String
  | help => "help requested"
  | version => "version requested"
  | missingSubcommand => "a subcommand is required but none was given"
  | unknownSubcommand => "unrecognized subcommand"
  | unknownArgument => "unexpected argument"
  | missingArgument => "a required argument was not given"
  | missingValue => "a value is required but none was given"
  | invalidValue => "invalid value"
  | surplusValue => "unexpected value"
  | repeatedSwitch => "the argument cannot be used multiple times"

end Rejection

/-- What was understood: the names of the subcommands on the way, and the values of the arguments
in order. A mark has an empty value. -/
structure Parsed where
  path : List String
  values : List (String × String)
  deriving DecidableEq, Repr

namespace Parsed

def value? (p : Parsed) (key : String) : Option String := p.values.lookup key

def has (p : Parsed) (key : String) : Bool := (p.value? key).isSome

def all (p : Parsed) (key : String) : List String :=
  (p.values.filter fun e => e.1 = key).map Prod.snd

end Parsed

def helpSwitch : Switch := ⟨"help", some 'h', some "help", .help⟩

def helpName : String := "help"

namespace Command

def answersTo (c : Command) (name : String) : Bool := c.name = name || c.aliases.contains name

def find? (c : Command) (name : String) : Option Command :=
  c.subcommands.find? fun s => s.answersTo name

def simple (name : String) (aliases : List String) (operands : List Operand) : Command :=
  ⟨name, aliases, [helpSwitch], operands, none, []⟩

/-- A command that is completed by one of its subcommands. -/
def group (name : String) (aliases : List String) (subcommands : List Command) : Command :=
  ⟨name, aliases, [helpSwitch], [], none, subcommands⟩

end Command

end RiscvHart.Usage
