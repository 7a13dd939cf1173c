import RiscvHart.Kernel.Bootstrap
import RiscvHart.Machine.Event
import RiscvHart.Observe.Trace
import RiscvHart.Usage.Parse

/-!
# Options of the program

What can be asked for on the command line: the program to run and its arguments, the layout of
its process, and what is reported about the run.
-/

namespace RiscvHart.Shell

open Usage

inductive ProgramFormat where
  /-- The format that the first bytes of the file tell. -/
  | guessed
  | elf
  | flat
  deriving DecidableEq, Repr

namespace ProgramFormat

def ofName? : String → Option ProgramFormat
  | "auto" => some guessed
  | "elf" => some elf
  | "bin" => some flat
  | _ => none

end ProgramFormat

inductive LogLevel where
  | off | error | warn | info | debug | trace
  deriving DecidableEq, Repr

namespace LogLevel

def ofName? : String → Option LogLevel
  | "off" => some off
  | "error" => some error
  | "warn" => some warn
  | "info" => some info
  | "debug" => some debug
  | "trace" => some trace
  | _ => none

def admits (l : LogLevel) : Severity → Bool
  | .error => l ≠ off
  | .warning => l ≠ off && l ≠ error

def admitsInfo : LogLevel → Bool
  | off | error | warn => false
  | info | debug | trace => true

def admitsDetail : LogLevel → Bool
  | debug | trace => true
  | _ => false

end LogLevel

structure Options where
  path : String
  guestArguments : List String
  format : ProgramFormat
  /-- Where a program without a format of its own is loaded. -/
  base : Word
  /-- Whether the program runs under the console. -/
  debug : Bool
  trace : Option TraceMode
  /-- Where the trace goes; without a file it goes to the stream of errors. -/
  traceFile : Option String
  stats : Bool
  environment : List (String × String)
  arenaSize : Option Word
  seed : Option Word
  level : LogLevel

namespace Options

/-- A setting of the environment: a key and a value, parted by the first equals sign. -/
def readSetting? (s : String) : Option (String × String) :=
  match s.toList.dropWhile (· ≠ '=') with
  | [] => none
  | _ :: value => some (String.ofList (s.toList.takeWhile (· ≠ '=')), String.ofList value)

def readDecimal? (s : String) : Option Word :=
  (Numeral.readNatural .decimal addressLimit s.toList).toOption.map (BitVec.ofNat 64)

def readWord? (s : String) : Option Word := (Numeral.readWord s).toOption

def valueSwitch {α : Type} (key : String) (read? : String → Option α) : Switch :=
  ⟨key, none, some key, .value (fun s => (read? s).isSome) false⟩

def markSwitch (key : String) : Switch := ⟨key, none, some key, .mark⟩

def readPath? (s : String) : Option String := if s = "" then none else some s

def grammar : Usage.Command where
  name := "hartsim"
  aliases := []
  switches :=
    [helpSwitch, ⟨"version", some 'V', some "version", .version⟩,
      { valueSwitch "format" ProgramFormat.ofName? with short := some 'f' },
      valueSwitch "base" readWord?, { markSwitch "debug" with short := some 'g' },
      valueSwitch "trace" fun s => (TraceMode.read s).toOption, valueSwitch "trace-file" readPath?,
      markSwitch "stats", ⟨"env", none, some "env", .value (fun s => (readSetting? s).isSome) true⟩,
      valueSwitch "arena-size" readWord?, valueSwitch "seed" readDecimal?,
      valueSwitch "loglevel" LogLevel.ofName?]
  operands := [⟨"path", true, fun s => (readPath? s).isSome⟩]
  tail := some "guest"
  subcommands := []

/-- Where a program without a format of its own is loaded if nothing is asked for. -/
def standardBase : Word := 0x10000

def ofParsed (p : Parsed) : Options where
  path := (p.value? "path").getD ""
  guestArguments := p.all "guest"
  format := ((p.value? "format").bind ProgramFormat.ofName?).getD .guessed
  base := ((p.value? "base").bind readWord?).getD standardBase
  debug := p.has "debug"
  trace := (p.value? "trace").bind fun s => (TraceMode.read s).toOption
  traceFile := p.value? "trace-file"
  stats := p.has "stats"
  environment := (p.all "env").filterMap readSetting?
  arenaSize := (p.value? "arena-size").bind readWord?
  seed := (p.value? "seed").bind readDecimal?
  level := ((p.value? "loglevel").bind LogLevel.ofName?).getD .info

def read (words : List String) : Except Rejection Options := (grammar.parse words).map ofParsed

def config (o : Options) : Config :=
  { Config.standard with
    arenaSize := o.arenaSize.getD Config.standard.arenaSize
    seed := o.seed.getD Config.standard.seed }

/-- What the process is started with: the path of the program is its first argument. -/
def processArgs (o : Options) : ProcessArgs := ⟨o.path :: o.guestArguments, o.environment⟩

def elfMark : List Byte := [0x7F, 0x45, 0x4C, 0x46]

end Options

end RiscvHart.Shell
