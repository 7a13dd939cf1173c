import RiscvHart.Console.Session
import RiscvHart.Files.Host
import RiscvHart.Hart.Summary
import RiscvHart.Program.Loader
import RiscvHart.Shell.Input
import RiscvHart.Shell.Terminal

/-!
# The program

A run of the program takes the words of its command line, a tree of files and its input, and
gives an exit code, the bytes of two streams and the files as they are in the end.
-/

namespace RiscvHart.Shell

open Usage

structure Outcome where
  code : Nat
  output : List Byte
  error : List Byte
  tree : FileTree

def Outcome.of (code : Nat) (h : FileHost) : Outcome :=
  ⟨code, h.output.reverse.flatten, h.error.reverse.flatten, h.tree⟩

def codeSuccess : Nat := 0
def codeFailure : Nat := 1
def codeUsage : Nat := 2
def codeCrash : Nat := 101

def versionLine : String := "hartsim 0.1.0\n"

def usageLines : List String :=
  ["Usage: hartsim [OPTIONS] <PATH> [-- <GUEST_ARGS>...]", "", "Arguments:",
    "  <PATH>           Path of the target executable file (elf/bin)",
    "  [GUEST_ARGS]...  Arguments passed to the guest program", "", "Options:",
    "  -f, --format <FORMAT>          Specify target executable file format [default: auto] " ++
      "[possible values: auto, elf, bin]",
    "      --base <BASE>              Load address of a raw binary [default: 0x10000]",
    "  -g, --debug                    Enable debugger REPL",
    "      --trace <TRACE>            Trace events, comma separated: instruction, memory, register",
    "      --trace-file <TRACE_FILE>  Write the trace here instead of stderr",
    "      --stats                    Print execution statistics at exit",
    "      --env <ENV>                Guest environment variable, KEY=VALUE. Repeatable",
    "      --arena-size <ARENA_SIZE>  Byte budget of guest memory",
    "      --seed <SEED>              Seed of the guest's randomness (AT_RANDOM, getrandom)",
    "      --loglevel <LOG_LEVEL>     Switch log level [default: info] " ++
      "[possible values: off, error, warn, info, debug, trace]",
    "  -h, --help                     Print help", "  -V, --version                  Print version"]

def usageText : String := String.join (usageLines.map (· ++ "\n"))

structure Progress where
  options : Options
  hart : Hart Terminal

namespace Progress

def terminal (p : Progress) : Terminal := p.hart.platform.kernel.hostState

def onTerminal (p : Progress) (f : Terminal → Terminal) : Progress :=
  let platform := p.hart.platform
  let kernel := { platform.kernel with hostState := f platform.kernel.hostState }
  { p with hart := { p.hart with platform := { platform with kernel := kernel } } }

def catchUp (p : Progress) : Progress := p.onTerminal (.catchUp p.hart.machine.log)

def printLine (p : Progress) (fd : Nat) (text : String) : Progress :=
  p.onTerminal fun t => t.printLine fd text

def print (p : Progress) (fd : Nat) (text : String) : Progress :=
  p.onTerminal fun t => t.print fd text

def finish (p : Progress) (code : Nat) : Outcome :=
  .of (if p.terminal.brokenOff then codeCrash else code) p.terminal.flush.host

def fail (p : Progress) (message : String) : Outcome :=
  ((p.onTerminal Terminal.flush).printLine Terminal.errorNumber message).finish codeFailure

def crashLine : String := "the engine has given up"

def crash (p : Progress) : Outcome := (p.printLine Terminal.errorNumber crashLine).finish codeCrash

def rejectionText (r : Rejection) : String :=
  match r with
  | .help | .missingSubcommand => "Usage: <COMMAND>\n"
  | r => "error: " ++ r.message ++ "\n"

/-- Answers one line on the console: the state after it, and how the line ended. -/
def respond (p : Progress) (session : Console.Session Terminal) (fuel : Nat) (line : String) :
    Console.Ending × Progress × Console.Session Terminal :=
  let (answer, session) := { session with hart := p.hart }.respond fuel line
  let p := ({ p with hart := session.hart }.catchUp).print Terminal.outputNumber answer.shown
  let p :=
    match answer.ending with
    | .failed message => p.printLine Terminal.errorNumber message
    | .refused r => p.printLine Terminal.errorNumber (rejectionText r)
    | _ => p
  (answer.ending, p, session)

def readLine (p : Progress) (input : LineInput) (fuel : Nat) : InputLine × LineInput × Progress :=
  let (line, input, host) := input.read fuel p.terminal.host
  (line, input, p.onTerminal fun t => { t with host := host })

def unreadableLine : String :=
  "Error occurred while reading line: stream did not contain valid UTF-8"

/-- Answers the lines of the input until they end or one of them quits; an empty line repeats the
last one. Gives the crash of a line that has crashed. -/
def converse (p : Progress) (session : Console.Session Terminal) (fuel : Nat) (input : LineInput)
    (last : String) : (lines : Nat) → Option Crash × Progress
  | 0 => (none, p)
  | lines + 1 =>
    let (line, input, p) := p.readLine input fuel
    match line with
    | .ended => (none, p)
    | .broken => (some .characterCut, p)
    | .unreadable =>
      converse (p.printLine Terminal.errorNumber unreadableLine) session fuel input last lines
    | .text line =>
      let line := String.ofList (Text.trim line.toList)
      let line := if line = "" then last else line
      if line = "" then converse p session fuel input last lines
      else
        match p.respond session fuel line with
        | (.quit, p, _) => (none, p)
        | (.crashed c, p, _) => (some c, p)
        | (_, p, session) =>
          if p.terminal.brokenOff then (none, p) else converse p session fuel input line lines

/-- The exit code for a reason to end. A process that exits has the low byte of its code. -/
def codeOf : Option HaltReason → Nat
  | some (.exited code) => (code.setWidth 8).toNat
  | some (.breakpoint _) => codeFailure
  | _ => codeSuccess

def report (p : Progress) (reason : Option HaltReason) : Progress :=
  match reason with
  | some (.breakpoint addr) => p.onTerminal (.remark · (.breakpointHit addr))
  | _ => p

def conclude (p : Progress) (result : Except Fault RunSummary) : Outcome :=
  let p := p.onTerminal fun t => t.noteInfo.flush
  let p :=
    if p.options.stats then
      p.print Terminal.errorNumber (Stats.ofEvents p.hart.machine.events).render
    else p
  match result with
  | .error fault => p.fail ("hart fault: " ++ fault.message)
  | .ok summary => (p.report summary.haltReason).finish (codeOf summary.haltReason)

def runPlain (p : Progress) (fuel : Nat) : Outcome :=
  match p.hart.runToEnd fuel p.options.processArgs with
  | .error _ => p.crash
  | .ok (result, hart) => ({ p with hart := hart }.catchUp).conclude result

/-- Runs the program under the console; at the end of the session the program is stopped. -/
def runConsole (p : Progress) (fuel : Nat) : Outcome :=
  match p.hart.attachDebugger with
  | .error fault => p.fail fault.message
  | .ok hart =>
    match hart.initPaused p.options.processArgs with
    | .error _ => p.crash
    | .ok (.error fault, hart) => ({ p with hart := hart }.catchUp).fail fault.message
    | .ok (.ok (), hart) =>
      let p := { p with hart := hart }.catchUp
      let session := Console.Session.start hart true
      let p := p.print Terminal.outputNumber session.greeting
      match p.converse session fuel ⟨[]⟩ "" fuel with
      | (some _, p) => p.crash
      | (none, p) =>
        let (result, hart) := (p.hart.stop.toOption.getD p.hart).await
        { p with hart := hart }.conclude result

end Progress


def logDisabledLine : String :=
  "logging disabled: Log cannot be written, " ++
    "e.g. because the configured output directory is not accessible"

/-- Makes the folder of the log. Where it cannot be, nothing is logged. -/
def prepareLog (level : LogLevel) (h : FileHost) : Terminal :=
  let place := h.home ++ FileTree.placeOf [Terminal.logFolder]
  match h.tree.node? place with
  | none => .start { h with tree := h.tree.setNode place .folder } level
  | some .folder => .start h level
  | some _ => (Terminal.start h .off).printLine Terminal.errorNumber logDisabledLine

/-- Whether a file is an executable by itself, where the options leave that open. -/
def Terminal.guessElf (t : Terminal) (o : Options) : Bool × Terminal :=
  match o.format with
  | .elf => (true, t)
  | .flat => (false, t)
  | .guessed =>
    let (mark, host) := t.host.firstBytes (Text.utf8 o.path) Options.elfMark.length
    (mark = some Options.elfMark, { t with host := host })

def Terminal.noteLoaded (t : Terminal) (isElf : Bool) : Terminal :=
  if t.level.admitsDetail || (isElf && t.level.admitsInfo) then t.openLog else t

def Terminal.fail (t : Terminal) (message : String) : Outcome :=
  .of codeFailure (t.printLine Terminal.errorNumber message).host

def start (o : Options) (fuel : Nat) (t : Terminal) (memory : Memory) (image : Image) : Outcome :=
  match t.openTrace o with
  | .error e => t.fail ("cannot open trace file: " ++ e.message)
  | .ok t =>
    let p : Progress := ⟨o, Hart.new memory image.entry o.config terminalHost t⟩
    if o.debug then p.runConsole fuel else p.runPlain fuel

def launch (o : Options) (fuel : Nat) (h : FileHost) : Outcome :=
  let (isElf, t) := (prepareLog o.level h).guessElf o
  let failure (message : String) : String := "failed to load " ++ o.path ++ ": " ++ message
  match t.host.wholeFile (Text.utf8 o.path) with
  | (.error e, _) => t.fail (failure e.message)
  | (.ok file, host) =>
    let t := { t with host := host }
    let memory := Memory.empty o.config.arenaSize.toNat
    let loading := if isElf then memory.loadElf file else memory.loadFlat file o.base
    match loading.result with
    | .error (.crash _) =>
      .of codeCrash (t.printLine Terminal.errorNumber Progress.crashLine).host
    | .error (.error e) => t.fail (failure e.message)
    | .ok image => start o fuel (t.noteLoaded isElf) loading.memory image

def run (words : List String) (fuel : Nat) (h : FileHost) : Outcome :=
  match Options.read words with
  | .ok o => launch o fuel h
  | .error .help => .of codeSuccess (h.say Terminal.outputNumber (Text.utf8 usageText)).2
  | .error .version => .of codeSuccess (h.say Terminal.outputNumber (Text.utf8 versionLine)).2
  | .error r =>
    .of codeUsage (h.say Terminal.errorNumber (Text.utf8 ("error: " ++ r.message ++ "\n"))).2

end RiscvHart.Shell
