import RiscvHart.Files.Buffered
import RiscvHart.Shell.Options

/-!
# What a run shows

The engine shows the events of a run on the stream of errors and in the file of its trace. It
does so through the descriptors that it shares with its guest, so it follows the events up to
each call of the guest before the call is made.
-/

namespace RiscvHart.Shell

/-- A host with files, with what the engine writes through it. -/
structure Terminal where
  host : FileHost
  level : LogLevel
  trace : Option TraceMode
  /-- Where the trace goes; without a file it goes to the stream of errors. -/
  traceFile : Option Buffered
  /-- Whether the file of the log was opened. -/
  logOpen : Bool
  /-- Whether the engine has broken off because something could not be shown. -/
  brokenOff : Bool
  /-- How many events were followed. -/
  followed : Nat

namespace Terminal

def outputNumber : Nat := 1
def errorNumber : Nat := 2

def start (host : FileHost) (level : LogLevel) : Terminal :=
  ⟨host, level, none, none, false, false, 0⟩

def print (t : Terminal) (fd : Nat) (text : String) : Terminal :=
  let (failed, host) := t.host.say fd (Text.utf8 text)
  { t with host := host, brokenOff := t.brokenOff || failed.isSome }

def printLine (t : Terminal) (fd : Nat) (text : String) : Terminal := t.print fd (text ++ "\n")

def logFolder : String := "logs"

def logPath : String := logFolder ++ "/hartsim_rCURRENT.log"

/-- Opens the file of the log with the first entry in it. The entries tell the time, so what they
say is not kept. -/
def openLog (t : Terminal) : Terminal :=
  if t.logOpen then t
  else { t with host := (t.host.openPath (Text.utf8 logPath) .forOutput).2, logOpen := true }

def noteInfo (t : Terminal) : Terminal := if t.level.admitsInfo then t.openLog else t

def remark (t : Terminal) (r : Remark) : Terminal :=
  if t.level.admits r.severity then (t.printLine errorNumber r.line).openLog else t

def traceLine (t : Terminal) (pieces : List String) : Terminal :=
  let (failed, t) : Option Errno × Terminal :=
    match t.traceFile with
    | none =>
      let (failed, host) := t.host.say errorNumber (Text.utf8 (String.join pieces))
      (failed, { t with host := host })
    | some file =>
      let (failed, file, host) := file.pushAll t.host (pieces.map Text.utf8)
      (failed, { t with host := host, traceFile := some file })
  match failed with
  | none => t
  | some e => t.remark (.traceFailed e.message)

/-- Shows what there is to see of an event. Nothing is shown once the engine has broken off. -/
def follow (t : Terminal) (e : Event) : Terminal :=
  if t.brokenOff then t
  else
    match e with
    | .remarked r => t.remark r
    | e =>
      match t.trace.bind fun mode => e.tracePieces? mode with
      | some pieces => t.traceLine pieces
      | none => t

def catchUp (log : EventLog) (t : Terminal) : Terminal :=
  { (log.since t.followed).foldl follow t with followed := log.size }

def flush (t : Terminal) : Terminal :=
  match t.traceFile with
  | none => t
  | some file =>
    match file.flush t.host with
    | (.ok file, host) => { t with host := host, traceFile := some file }
    | (.error _, host) => { t with host := host }

def openTrace (t : Terminal) (o : Options) : Except Errno Terminal :=
  match o.trace, o.traceFile with
  | some _, some path =>
    match t.host.openPath (Text.utf8 path) .forOutput with
    | (.error e, _) => .error e
    | (.ok fd, host) =>
      .ok { t with host := host, trace := o.trace, traceFile := some (.start fd) }
  | _, _ => .ok { t with trace := o.trace }

def take (t : Terminal) (r : Reply FileHost) : Reply Terminal :=
  ⟨r.result, { t with host := r.state }⟩

/-- Has a call answered, in which nothing happens once the engine has broken off. -/
def ask (t : Terminal) (call : FileHost → Reply FileHost) : Reply Terminal :=
  if t.brokenOff then ⟨0, t⟩ else t.take (call t.host)

def read (t : Terminal) (fd : BitVec 32) (length : Nat) : Reply Terminal × List Byte :=
  if t.brokenOff then (⟨0, t⟩, [])
  else
    let (reply, data) := t.host.read fd length
    (t.take reply, data)

end Terminal

def terminalHost : Host Terminal where
  hear := Terminal.catchUp
  remap t := t.host.remap
  invoke number arguments t := t.ask (·.invoke number arguments)
  read fd length t := t.read fd length
  write fd bytes t := t.ask (·.write fd bytes)
  openat dirfd path flags mode t := t.ask (·.openat dirfd path flags mode)
  clock _ _ := (0, 0)

end RiscvHart.Shell
