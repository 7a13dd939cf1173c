import RiscvHart.Console.Command
import RiscvHart.Console.Palette
import RiscvHart.Debugger.Session
import RiscvHart.Observe.Stats

/-!
# The console

A console answers lines about a hart under a debugger. It keeps a list of things that it shows
again whenever the program has come to a stop.
-/

namespace RiscvHart.Console

open Usage

inductive View where
  | pc
  | register (r : Reg)
  | registers (start count : Nat)
  | memory (addr : Word) (length : Nat)
  deriving DecidableEq, Repr

structure Session (σ : Type) where
  hart : Hart σ
  /-- Whether statistics are kept. -/
  counting : Bool
  /-- What is shown at each stop, in order. -/
  watched : List View

inductive Ending where
  | goOn
  | quit
  | failed (message : String)
  | refused (r : Rejection)
  | crashed (c : Crash)
  deriving DecidableEq, Repr

structure Answer where
  shown : String
  ending : Ending
  deriving DecidableEq, Repr

namespace Answer

def text (shown : String) : Answer := ⟨shown, .goOn⟩

def fail (message : String) : Answer := ⟨"", .failed message⟩

def andThen (a b : Answer) : Answer :=
  match a.ending with
  | .goOn => ⟨a.shown ++ b.shown, b.ending⟩
  | _ => a

end Answer

namespace View

def ofRequest : ViewRequest → Except String View
  | .pc => .ok .pc
  | .register name =>
    match Reg.parse? name with
    | some r => .ok (.register r)
    | none => .error ("invalid register: " ++ name)
  | .registers start count => .ok (.registers start count)
  | .memory addr length =>
    match Numeral.readWord addr with
    | .ok v => .ok (.memory v length)
    | .error e => .error e.message

end View

namespace Session

variable {σ : Type}

def start (hart : Hart σ) (counting : Bool) : Session σ := ⟨hart, counting, []⟩

def memory (s : Session σ) : Memory := s.hart.machine.memory

def pc (s : Session σ) : Word := s.hart.machine.pc.current

def assemblyAt (s : Session σ) (addr : Word) : String :=
  match s.memory.fetch addr with
  | .ok c => Ink.instruction.write (disassemble c addr)
  | .error _ => Ink.invalid.write "<unmapped>"

def wordAt (s : Session σ) (addr : Word) : String :=
  match s.memory.fetch addr with
  | .ok c => Ink.data.write (Numeral.hexMarkedPadded 8 c.toNat)
  | .error _ => Ink.invalid.write "<invalid>"

def lineAt (s : Session σ) (addr : Word) : String := showAddress addr ++ ": " ++ s.assemblyAt addr

def greeting (s : Session σ) : String := s.lineAt s.pc ++ "\n"

def registerLine (s : Session σ) (r : Reg) : String :=
  showRegister r ++ " = " ++ showValue (s.hart.machine.registers.read r) ++ "\n"

/-- Registers by their numbers, up to the first that there is not. -/
def showRegisters (s : Session σ) : List Nat → Answer
  | [] => .text ""
  | i :: rest =>
    match Reg.ofNat? i with
    | some r =>
      let line := padded 4 (r.numericName ++ ".") ++ " " ++ s.registerLine r
      (Answer.text line).andThen (showRegisters s rest)
    | none => .fail "register index out of range."

/-- The largest number of a register in a range; a range does not go beyond it. -/
def lastIndex : Nat := 255

def cell (s : Session σ) (addr : Word) : String :=
  match s.memory.peek .byte addr with
  | .ok b => Numeral.hexPadded 2 b.toNat ++ " "
  | .error _ => "** "

def bytesPerLine : Nat := 16

def cells (s : Session σ) (addr : Word) (i : Nat) : (left : Nat) → Answer
  | 0 => .text (if i = 0 then "" else "\n")
  | left + 1 =>
    if addressLimit ≤ addr.toNat + i then ⟨"", .crashed .sumTooLarge⟩
    else
      let here := addr + BitVec.ofNat 64 i
      let heading :=
        if i % bytesPerLine = 0 then (if i = 0 then "" else "\n") ++ showAddress here ++ ": "
        else ""
      (Answer.text (heading ++ s.cell here)).andThen (cells s addr (i + 1) left)

def showView (s : Session σ) : View → Answer
  | .pc => .text ("pc = " ++ showAddress s.pc ++ "\n")
  | .register r => .text (s.registerLine r)
  | .registers start count =>
    s.showRegisters (List.range' start (min (start + count) lastIndex - start))
  | .memory addr length => s.cells addr 0 length

def showViews (s : Session σ) : List View → Answer
  | [] => .text ""
  | v :: rest => (s.showView v).andThen (showViews s rest)

def listLength : Nat := 10

def listing (s : Session σ) (addr : Nat) : (left : Nat) → Answer
  | 0 => .text ""
  | left + 1 =>
    let here := BitVec.ofNat 64 addr
    let mark := if here = s.pc then Ink.arrow.write ">" ++ " " else "  "
    let line := mark ++ showAddress here ++ ": " ++ s.wordAt here ++ " " ++
      s.assemblyAt here ++ "\n"
    (Answer.text line).andThen
      (if addressLimit ≤ addr + 4 then ⟨"", .crashed .sumTooLarge⟩ else listing s (addr + 4) left)

def numbered (s : Session σ) (label : String) (addrs : List Word) : String :=
  String.join (addrs.zipIdx.map fun (addr, i) =>
    showIndex i ++ ": " ++ label ++ showAddress addr ++ ", " ++ s.assemblyAt addr ++ "\n")

def stopLine (s : Session σ) : DebugStop → String
  | .stepsCompleted pc => showAddress pc ++ ": " ++ s.assemblyAt s.pc ++ "\n"
  | .breakpointHit pc => "breakpoint hit at pc = " ++ showAddress pc ++ ": " ++
      s.assemblyAt s.pc ++ "\n"

def proceed (s : Session σ) (fuel : Nat) (steps : Option Nat) : Answer × Session σ :=
  let (stop, hart) :=
    match steps with
    | some n => s.hart.continueUntil fuel n
    | none => s.hart.continueRun fuel
  let s := { s with hart := hart }
  match stop with
  | .ok stop => ((Answer.text (s.stopLine stop)).andThen (s.showViews s.watched), s)
  | .error e => (.fail ("step failed: " ++ e.message), s)

def withView (s : Session σ) (v : ViewRequest) (f : View → Answer × Session σ) :
    Answer × Session σ :=
  match View.ofRequest v with
  | .ok view => f view
  | .error message => (.fail message, s)

def withAddress (s : Session σ) (text : String)
    (f : Word → Answer × Session σ) : Answer × Session σ :=
  match Numeral.readWord text with
  | .ok addr => f addr
  | .error e => (.fail e.message, s)

def obey (s : Session σ) (fuel : Nat) : Command → Answer × Session σ
  | .print v => s.withView v fun view => (s.showView view, s)
  | .display v =>
    s.withView v fun view =>
      (.text "", if s.watched.contains view then s else { s with watched := s.watched ++ [view] })
  | .undisplay v =>
    s.withView v fun view => (.text "", { s with watched := s.watched.filter fun w => w ≠ view })
  | .list => (s.listing (s.pc.toNat - 4 * (listLength / 2)) listLength, s)
  | .history count =>
    let addrs := s.hart.debugger.history
    (.text (s.numbered "pc = " (addrs.drop (addrs.length - count))), s)
  | .proceed steps => s.proceed fuel steps
  | .setBreakpoint text =>
    s.withAddress text fun addr =>
      (.text ("set breakpoint at " ++ s.lineAt addr ++ "\n"),
        { s with hart := (s.hart.setBreakpoint addr).2 })
  | .clearBreakpoint text =>
    s.withAddress text fun addr =>
      let (wasSet, hart) := s.hart.clearBreakpoint addr
      if wasSet then
        (.text ("cleared breakpoint at " ++ s.lineAt addr ++ "\n"), { s with hart := hart })
      else (.fail ("no breakpoint at " ++ showAddress addr), s)
  | .breakpoints => (.text ("Breakpoints:\n" ++ s.numbered "" s.hart.debugger.breakpoints), s)
  | .stats =>
    (.text
      (if s.counting then (Stats.ofEvents s.hart.machine.events).render
        else "statistics are not collected in this session.\n"), s)
  | .quit => (⟨"", .quit⟩, s)

def respond (s : Session σ) (fuel : Nat) (line : String) : Answer × Session σ :=
  match readLine line with
  | .ok command => s.obey fuel command
  | .error r => (⟨"", .refused r⟩, s)

end Session

end RiscvHart.Console
