import RiscvHart.Machine.Exec
import RiscvHart.Machine.Log
import RiscvHart.Register.Bank

/-!
# The machine

Everything that an instruction can see or change: program counter, registers, memory, the named
addresses of the process, and the marks that executed instructions leave for whoever runs the
machine. The machine also keeps the list of its events.
-/

namespace RiscvHart

/-- The program counter, with the place it came from. -/
structure ProgramCounter where
  current : Word
  previous : Word
  deriving DecidableEq, Repr

namespace ProgramCounter

def start (v : Word) : ProgramCounter := ⟨v, v⟩

def write (pc : ProgramCounter) (v : Word) : ProgramCounter := ⟨v, pc.current⟩

end ProgramCounter

/-- Addresses with names, in the order in which the names came up. -/
structure Landmarks where
  entries : List (String × Word)
  deriving DecidableEq, Repr

namespace Landmarks

def entry : String := "entry"
def heapStart : String := "heap_start"
def heapEnd : String := "heap_end"
def stackStart : String := "stack_start"
def stackEnd : String := "stack_end"
def mmapNext : String := "mmap_next"

def get? (l : Landmarks) (name : String) : Option Word := l.entries.lookup name

def set (l : Landmarks) (name : String) (addr : Word) : Landmarks :=
  ⟨l.entries.filter (fun e => e.1 ≠ name) ++ [(name, addr)]⟩

private theorem lookup_filter_ne (es : List (String × Word)) {n m : String} (h : m ≠ n) :
    (es.filter fun e => e.1 ≠ n).lookup m = es.lookup m := by
  induction es with
  | nil => rfl
  | cons e rest ih =>
    obtain ⟨k, v⟩ := e
    by_cases hk : k = n
    · subst hk
      simp only [List.filter, ne_eq, not_true_eq_false, decide_false, List.lookup_cons,
        beq_false_of_ne h, ih]
    · simp only [List.filter, ne_eq, hk, not_false_eq_true, decide_true, List.lookup_cons, ih]

private theorem lookup_filter_self (es : List (String × Word)) (n : String) :
    (es.filter fun e => e.1 ≠ n).lookup n = none := by
  rw [List.lookup_eq_none_iff]
  intro e he
  simp only [List.mem_filter, decide_eq_true_eq, ne_eq] at he
  simpa using fun h => he.2 h.symm

theorem get?_set_self (l : Landmarks) (name : String) (addr : Word) :
    (l.set name addr).get? name = some addr := by
  simp only [get?, set, List.lookup_append, lookup_filter_self]
  simp

theorem get?_set_ne (l : Landmarks) {name other : String} (addr : Word) (h : other ≠ name) :
    (l.set name addr).get? other = l.get? other := by
  simp only [get?, set, List.lookup_append, lookup_filter_ne _ h, List.lookup_cons,
    beq_false_of_ne h, List.lookup_nil, Option.or_none]

end Landmarks

/-- Why a run ends without a fault. -/
inductive HaltReason where
  /-- The guest ended the process; the code is a signed number of 32 bits. -/
  | exited (code : BitVec 32)
  /-- A breakpoint instruction was executed with nobody to take care of it. -/
  | breakpoint (addr : Word)
  /-- The last instruction jumps to itself, as the idle loop of a bare program does. -/
  | selfJump (addr : Word)
  /-- The program counter has left the mapped memory. -/
  | pcOutOfRange (addr : Word)
  deriving DecidableEq, Repr

structure Machine where
  pc : ProgramCounter
  registers : Registers
  memory : Memory
  landmarks : Landmarks
  /-- Whether a breakpoint instruction pauses the hart and does not end the run. -/
  pausesOnBreakpoint : Bool
  pauseRequested : Bool
  /-- The address of a breakpoint instruction that nobody took care of. -/
  breakpoint : Option Word
  last : Option Executed
  exitCode : Option (BitVec 32)
  /-- Why the run ended, once it has. -/
  haltReason : Option HaltReason
  /-- The fault that ended the run. -/
  fault : Option Fault
  log : EventLog

namespace Machine

def start (memory : Memory) (entry : Word) : Machine where
  pc := .start entry
  registers := .zero gpr
  memory := memory
  landmarks := ⟨[(Landmarks.entry, entry)]⟩
  pausesOnBreakpoint := false
  pauseRequested := false
  breakpoint := none
  last := none
  exitCode := none
  haltReason := none
  fault := none
  log := .empty

def events (m : Machine) : List Event := m.log.toList

def emit (m : Machine) (e : Event) : Machine := { m with log := m.log.add e }

def mark (m : Machine) (name : String) (addr : Word) : Machine :=
  { m with landmarks := m.landmarks.set name addr }

def jump (m : Machine) (target : Word) : Machine := { m with pc := m.pc.write target }

def readRegister (m : Machine) (r : Reg) : Word × Machine :=
  let v := m.registers.read r
  (v, m.emit (.registerRead r v))

/-- Writes a register, which is an event even for `x0`. -/
def writeRegister (m : Machine) (r : Reg) (v : Word) : Machine :=
  let old := m.registers.read r
  { m with registers := m.registers.write r v }.emit (.registerWrite r v old)

def setRegister (m : Machine) (r : Reg) (v : Word) : Machine :=
  { m with registers := m.registers.write r v }

def load (m : Machine) (w : Width) (addr : Word) : Except MemoryError (Word × Machine) :=
  (m.memory.peek w addr).map fun v => (v, m.emit (.memoryRead addr v w))

def store (m : Machine) (w : Width) (addr v : Word) : Except MemoryError Machine := do
  let old ← m.memory.peek w addr
  let written ← m.memory.poke w addr (v.cut w)
  return { m with memory := written }.emit (.memoryWrite addr (v.cut w) old w)

/-- Writes bytes to memory without an event. -/
def fill (m : Machine) (addr : Word) (bs : List Byte) : Except MemoryError Machine :=
  (m.memory.fill addr bs).map fun written => { m with memory := written }

/-- Maps memory, which is an event unless no bytes are asked for. -/
def allocate (m : Machine) (addr : Word) (size : Nat) : Except MemoryError Machine :=
  (m.memory.allocate addr size).map fun mapped =>
    let after := { m with memory := mapped }
    if size = 0 then after else after.emit (.allocated addr size)

/-- Changes the size of a region. Added bytes are an event. -/
def resizeInPlace (m : Machine) (base : Word) (size : Nat) : Except MemoryError Unit × Machine :=
  match m.memory.resizeInPlace base size with
  | (.error e, left) => (.error e, { m with memory := left })
  | (.ok (), resized) =>
    let after := { m with memory := resized }
    (.ok (),
      match m.memory.regionFrom? base with
      | some r =>
        if r.size < size then
          after.emit (.allocated (base + BitVec.ofNat 64 r.size) (size - r.size))
        else after
      | none => after)

def release (m : Machine) (base : Word) : Except MemoryError (Nat × Machine) :=
  (m.memory.release base).map fun (size, rest) => (size, { m with memory := rest })

def haltReason? (m : Machine) : Option HaltReason :=
  match m.exitCode, m.breakpoint with
  | some code, _ => some (.exited code)
  | none, some addr => some (.breakpoint addr)
  | none, none =>
    let pc := m.pc.current
    if m.last.any fun l => l.instr = .jal && l.pc = pc then some (.selfJump pc)
    else if m.memory.contains pc then none
    else some (.pcOutOfRange pc)

end Machine

end RiscvHart
