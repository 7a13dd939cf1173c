import RiscvHart.Kernel.Basic
import RiscvHart.Program.Span

/-!
# Serving system calls

A call finds its number in `a7` and its arguments in `a0` to `a5`, and leaves its result in `a0`.
A buffer that does not lie in one region makes a call fail with a bad address. Calls that the
kernel does not serve itself are passed on to the host as they are.
-/

namespace RiscvHart.Platform

variable {σ : Type}

open Exec

abbrev Arguments := Vector Word 6

def int32 (v : Word) : BitVec 32 := v.setWidth 32

def readCall (a : Arguments) : Exec (Platform σ) Int := do
  let s ← get
  let length := a[2].toNat
  if s.machine.memory.accessible a[1] length then
    let (result, data) ← consult fun host s =>
      let (reply, data) := host.read (int32 a[0]) length s
      ((reply.result, data), reply.state)
    let _ ← tryFill a[1] (data.take length)
    return result
  else
    return Errno.badAddress.result

def writeCall (a : Arguments) : Exec (Platform σ) Int := do
  match (← get).machine.memory.slice a[1] a[2].toNat with
  | .ok bytes => askHost fun host s => host.write (int32 a[0]) bytes s
  | .error _ => return Errno.badAddress.result

def largestResult : Int := 0x7FFFFFFFFFFFFFFF

/-- Writes the buffers of `left` entries from position `entry` on, after `total` bytes. It ends
with the first buffer that is not written in full. -/
def writeEntries (fd : BitVec 32) (entry : Nat) (total : Int) : (left : Nat) → Exec (Platform σ) Int
  | 0 => return total
  | left + 1 => do
    let memory := (← get).machine.memory
    if addressLimit ≤ entry then crash .sumTooLarge
    else
      match memory.peek .double (BitVec.ofNat 64 entry) with
      | .error _ => return Errno.badAddress.result
      | .ok base =>
        if addressLimit ≤ entry + 8 then crash .sumTooLarge
        else
          match memory.peek .double (BitVec.ofNat 64 (entry + 8)) with
          | .error _ => return Errno.badAddress.result
          | .ok length =>
            match memory.slice base length.toNat with
            | .error _ => return Errno.badAddress.result
            | .ok bytes =>
              let result ← askHost fun host s => host.write fd bytes s
              if result < 0 then
                return if total = 0 then result else total
              else if largestResult < total + result then crash .sumTooLarge
              else if result < length.toNat then return total + result
              else writeEntries fd (entry + 16) (total + result) left

def writevCall (a : Arguments) : Exec (Platform σ) Int :=
  writeEntries (int32 a[0]) a[1].toNat 0 a[2].toNat

def longestPath : Nat := 4096

def pathFrom (m : Memory) (pos : Nat) : (left : Nat) → Except (Failure MemoryError) (List Byte)
  | 0 => .ok []
  | left + 1 =>
    if addressLimit ≤ pos then .error (.crash .sumTooLarge)
    else
      match m.peek .byte (BitVec.ofNat 64 pos) with
      | .error e => .error (.error e)
      | .ok b => if b = 0 then .ok [] else (pathFrom m (pos + 1) left).map (b.setWidth 8 :: ·)

def openatCall (a : Arguments) : Exec (Platform σ) Int := do
  match pathFrom (← get).machine.memory a[1].toNat longestPath with
  | .error (.error _) => return Errno.badAddress.result
  | .error (.crash c) => crash c
  | .ok path => askHost fun host s => host.openat (int32 a[0]) path (int32 a[2]) (int32 a[3]) s

def terminalRecord : List Byte :=
  List.replicate 16 0 ++ LittleEndian.toBytes 0o020620 4 ++ List.replicate 36 0 ++
    LittleEndian.toBytes 1024 4 ++ List.replicate 68 0

/-- Describes a descriptor. Only the three standard ones are known, as terminals. -/
def fstatCall (a : Arguments) : Exec (Platform σ) Int := do
  if 2 < a[0].toNat then
    return Errno.badDescriptor.result
  else
    let done ← tryFill a[1] terminalRecord
    return if done then 0 else Errno.badAddress.result

/-- Moves the break, and gives it; gives the old one if it cannot be moved. -/
def brkCall (requested : Word) : Exec (Platform σ) Word := do
  let s ← get
  match s.machine.landmarks.get? Landmarks.heapStart,
    s.machine.landmarks.get? Landmarks.heapEnd with
  | some start, some finish =>
    if requested.toNat < start.toNat then
      return finish
    else
      let moved ← tryInPlace fun m => m.growHeapInPlace requested
      return if moved then requested else finish
  | _, _ => return 0

def mapFixed : Word := 0x10

def mapAnonymous : Word := 0x20

/-- Maps memory: at the address given, or after the last mapping. -/
def mmapCall (a : Arguments) : Exec (Platform σ) Int := do
  if a[1] = 0 ∨ a[3] &&& mapAnonymous = 0 then
    return Errno.invalidArgument.result
  else
    match Word.alignUp? a[1] (BitVec.ofNat 64 Span.pageSize) with
    | none => return Errno.outOfMemory.result
    | some size => do
      let fixed := a[3] &&& mapFixed ≠ 0
      let s ← get
      let target? := if fixed then some a[0] else s.machine.landmarks.get? Landmarks.mmapNext
      match target? with
      | none => return Errno.outOfMemory.result
      | some target =>
        match s.machine.allocate target size.toNat with
        | .ok m => do
          modifyMachine fun _ => m
          if ¬fixed then
            let next ← checkedAdd target size
            modifyMachine fun m => m.mark Landmarks.mmapNext next
          modify fun s => { s with kernel := s.kernel.record target size.toNat }
          return target.toInt
        | .error (.regionOverlap ..) =>
          return if fixed then Errno.invalidArgument.result else Errno.outOfMemory.result
        | .error _ => return Errno.outOfMemory.result

/-- Unmaps memory: only a whole mapping that was handed out. -/
def munmapCall (a : Arguments) : Exec (Platform σ) Int := do
  let s ← get
  let whole :=
    match Word.alignUp? a[1] (BitVec.ofNat 64 Span.pageSize) with
    | some size => s.kernel.mappings.lookup a[0] == some size.toNat
    | none => false
  if a[1] = 0 ∨ whole = false then
    return Errno.invalidArgument.result
  else do
    modify fun s => { s with kernel := s.kernel.forget a[0] }
    match s.machine.release a[0] with
    | .ok (_, m) => do
      modifyMachine fun _ => m
      return 0
    | .error _ => return Errno.invalidArgument.result

def utsnameFieldLength : Nat := 65

def utsnameFields : List String := ["Linux", "hartsim", "6.1.0", "#1 SMP", "riscv64", ""]

/-- The system's description: its fields, each filled up with zeros. -/
def utsname : List Byte :=
  utsnameFields.flatMap fun field =>
    let bytes := Text.utf8 field
    bytes ++ List.replicate (utsnameFieldLength - bytes.length) 0

def unameCall (a : Arguments) : Exec (Platform σ) Int := do
  let done ← tryFill a[0] utsname
  return if done then 0 else Errno.badAddress.result

def clockGettimeCall (a : Arguments) : Exec (Platform σ) Int := do
  let s ← get
  let clock := if a[0] = 0 then Clock.realtime else Clock.elapsed
  let (seconds, nanoseconds) := s.kernel.host.clock clock s.kernel.hostState
  if ← tryFill a[1] (seconds.toBytes .double) then
    if ← tryFill (← checkedAdd a[1] 8) (nanoseconds.toBytes .double) then
      return 0
    else
      return Errno.badAddress.result
  else
    return Errno.badAddress.result

def getrandomCall (a : Arguments) : Exec (Platform σ) Int := do
  let s ← get
  let length := a[1].toNat
  if s.machine.memory.accessible a[0] length then
    let (bytes, random) := s.kernel.random.bytes length
    modify fun s => { s with kernel := { s.kernel with random := random } }
    let _ ← tryFill a[0] bytes
    return a[1].toInt
  else
    return Errno.badAddress.result

def passOn (c : Syscall) (a : Arguments) : Exec (Platform σ) Int := do
  let s ← get
  match s.kernel.host.remap s.kernel.hostState c with
  | some number => askHost fun host s => host.invoke number (a.toList.map .value) s
  | none => fault (.syscallUnimplemented (BitVec.ofNat 64 c.number))

/-- Serves a call. Gives its result, or none if the call does not return. -/
def serve (c : Syscall) (a : Arguments) : Exec (Platform σ) (Option Int) :=
  match c with
  | .exit | .exitGroup => do
    modifyMachine fun m => { m with exitCode := some (int32 a[0]) }
    return none
  | .read => some <$> readCall a
  | .write => some <$> writeCall a
  | .writev => some <$> writevCall a
  | .openat => some <$> openatCall a
  | .fstat => some <$> fstatCall a
  | .brk => (fun v => some v.toInt) <$> brkCall a[0]
  | .mmap => some <$> mmapCall a
  | .munmap => some <$> munmapCall a
  | .setTidAddress => return some 1
  | .uname => some <$> unameCall a
  | .clockGettime => some <$> clockGettimeCall a
  | .ioctl => return some Errno.notTerminal.result
  | .rtSigaction | .rtSigprocmask => return some 0
  | .getrandom => some <$> getrandomCall a
  | .close | .lseek | .getpid | .getppid | .getuid | .geteuid | .getgid | .getegid =>
    some <$> passOn c a

def arguments (m : Machine) : Arguments := Vector.ofFn fun i => m.registers.read (Reg.argument i)

def environmentCall : Exec (Platform σ) Unit := do
  let m := (← get).machine
  let number := m.registers.read Reg.a7
  let a := arguments m
  match Syscall.ofNumber? number with
  | none => do
    modifyMachine fun m => m.emit (.remarked (.unknownSyscall number a.toList))
    fault (.syscallUnimplemented number)
  | some c => do
    match ← serve c a with
    | some result => modifyMachine fun m => m.writeRegister Reg.a0 (BitVec.ofInt 64 result)
    | none => return ()

end RiscvHart.Platform
