import RiscvHart.Kernel.Heap
import RiscvHart.Program.Span
import RiscvHart.Random.ChaCha
import RiscvHart.Text.Utf8

/-!
# The first state of a process

A process finds its stack mapped and its stack pointer on a block of words: the number of
arguments, the addresses of the arguments, a zero, the addresses of the settings of the
environment, a zero, and pairs of a kind and a value that end with a pair of zeros. The texts lie
on the heap, after sixteen random bytes.
-/

namespace RiscvHart

structure ProcessArgs where
  arguments : List String
  /-- The settings of the environment, each a key with its value. -/
  environment : List (String × String)

structure Config where
  /-- The number of bytes that all regions together may have. -/
  arenaSize : Word
  heapStart : Word
  stackStart : Word
  stackSize : Word
  /-- Where the first mapping without a fixed address goes. -/
  mmapBase : Word
  /-- The seed of everything that is random for the guest. -/
  seed : Word
  deriving DecidableEq, Repr

namespace Config

/-- The layout of a hart for which none is asked. -/
def standard : Config where
  arenaSize := 0x10000000
  heapStart := 0x100000000
  stackStart := 0x7fffffff00000000
  stackSize := 0x10000
  mmapBase := 0x200000000000
  seed := 0x5eed

end Config

namespace Bootstrap

/-- The block on the stack takes a multiple of so many bytes. -/
def stackAlign : Word := 128

def randomLength : Nat := 16

def kindEnd : Word := 0

def kindPageSize : Word := 6

def kindRandom : Word := 25

/-- The words of the block, from the addresses of the texts and of the random bytes. -/
def words (arguments environment : List Word) (random : Word) : List Word :=
  BitVec.ofNat 64 arguments.length :: arguments ++ 0 :: environment ++
    [0, kindPageSize, BitVec.ofNat 64 Span.pageSize, kindRandom, random, kindEnd, 0]

def takeHeap (length : Nat) : Exec Machine Word := do
  match (← Exec.get).landmarks.get? Landmarks.heapEnd with
  | none => Exec.fault .invalidState
  | some addr => do
    let finish ← Exec.checkedAdd addr (BitVec.ofNat 64 length)
    Exec.inPlace fun m => m.growHeapInPlace finish
    return addr

def put (addr : Word) (bs : List Byte) : Exec Machine Unit :=
  Exec.attempt fun m => (m.fill addr bs).map fun m' => ((), m')

/-- Puts bytes and a zero after them at the end of the heap. Gives their address. -/
def putText (bs : List Byte) : Exec Machine Word := do
  let addr ← takeHeap (bs.length + 1)
  put addr bs
  return addr

/-- Puts several texts at the end of the heap. Gives their addresses. -/
def putTexts : List (List Byte) → Exec Machine (List Word)
  | [] => return []
  | bs :: rest => do
    let addr ← putText bs
    let others ← putTexts rest
    return addr :: others

/-- Writes words one after the other, the first of them as word number `i` above an address. -/
def putWords (addr : Word) : (i : Nat) → List Word → Exec Machine Unit
  | _, [] => return ()
  | i, w :: rest => do
    let place ← Exec.checkedAdd addr (BitVec.ofNat 64 (8 * i))
    Exec.attempt fun m =>
      (m.memory.poke .double place w).map fun memory => ((), { m with memory := memory })
    putWords addr (i + 1) rest

/-- Maps the stack. Gives its end. -/
def mapStack (config : Config) : Exec Machine Word := do
  let finish ← Exec.checkedAdd config.stackStart config.stackSize
  Exec.attempt fun m =>
    (m.allocate config.stackStart config.stackSize.toNat).map fun m' =>
      ((), (m'.mark Landmarks.stackStart config.stackStart).mark Landmarks.stackEnd finish)
  return finish

/-- Puts the block at the end of the stack and the stack pointer on its first word. -/
def putBlock (config : Config) (stackEnd : Word) (block : List Word) : Exec Machine Unit :=
  if addressLimit ≤ 8 * block.length then Exec.crash .sumTooLarge
  else
    let length := BitVec.ofNat 64 (8 * block.length)
    match Word.alignUp? length stackAlign with
    | none => Exec.fault (.outOfMemory length.toNat)
    | some size =>
      if config.stackSize.toNat < size.toNat then
        Exec.fault (.outOfMemory size.toNat)
      else do
        let sp ← Exec.checkedSub stackEnd size
        putWords sp 0 block
        Exec.modify fun m => m.setRegister Reg.sp sp

end Bootstrap

namespace Machine

open Bootstrap

def bootstrap (args : ProcessArgs) (config : Config) : Exec Machine Unit := do
  Exec.modify fun m =>
    ((m.mark Landmarks.heapStart config.heapStart).mark Landmarks.heapEnd config.heapStart).mark
      Landmarks.mmapNext config.mmapBase
  let stackEnd ← mapStack config
  let random ← takeHeap randomLength
  put random ((ChaCha.Generator.ofSeed config.seed).bytes randomLength).1
  let arguments ← putTexts (args.arguments.map Text.utf8)
  let environment ← putTexts (args.environment.map fun (k, v) => Text.utf8 (k ++ "=" ++ v))
  putBlock config stackEnd (words arguments environment random)

end Machine

end RiscvHart
