import RiscvHart.Word.Bytes

/-!
# The ChaCha generator

A stream of 32-bit words from the ChaCha function with twelve rounds. The stream is fixed by a
key of eight words, and a generator is a key with the place it has reached in its stream, so two
generators of one seed give the same bytes.
-/

namespace RiscvHart.ChaCha

abbrev Block := Vector UInt32 16

def rotateLeft (x : UInt32) (n : UInt32) : UInt32 := x <<< n ||| x >>> (32 - n)

def quarterRound (a b c d : Fin 16) (s : Block) : Block :=
  let s := s.set a (s[a] + s[b])
  let s := s.set d (rotateLeft (s[d] ^^^ s[a]) 16)
  let s := s.set c (s[c] + s[d])
  let s := s.set b (rotateLeft (s[b] ^^^ s[c]) 12)
  let s := s.set a (s[a] + s[b])
  let s := s.set d (rotateLeft (s[d] ^^^ s[a]) 8)
  let s := s.set c (s[c] + s[d])
  s.set b (rotateLeft (s[b] ^^^ s[c]) 7)

def doubleRound (s : Block) : Block :=
  let s := quarterRound 0 4 8 12 s
  let s := quarterRound 1 5 9 13 s
  let s := quarterRound 2 6 10 14 s
  let s := quarterRound 3 7 11 15 s
  let s := quarterRound 0 5 10 15 s
  let s := quarterRound 1 6 11 12 s
  let s := quarterRound 2 7 8 13 s
  quarterRound 3 4 9 14 s

def rounds (s : Block) : Block := Nat.repeat doubleRound 6 s

def constants : Vector UInt32 4 := #v[0x61707865, 0x3320646e, 0x79622d32, 0x6b206574]

/-- The block with a given number: the constants, the key, the number of the block
in two words and two zero words, mixed and added to what they were. -/
def block (key : Vector UInt32 8) (number : Nat) : Block :=
  let place : Vector UInt32 4 := #v[UInt32.ofNat number, UInt32.ofNat (number >>> 32), 0, 0]
  let start : Block := constants ++ key ++ place
  (rounds start).zipWith (· + ·) start

def stream (key : Vector UInt32 8) (start count : Nat) : List UInt32 :=
  let first := start / 16
  let blocks := (start + count + 15) / 16 - first
  let words := (List.range' first blocks).flatMap fun n => (block key n).toList
  (words.drop (start % 16)).take count

theorem length_stream (key : Vector UInt32 8) (start count : Nat) :
    (stream key start count).length = count := by
  simp only [stream, List.length_take, List.length_drop, List.length_flatMap, Vector.length_toList,
    List.map_const', List.length_range', List.sum_replicate_nat]
  omega

/-- One step of the generator that spreads a seed over a key. -/
def spread (s : UInt64) : UInt64 := s * 6364136223846793005 + 11634580027462260723

def spreadWord (s : UInt64) : UInt32 :=
  let x := (((s >>> 18) ^^^ s) >>> 27).toUInt32
  let r := (s >>> 59).toUInt32
  x >>> r ||| x <<< ((32 - r) % 32)

def spreadWords : (n : Nat) → UInt64 → Vector UInt32 n
  | 0, _ => #v[]
  | n + 1, s => (#v[spreadWord (spread s)] ++ spreadWords n (spread s)).cast (Nat.add_comm 1 n)

structure Generator where
  key : Vector UInt32 8
  taken : Nat
  deriving DecidableEq

namespace Generator

def ofSeed (seed : Word) : Generator := ⟨spreadWords 8 (UInt64.ofNat seed.toNat), 0⟩

/-- The next `n` bytes. Whole words are taken from the stream; what is left of the
last one is lost. -/
def bytes (g : Generator) (n : Nat) : List Byte × Generator :=
  let count := (n + 3) / 4
  let bs := (stream g.key g.taken count).flatMap fun w => LittleEndian.toBytes w.toNat 4
  (bs.take n, { g with taken := g.taken + count })

@[simp] theorem length_bytes (g : Generator) (n : Nat) : (g.bytes n).1.length = n := by
  simp only [bytes, List.length_take, List.length_flatMap, LittleEndian.length_toBytes,
    List.map_const', length_stream, List.sum_replicate_nat]
  omega

end Generator

end RiscvHart.ChaCha
