import RiscvHart.Machine.Event
import RiscvHart.Text.Ratio

/-!
# Statistics

Counts over the events of a run: completed instructions, in all and of each kind; accesses to
memory and registers; and transfers, which are the instructions after which the program counter
did not just move on.
-/

namespace RiscvHart

structure Stats where
  instructions : Nat
  loads : Nat
  stores : Nat
  registerReads : Nat
  registerWrites : Nat
  transfers : Nat
  /-- How often each instruction was completed. -/
  perInstr : Instr → Nat

namespace Stats

def zero : Stats := ⟨0, 0, 0, 0, 0, 0, fun _ => 0⟩

def countWhere (events : List Event) (p : Event → Bool) : Nat := (events.filter p).length

def ofEvents (events : List Event) : Stats where
  instructions := countWhere events fun | .after .. => true | _ => false
  loads := countWhere events fun | .memoryRead .. => true | _ => false
  stores := countWhere events fun | .memoryWrite .. => true | _ => false
  registerReads := countWhere events fun | .registerRead .. => true | _ => false
  registerWrites := countWhere events fun | .registerWrite .. => true | _ => false
  transfers := countWhere events fun | .after last pc => pc != last.pc + 4 | _ => false
  perInstr i := countWhere events fun | .after last _ => last.instr == i | _ => false

def perInstruction (s : Stats) (count : Nat) : Binary := Binary.ofRatio count (max s.instructions 1)

/-- The instructions that occurred with their counts, the most frequent first; of equal ones the
first of the instruction set. -/
def mix (s : Stats) : List (Instr × Nat) :=
  let counts := (Instr.all.map fun i => (i, s.perInstr i)).filter fun (_, n) => n ≠ 0
  counts.mergeSort fun a b => b.2 ≤ a.2

def row (label value : String) : String :=
  let label := label ++ " "
  "  " ++ label ++ String.ofList (List.replicate (32 - label.length) '.') ++ " " ++ value ++ "\n"

def share (s : Stats) (count : Nat) : String :=
  Numeral.decimal count ++ " (" ++ ((s.perInstruction count).scale 100).render 1 ++ "%)"

def render (s : Stats) : String :=
  let counts :=
    [("instructions", s.instructions), ("loads", s.loads), ("stores", s.stores),
      ("register reads", s.registerReads), ("register writes", s.registerWrites),
      ("taken control transfers", s.transfers)]
  let ratios :=
    [("loads/instruction", s.loads), ("stores/instruction", s.stores),
      ("transfers/instruction", s.transfers)]
  "Statistics\n Raw Counts\n" ++
    String.join (counts.map fun (label, n) => row label (Numeral.decimal n)) ++
    " Computed\n" ++
    String.join (ratios.map fun (label, n) => row label ((s.perInstruction n).render 4)) ++
    " Instruction Mix\n" ++
    String.join (s.mix.map fun (i, n) => row i.mnemonic (s.share n))

end Stats

end RiscvHart
