import RiscvHart.Isa.Action
import RiscvHart.Proofs.Isa.Arithmetic
import RiscvHart.Proofs.Word.LittleEndian
import Mathlib.Tactic.FinCases

/-!
# Loads and stores

What the instruction set prescribes for the instructions that access memory: the address, the
number of bytes, and what a load makes of them.
-/

namespace RiscvHart

namespace Isa

def loads : List Instr := [.lb, .lh, .lw, .lbu, .lhu, .lwu, .ld]

def stores : List Instr := [.sb, .sh, .sw, .sd]

def accessed (i : Instr) : Nat :=
  match i with
  | .lb | .lbu | .sb => 1
  | .lh | .lhu | .sh => 2
  | .lw | .lwu | .sw => 4
  | .ld | .sd => 8
  | _ => 0

/-- The immediate of a store, whose upper seven and lower five bits stand apart. -/
def immS (w : Nat) : Int := signed 12 (2 ^ 5 * bitsAt w 25 7 + bitsAt w 7 5)

def offset (i : Instr) (w : Nat) : Int := if i ∈ stores then immS w else immI w

/-- What a load puts into its destination, where the bytes it accesses spell `v`. -/
def loaded (i : Instr) (v : Int) : Int :=
  match i with
  | .lb => signed 8 v
  | .lh => signed 16 v
  | .lw => signed 32 v
  | _ => v

end Isa

open Isa

theorem Code.toInt_immS (c : Code) : c.immS.toInt = Isa.immS c.toNat := by
  rw [BitVec.toInt_eq_toNat_bmod, Isa.immS, signed, Code.immS]
  simp only [toNat_append, toNat_extractLsb']
  congr 1
  push_cast
  ring

/-- Moving the low bits to the top and back down divides by what they were multiplied by. -/
theorem Word.signExtendLow_ofInt (w : Width) (a : Int) :
    Word.signExtendLow (BitVec.ofInt 64 a) w.bits = BitVec.ofInt 64 (signed w.bits a) := by
  rw [signExtendLow, shiftLeft_ofInt, sshiftRight_ofInt, ofInt_eq_ofInt_iff, signed]
  cases w with
  | byte | half | word =>
    simp only [Width.bits, Width.bytes, Int.bmod]
    norm_num
    omega
  | double =>
    simp only [Width.bits, Width.bytes, Int.bmod]
    norm_num

theorem Word.signExtendLow_eq_ofInt (w : Width) (v : Word) :
    v.signExtendLow w.bits = BitVec.ofInt 64 (signed w.bits v.toNat) := by
  rw [← signExtendLow_ofInt, ← eq_ofInt_toNat]

namespace Isa

variable {i : Instr}

/-- A load accesses as many bytes as the instruction set says, and makes of them what it says. -/
theorem action_of_load (hi : i ∈ loads) :
    ∃ w sign, i.action = .load w sign ∧ w.bytes = accessed i ∧
      ∀ v : Word, (if sign then v.signExtendLow w.bits else v) =
        BitVec.ofInt 64 (loaded i v.toNat) := by
  have hplain : ∀ v : Word, v = BitVec.ofInt 64 v.toNat := Word.eq_ofInt_toNat
  cases i
  case lb => exact ⟨_, _, rfl, rfl, Word.signExtendLow_eq_ofInt .byte⟩
  case lh => exact ⟨_, _, rfl, rfl, Word.signExtendLow_eq_ofInt .half⟩
  case lw => exact ⟨_, _, rfl, rfl, Word.signExtendLow_eq_ofInt .word⟩
  case lbu => exact ⟨_, _, rfl, rfl, hplain⟩
  case lhu => exact ⟨_, _, rfl, rfl, hplain⟩
  case lwu => exact ⟨_, _, rfl, rfl, hplain⟩
  case ld => exact ⟨_, _, rfl, rfl, hplain⟩
  all_goals exact absurd hi (by decide)

theorem action_of_store (hi : i ∈ stores) : ∃ w, i.action = .store w ∧ w.bytes = accessed i := by
  fin_cases hi <;> exact ⟨_, rfl, rfl⟩

theorem offset_of_load (hi : i ∈ loads) (w : Nat) : offset i w = immI w := by
  fin_cases hi <;> exact if_neg (by decide)

theorem offset_of_store (hi : i ∈ stores) (w : Nat) : offset i w = immS w := if_pos hi

end Isa

end RiscvHart
