import RiscvHart.Isa.Alu
import RiscvHart.Proofs.Isa.Prescribed
import RiscvHart.Proofs.Word.Integers
import Mathlib.Tactic.Ring

/-!
# Arithmetic of the hart and of the instruction set

The hart computes on words and takes its immediates out of the fields of the instruction word.
Both agree with the integers that the instruction set speaks of.
-/

namespace RiscvHart

open Isa

/-! ## Fields and immediates -/

namespace Code

variable (c : Code)

theorem toNat_extractLsb' (lsb count : Nat) :
    (c.extractLsb' lsb count).toNat = bitsAt c.toNat lsb count := by
  rw [BitVec.extractLsb'_toNat, Nat.shiftRight_eq_div_pow, bitsAt]

theorem extractLsb'_eq_ofNat (lsb count : Nat) :
    c.extractLsb' lsb count = BitVec.ofNat count (bitsAt c.toNat lsb count) := by
  rw [← toNat_extractLsb', BitVec.ofNat_toNat, BitVec.setWidth_eq]

theorem rd_eq : c.rd = Isa.rd c.toNat := c.extractLsb'_eq_ofNat 7 5

theorem rs1_eq : c.rs1 = Isa.rs1 c.toNat := c.extractLsb'_eq_ofNat 15 5

theorem rs2_eq : c.rs2 = Isa.rs2 c.toNat := c.extractLsb'_eq_ofNat 20 5

theorem toNat_append {n m : Nat} (x : BitVec n) (y : BitVec m) :
    (x ++ y).toNat = x.toNat * 2 ^ m + y.toNat := by
  rw [BitVec.toNat_append, ← Nat.shiftLeft_add_eq_or_of_lt y.isLt, Nat.shiftLeft_eq]

theorem toInt_immI : c.immI.toInt = Isa.immI c.toNat := by
  rw [BitVec.toInt_eq_toNat_bmod, immI, toNat_extractLsb']
  rfl

theorem toInt_immB : c.immB.toInt = Isa.immB c.toNat := by
  rw [BitVec.toInt_eq_toNat_bmod, Isa.immB, signed, immB]
  simp only [toNat_append, toNat_extractLsb', BitVec.toNat_ofNat]
  congr 1
  push_cast
  ring

theorem toInt_immU : c.immU.toInt = Isa.immU c.toNat := by
  rw [BitVec.toInt_eq_toNat_bmod, Isa.immU, signed, immU]
  simp only [toNat_append, toNat_extractLsb', BitVec.toNat_ofNat]
  congr 1
  push_cast
  ring

theorem toInt_immJ : c.immJ.toInt = Isa.immJ c.toNat := by
  rw [BitVec.toInt_eq_toNat_bmod, Isa.immJ, signed, immJ]
  simp only [toNat_append, toNat_extractLsb', BitVec.toNat_ofNat]
  congr 1
  push_cast
  ring

end Code

/-! ## Operations -/

namespace Alu

variable (a b : Int)

theorem add_ofInt :
    add (BitVec.ofInt 64 a) (BitVec.ofInt 64 b) = BitVec.ofInt 64 (computed .add a b) :=
  (BitVec.ofInt_add a b).symm

theorem sub_ofInt :
    sub (BitVec.ofInt 64 a) (BitVec.ofInt 64 b) = BitVec.ofInt 64 (computed .sub a b) :=
  (Word.ofInt_sub a b).symm

theorem flag_decide (p : Prop) [Decidable p] :
    flag (decide p) = BitVec.ofInt 64 (if p then 1 else 0) := by
  by_cases hp : p
  · rw [decide_eq_true hp, if_pos hp]
    rfl
  · rw [decide_eq_false hp, if_neg hp]
    rfl

theorem setLessSigned_ofInt :
    setLessSigned (BitVec.ofInt 64 a) (BitVec.ofInt 64 b) =
      BitVec.ofInt 64 (computed .slt a b) := by
  rw [setLessSigned, lessSigned, Word.slt_ofInt, flag_decide]
  rfl

theorem setLessUnsigned_ofInt :
    setLessUnsigned (BitVec.ofInt 64 a) (BitVec.ofInt 64 b) =
      BitVec.ofInt 64 (computed .sltu a b) := by
  rw [setLessUnsigned, lessUnsigned, Word.ult_ofInt, flag_decide]
  rfl

theorem toNat_ofInt_unsigned : (BitVec.ofInt 64 a).toNat = (unsigned 64 a).toNat := by
  rw [← Int.toNat_natCast (BitVec.ofInt 64 a).toNat, Word.natCast_toNat_ofInt, unsigned]

theorem xor_ofInt :
    xor (BitVec.ofInt 64 a) (BitVec.ofInt 64 b) = BitVec.ofInt 64 (computed .xor a b) := by
  rw [xor, Word.eq_ofInt_toNat (BitVec.ofInt 64 a ^^^ BitVec.ofInt 64 b), BitVec.toNat_xor,
    toNat_ofInt_unsigned, toNat_ofInt_unsigned]
  rfl

theorem or_ofInt :
    or (BitVec.ofInt 64 a) (BitVec.ofInt 64 b) = BitVec.ofInt 64 (computed .or a b) := by
  rw [or, Word.eq_ofInt_toNat (BitVec.ofInt 64 a ||| BitVec.ofInt 64 b), BitVec.toNat_or,
    toNat_ofInt_unsigned, toNat_ofInt_unsigned]
  rfl

theorem and_ofInt :
    and (BitVec.ofInt 64 a) (BitVec.ofInt 64 b) = BitVec.ofInt 64 (computed .and a b) := by
  rw [and, Word.eq_ofInt_toNat (BitVec.ofInt 64 a &&& BitVec.ofInt 64 b), BitVec.toNat_and,
    toNat_ofInt_unsigned, toNat_ofInt_unsigned]
  rfl

/-! ### Shifts -/

/-- A shift amount counts modulo a power of two, and so may be taken from any number that agrees
with the word in its low bits. -/
theorem amount_ofInt {k : Nat} (hk : k ∣ 2 ^ 64) :
    (BitVec.ofInt 64 b).toNat % k = (b % k).toNat := by
  have hcast : (((BitVec.ofInt 64 b).toNat % k : Nat) : Int) = b % k := by
    push_cast
    rw [Word.natCast_toNat_ofInt, Int.emod_emod_of_dvd]
    exact_mod_cast hk
  rw [← hcast, Int.toNat_natCast]

theorem shiftLeft_ofInt :
    shiftLeft (BitVec.ofInt 64 a) (BitVec.ofInt 64 b) = BitVec.ofInt 64 (computed .sll a b) := by
  rw [shiftLeft, amount_ofInt b (by decide), Word.shiftLeft_ofInt]
  rfl

theorem shiftRight_ofInt :
    shiftRight (BitVec.ofInt 64 a) (BitVec.ofInt 64 b) = BitVec.ofInt 64 (computed .srl a b) := by
  rw [shiftRight, amount_ofInt b (by decide), Word.ushiftRight_ofInt]
  rfl

theorem shiftRightSigned_ofInt :
    shiftRightSigned (BitVec.ofInt 64 a) (BitVec.ofInt 64 b) =
      BitVec.ofInt 64 (computed .sra a b) := by
  rw [shiftRightSigned, amount_ofInt b (by decide), Word.sshiftRight_ofInt]
  rfl

/-! ### The low 32 bits -/

theorem lowW_ofInt : lowW (BitVec.ofInt 64 a) = BitVec.ofInt 32 a :=
  Word.setWidth_ofInt (by decide) a

theorem extendW_ofInt : extendW (BitVec.ofInt 32 a) = BitVec.ofInt 64 (signed 32 a) := by
  rw [extendW, Word.signExtend_eq_ofInt, BitVec.toInt_ofInt, signed]

theorem addW_ofInt :
    addW (BitVec.ofInt 64 a) (BitVec.ofInt 64 b) = BitVec.ofInt 64 (computed .addw a b) := by
  rw [addW, lowW_ofInt, lowW_ofInt, ← BitVec.ofInt_add, extendW_ofInt]
  rfl

theorem subW_ofInt :
    subW (BitVec.ofInt 64 a) (BitVec.ofInt 64 b) = BitVec.ofInt 64 (computed .subw a b) := by
  rw [subW, lowW_ofInt, lowW_ofInt, ← Word.ofInt_sub, extendW_ofInt]
  rfl

theorem shiftLeftW_ofInt :
    shiftLeftW (BitVec.ofInt 64 a) (BitVec.ofInt 64 b) = BitVec.ofInt 64 (computed .sllw a b) := by
  rw [shiftLeftW, lowW_ofInt, amount_ofInt b (by decide), Word.shiftLeft_ofInt, extendW_ofInt]
  rfl

theorem shiftRightW_ofInt :
    shiftRightW (BitVec.ofInt 64 a) (BitVec.ofInt 64 b) = BitVec.ofInt 64 (computed .srlw a b) := by
  rw [shiftRightW, lowW_ofInt, amount_ofInt b (by decide), Word.ushiftRight_ofInt, extendW_ofInt]
  rfl

theorem shiftRightSignedW_ofInt :
    shiftRightSignedW (BitVec.ofInt 64 a) (BitVec.ofInt 64 b) =
      BitVec.ofInt 64 (computed .sraw a b) := by
  rw [shiftRightSignedW, lowW_ofInt, amount_ofInt b (by decide), extendW,
    Word.signExtend_eq_ofInt, BitVec.toInt_sshiftRight, BitVec.toInt_ofInt,
    Int.shiftRight_eq_div_pow]
  push_cast
  rfl

end Alu

end RiscvHart
