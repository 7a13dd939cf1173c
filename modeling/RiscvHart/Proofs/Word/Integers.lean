import RiscvHart.Word.Fields
import Mathlib.Algebra.Order.Ring.Int
import Mathlib.Tactic.Positivity

/-!
# Words as integers

A word stands for an integer up to a multiple of a power of two. Each operation on words is shown
to be one on integers, whichever integers the words are taken from; so a chain of operations can
be followed in the integers, and reduced once at the end.
-/

namespace RiscvHart.Word

variable {n k : Nat}

theorem eq_ofInt_toNat (x : BitVec n) : x = BitVec.ofInt n x.toNat := by
  rw [BitVec.ofInt_natCast, BitVec.ofNat_toNat, BitVec.setWidth_eq]

theorem natCast_toNat_ofInt (a : Int) : ((BitVec.ofInt n a).toNat : Int) = a % 2 ^ n := by
  have hpos : (0 : Int) < 2 ^ n := by positivity
  rw [BitVec.toNat_ofInt]
  push_cast
  exact Int.toNat_of_nonneg (Int.emod_nonneg a (by omega))

theorem ofInt_eq_ofInt_iff {a b : Int} :
    BitVec.ofInt n a = BitVec.ofInt n b ↔ a % 2 ^ n = b % 2 ^ n := by
  constructor
  · intro h
    rw [← natCast_toNat_ofInt, h, natCast_toNat_ofInt]
  · intro h
    apply BitVec.eq_of_toNat_eq
    apply Int.ofNat_inj.mp
    rw [natCast_toNat_ofInt, natCast_toNat_ofInt, h]

theorem ofInt_sub (a b : Int) :
    BitVec.ofInt n (a - b) = BitVec.ofInt n a - BitVec.ofInt n b := by
  rw [Int.sub_eq_add_neg, BitVec.ofInt_add, BitVec.ofInt_neg, BitVec.sub_eq_add_neg]

theorem signExtend_eq_ofInt (x : BitVec n) : x.signExtend k = BitVec.ofInt k x.toInt := rfl

theorem setWidth_ofInt (h : n ≤ k) (a : Int) :
    (BitVec.ofInt k a).setWidth n = BitVec.ofInt n a := by
  have hdvd : (2 : Int) ^ n ∣ 2 ^ k := pow_dvd_pow 2 h
  apply BitVec.eq_of_toNat_eq
  apply Int.ofNat_inj.mp
  rw [BitVec.toNat_setWidth]
  push_cast
  rw [natCast_toNat_ofInt, natCast_toNat_ofInt, Int.emod_emod_of_dvd a hdvd]

theorem shiftLeft_ofInt (a : Int) (k : Nat) :
    BitVec.ofInt n a <<< k = BitVec.ofInt n (a * 2 ^ k) := by
  have hpow : BitVec.twoPow n k = BitVec.ofInt n (2 ^ k) := by
    apply BitVec.eq_of_toNat_eq
    apply Int.ofNat_inj.mp
    rw [BitVec.toNat_twoPow, natCast_toNat_ofInt]
    push_cast
    rfl
  rw [BitVec.shiftLeft_eq_mul_twoPow, hpow, BitVec.ofInt_mul]

/-- Shifting in zeros divides the unsigned number and rounds down. -/
theorem ushiftRight_ofInt (a : Int) (k : Nat) :
    BitVec.ofInt n a >>> k = BitVec.ofInt n (a % 2 ^ n / 2 ^ k) := by
  rw [eq_ofInt_toNat (BitVec.ofInt n a >>> k), BitVec.toNat_ushiftRight, Nat.shiftRight_eq_div_pow]
  push_cast
  rw [natCast_toNat_ofInt]

/-- Shifting in copies of the sign divides the signed number and rounds down. -/
theorem sshiftRight_ofInt (a : Int) (k : Nat) :
    (BitVec.ofInt n a).sshiftRight k = BitVec.ofInt n (a.bmod (2 ^ n) / 2 ^ k) := by
  rw [BitVec.sshiftRight_eq, Int.shiftRight_eq_div_pow, BitVec.toInt_ofInt]
  push_cast
  rfl

theorem slt_ofInt (a b : Int) :
    (BitVec.ofInt n a).slt (BitVec.ofInt n b) = decide (a.bmod (2 ^ n) < b.bmod (2 ^ n)) := by
  rw [BitVec.slt_eq_decide, BitVec.toInt_ofInt, BitVec.toInt_ofInt]

theorem ult_ofInt (a b : Int) :
    (BitVec.ofInt n a).ult (BitVec.ofInt n b) = decide (a % 2 ^ n < b % 2 ^ n) := by
  rw [BitVec.ult_eq_decide, ← natCast_toNat_ofInt, ← natCast_toNat_ofInt]
  exact decide_eq_decide.mpr Int.ofNat_lt.symm

theorem beq_ofInt (a b : Int) :
    (BitVec.ofInt n a == BitVec.ofInt n b) = decide (a % 2 ^ n = b % 2 ^ n) := by
  rw [Bool.eq_iff_iff, beq_iff_eq, ofInt_eq_ofInt_iff, decide_eq_true_iff]

/-- Clearing the lowest bit takes off the remainder by two. -/
theorem clearLowest_ofInt (a : Int) :
    BitVec.ofInt 64 a &&& ~~~(1 : Word) = BitVec.ofInt 64 (a - a % 2) := by
  have hshift : ∀ x : Word, x &&& ~~~(1 : Word) = x >>> 1 <<< 1 := by
    intro x
    change x &&& ~~~1#64 = _
    ext i hi
    simp only [BitVec.getElem_and, BitVec.getElem_not, BitVec.getElem_shiftLeft,
      BitVec.getElem_ushiftRight, BitVec.getElem_one]
    by_cases hzero : i = 0
    · simp [hzero]
    · have hback : 1 + (i - 1) = i := by omega
      simp only [hzero, hback, show ¬i < 1 by omega, decide_false, Bool.not_false, Bool.and_true,
        Bool.true_and]
      rw [BitVec.getLsbD_eq_getElem]
  rw [hshift, ushiftRight_ofInt, shiftLeft_ofInt, ofInt_eq_ofInt_iff]
  omega

end RiscvHart.Word
