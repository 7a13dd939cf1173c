import RiscvHart.Word.Fields
import Mathlib.Algebra.Order.Group.Nat
import Mathlib.Algebra.Order.Sub.Basic
import Mathlib.Algebra.Ring.Nat

/-!
# Laws of the fields

A write to a field gives the field its value and leaves every other bit alone, so writes to
fields that lie apart commute, and each immediate is read back from the places that its setter
wrote. A word is determined by fields that cover it.
-/

namespace RiscvHart.Code

variable {lsb count l n : Nat} {x y : Code}

theorem getLsbD_lowBits (count i : Nat) :
    (lowBits count).getLsbD i = decide (i < 32 ∧ i < count) := by
  simp [lowBits, BitVec.getLsbD_setWidth, BitVec.getLsbD_allOnes]

theorem getLsbD_setField (c v : Code) (h : lsb + count ≤ 32) (i : Nat) :
    (c.setField lsb count v).getLsbD i =
      if lsb ≤ i ∧ i < lsb + count then v.getLsbD (i - lsb) else c.getLsbD i := by
  simp only [setField, BitVec.getLsbD_or, BitVec.getLsbD_and, BitVec.getLsbD_not,
    BitVec.getLsbD_shiftLeft, getLsbD_lowBits]
  by_cases hin : lsb ≤ i ∧ i < lsb + count
  · have hi : i < 32 := by omega
    have hoff : i - lsb < 32 ∧ i - lsb < count := by omega
    simp [hin, hi, hoff, Nat.not_lt.mpr hin.1]
  · by_cases hi : i < 32
    · have hout : i < lsb ∨ ¬i - lsb < count := by omega
      rcases hout with hlow | hhigh
      · simp [hlow, Nat.not_le.mpr hlow, hi]
      · simp [hin, hhigh, hi]
    · simp [hin, hi, BitVec.getLsbD_of_ge c i (by omega)]

theorem extractLsb'_setField (c v : Code) (h : lsb + count ≤ 32) :
    (c.setField lsb count v).extractLsb' lsb count = v.setWidth count := by
  ext i hi
  rw [BitVec.getElem_extractLsb', getLsbD_setField _ _ h, if_pos (by omega),
    Nat.add_sub_cancel_left, BitVec.getElem_setWidth]

theorem extractLsb'_setField_of_apart (c v : Code) (h : lsb + count ≤ 32)
    (hapart : lsb + count ≤ l ∨ l + n ≤ lsb) :
    (c.setField lsb count v).extractLsb' l n = c.extractLsb' l n := by
  ext i hi
  rw [BitVec.getElem_extractLsb', BitVec.getElem_extractLsb', getLsbD_setField _ _ h,
    if_neg (by omega)]

theorem setField_comm (c v w : Code) (h : lsb + count ≤ 32) (h' : l + n ≤ 32)
    (hapart : lsb + count ≤ l ∨ l + n ≤ lsb) :
    (c.setField lsb count v).setField l n w = (c.setField l n w).setField lsb count v := by
  apply BitVec.eq_of_getLsbD_eq
  intro i hi
  simp only [getLsbD_setField _ _ h, getLsbD_setField _ _ h']
  by_cases hin : lsb ≤ i ∧ i < lsb + count
  · have hout : ¬(l ≤ i ∧ i < l + n) := by omega
    simp only [hin, hout, and_self, if_true, if_false]
  · simp only [hin, if_false]

/-- The setter of a U immediate moves no bits: it writes the twenty bits above the low twelve. -/
theorem setImmU_eq_setField (c : Code) (v : BitVec 32) :
    c.setImmU v = c.setField 12 20 (v >>> 12) := by
  have hlow : (0xFFF : Code) = lowBits 12 := rfl
  have hhigh : (0xFFFFF000 : Code) = lowBits 20 <<< 12 := rfl
  apply BitVec.eq_of_getLsbD_eq
  intro i hi
  rw [getLsbD_setField _ _ (by decide), setImmU, hlow, hhigh]
  simp only [BitVec.getLsbD_or, BitVec.getLsbD_and, BitVec.getLsbD_shiftLeft, getLsbD_lowBits,
    BitVec.getLsbD_ushiftRight]
  by_cases h : 12 ≤ i
  · have hoff : i - 12 < 32 ∧ i - 12 < 20 := by omega
    simp [h, hi, hoff, Nat.not_lt.mpr h]
  · simp [h, hi, show i < 12 by omega]

/-! ## Immediates read back -/

theorem extractLsb'_zero_eq_zero {m : Nat} {v : BitVec m} (h : v.toNat % 2 ^ n = 0) :
    v.extractLsb' 0 n = 0#n := by
  apply BitVec.eq_of_toNat_eq
  rw [BitVec.extractLsb'_toNat, Nat.shiftRight_zero, h, BitVec.toNat_ofNat, Nat.zero_mod]

theorem toNat_append_zeros {m : Nat} (v : BitVec m) (n : Nat) : (v ++ 0#n).toNat % 2 ^ n = 0 := by
  rw [BitVec.toNat_append, BitVec.toNat_ofNat, Nat.zero_mod, Nat.or_zero, Nat.shiftLeft_eq,
    Nat.mul_mod_left]

theorem setWidth_setWidth_eq_extractLsb' {m : Nat} (v : BitVec m) (h : n ≤ 32) :
    (v.setWidth 32).setWidth n = v.extractLsb' 0 n := by
  rw [BitVec.setWidth_setWidth_of_le _ h]
  ext i hi
  simp

/-- The piece of a number that a setter moves to the low end before it writes it. -/
theorem setWidth_ushiftRight {m k : Nat} (v : BitVec m) (h : k + n ≤ 32) :
    (v.setWidth 32 >>> k).setWidth n = v.extractLsb' k n := by
  ext i hi
  simp [show k + i < 32 by omega, show i < 32 by omega]

theorem immI_setImmI (c : Code) (v : BitVec 12) : (c.setImmI v).immI = v := by
  simp (disch := decide) only [setImmI, immI, extractLsb'_setField]
  exact BitVec.setWidth_setWidth_of_le v (by decide)

-- Each scattered immediate is cut into pieces and glued together again at the same places.

theorem immS_setImmS (c : Code) (v : BitVec 12) : (c.setImmS v).immS = v := by
  simp (disch := decide) only [setImmS, immS, extractLsb'_setField, extractLsb'_setField_of_apart,
    setWidth_setWidth_eq_extractLsb', setWidth_ushiftRight,
    BitVec.extractLsb'_append_extractLsb'_eq_extractLsb']
  exact BitVec.extractLsb'_eq_self

theorem immB_setImmB (c : Code) {v : BitVec 13} (h : v.toNat % 2 = 0) : (c.setImmB v).immB = v := by
  have hlow : v.extractLsb' 0 1 = 0#1 := extractLsb'_zero_eq_zero h
  simp (disch := decide) only [setImmB, immB, extractLsb'_setField, extractLsb'_setField_of_apart,
    setWidth_ushiftRight, ← hlow, BitVec.extractLsb'_append_extractLsb'_eq_extractLsb']
  exact BitVec.extractLsb'_eq_self

theorem immU_setImmU (c : Code) {v : BitVec 32} (h : v.toNat % 2 ^ 12 = 0) :
    (c.setImmU v).immU = v := by
  have hlow : v.extractLsb' 0 12 = 0#12 := extractLsb'_zero_eq_zero h
  have hhigh : (v >>> 12).setWidth 20 = v.extractLsb' 12 20 := by
    rw [← setWidth_ushiftRight v (by decide), BitVec.setWidth_eq]
  simp (disch := decide) only [setImmU_eq_setField, immU, extractLsb'_setField, ← hlow, hhigh,
    BitVec.extractLsb'_append_extractLsb'_eq_extractLsb']
  exact BitVec.extractLsb'_eq_self

theorem immJ_setImmJ (c : Code) {v : BitVec 21} (h : v.toNat % 2 = 0) : (c.setImmJ v).immJ = v := by
  have hlow : v.extractLsb' 0 1 = 0#1 := extractLsb'_zero_eq_zero h
  simp (disch := decide) only [setImmJ, immJ, extractLsb'_setField, extractLsb'_setField_of_apart,
    setWidth_ushiftRight, ← hlow, BitVec.extractLsb'_append_extractLsb'_eq_extractLsb']
  exact BitVec.extractLsb'_eq_self

/-! ## Words by their fields -/

/-- Two words have the same fields when they are cut into pieces of the given lengths
from bit `l` up. -/
def Agree (x y : Code) (l : Nat) : List Nat → Prop
  | [] => True
  | n :: rest => x.extractLsb' l n = y.extractLsb' l n ∧ Agree x y (l + n) rest

theorem extractLsb'_eq_of_agree {lengths : List Nat} (h : Agree x y l lengths) :
    x.extractLsb' l lengths.sum = y.extractLsb' l lengths.sum := by
  induction lengths generalizing l with
  | nil => exact Subsingleton.elim (α := BitVec 0) _ _
  | cons n rest ih =>
    obtain ⟨hfirst, hrest⟩ := h
    rw [List.sum_cons, Nat.add_comm, ← BitVec.extractLsb'_append_extractLsb'_eq_extractLsb' rfl,
      ← BitVec.extractLsb'_append_extractLsb'_eq_extractLsb' rfl, ih hrest, hfirst]

theorem eq_of_agree (lengths : List Nat) (hsum : lengths.sum = 32) (h : Agree x y 0 lengths) :
    x = y := by
  have hall := extractLsb'_eq_of_agree h
  rwa [hsum, BitVec.extractLsb'_eq_self, BitVec.extractLsb'_eq_self] at hall

theorem append_inj {m k : Nat} {a b : BitVec m} {u v : BitVec k} (h : a ++ u = b ++ v) :
    a = b ∧ u = v := by
  constructor
  · rw [← BitVec.extractLsb'_append_eq_left (a := a) (b := u), h, BitVec.extractLsb'_append_eq_left]
  · rw [← BitVec.extractLsb'_append_eq_right (a := a) (b := u), h,
      BitVec.extractLsb'_append_eq_right]

end RiscvHart.Code
