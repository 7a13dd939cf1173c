import RiscvHart.Isa.Action
import RiscvHart.Proofs.Isa.Arithmetic

/-!
# Multiplication and division

What the instruction set prescribes for the instructions that multiply and divide, in integers,
and that the operations of the hart agree with it. A quotient and a remainder are told by their
laws: the hart divides words, with cases of its own for a divisor of zero, and each law has to
come out of that.
-/

namespace RiscvHart

namespace Isa

/-- The laws of a quotient and a remainder of numbers with so many bits. The quotient of the most
negative number by `-1` is no such number, and is the dividend instead. -/
structure Division (bits : Nat) (a b q r : Int) : Prop where
  byZero : b = 0 → q = 2 ^ bits - 1 ∧ r = a
  overflow : a = -2 ^ (bits - 1) → b = -1 → q = a ∧ r = 0
  /-- The quotient is cut off toward zero, so the remainder has the sign of the dividend. -/
  regular : b ≠ 0 → (a = -2 ^ (bits - 1) → b ≠ -1) →
    q = a.tdiv b ∧ q * b + r = a ∧ r.natAbs < b.natAbs ∧ (r = 0 ∨ r.sign = a.sign)

def multiplications : List Instr := [.mul, .mulh, .mulhsu, .mulhu, .mulw]

def divisions : List Instr := [.div, .divu, .rem, .remu, .divw, .divuw, .remw, .remuw]

/-- What an instruction that multiplies or divides can put into its destination, where the source
registers hold `a` and `b`. -/
def Yields (i : Instr) (a b v : Int) : Prop :=
  match i with
  | .mul => v = a * b
  | .mulh => v = signed 64 a * signed 64 b / 2 ^ 64
  | .mulhsu => v = signed 64 a * unsigned 64 b / 2 ^ 64
  | .mulhu => v = unsigned 64 a * unsigned 64 b / 2 ^ 64
  | .mulw => v = signed 32 (a * b)
  | .div => ∃ r, Division 64 (signed 64 a) (signed 64 b) v r
  | .rem => ∃ q, Division 64 (signed 64 a) (signed 64 b) q v
  | .divu => ∃ r, Division 64 (unsigned 64 a) (unsigned 64 b) v r
  | .remu => ∃ q, Division 64 (unsigned 64 a) (unsigned 64 b) q v
  | .divw => ∃ q r, Division 32 (signed 32 a) (signed 32 b) q r ∧ v = signed 32 q
  | .remw => ∃ q r, Division 32 (signed 32 a) (signed 32 b) q r ∧ v = signed 32 r
  | .divuw => ∃ q r, Division 32 (unsigned 32 a) (unsigned 32 b) q r ∧ v = signed 32 q
  | .remuw => ∃ q r, Division 32 (unsigned 32 a) (unsigned 32 b) q r ∧ v = signed 32 r
  | _ => False

variable {bits : Nat} {a b q r q' r' v v' : Int} {i : Instr}

/-! ## The laws determine the results -/

theorem Division.unique (h : Division bits a b q r) (h' : Division bits a b q' r') :
    q = q' ∧ r = r' := by
  by_cases hzero : b = 0
  · obtain ⟨hq, hr⟩ := h.byZero hzero
    obtain ⟨hq', hr'⟩ := h'.byZero hzero
    exact ⟨hq.trans hq'.symm, hr.trans hr'.symm⟩
  by_cases hover : a = -2 ^ (bits - 1) ∧ b = -1
  · obtain ⟨hq, hr⟩ := h.overflow hover.1 hover.2
    obtain ⟨hq', hr'⟩ := h'.overflow hover.1 hover.2
    exact ⟨hq.trans hq'.symm, hr.trans hr'.symm⟩
  · obtain ⟨hq, hsum, -⟩ := h.regular hzero fun ha hb => hover ⟨ha, hb⟩
    obtain ⟨hq', hsum', -⟩ := h'.regular hzero fun ha hb => hover ⟨ha, hb⟩
    have heq : q = q' := hq.trans hq'.symm
    rw [heq] at hsum
    exact ⟨heq, by omega⟩

theorem Yields.unique (h : Yields i a b v) (h' : Yields i a b v') : v = v' := by
  have hquotient : ∀ {bits : Nat} {a b : Int}, (∃ r, Division bits a b v r) →
      (∃ r, Division bits a b v' r) → v = v' := by
    rintro bits a b ⟨r, h⟩ ⟨r', h'⟩
    exact (h.unique h').1
  have hremainder : ∀ {bits : Nat} {a b : Int}, (∃ q, Division bits a b q v) →
      (∃ q, Division bits a b q v') → v = v' := by
    rintro bits a b ⟨q, h⟩ ⟨q', h'⟩
    exact (h.unique h').2
  cases i
  case div => exact hquotient h h'
  case divu => exact hquotient h h'
  case rem => exact hremainder h h'
  case remu => exact hremainder h h'
  case divw =>
    obtain ⟨q, r, h, rfl⟩ := h
    obtain ⟨q', r', h', rfl⟩ := h'
    rw [(h.unique h').1]
  case divuw =>
    obtain ⟨q, r, h, rfl⟩ := h
    obtain ⟨q', r', h', rfl⟩ := h'
    rw [(h.unique h').1]
  case remw =>
    obtain ⟨q, r, h, rfl⟩ := h
    obtain ⟨q', r', h', rfl⟩ := h'
    rw [(h.unique h').2]
  case remuw =>
    obtain ⟨q, r, h, rfl⟩ := h
    obtain ⟨q', r', h', rfl⟩ := h'
    rw [(h.unique h').2]
  all_goals first
    | exact h.elim
    | exact Eq.trans h (Eq.symm h')

/-! ## Results that satisfy them -/

def quotient (bits : Nat) (a b : Int) : Int :=
  if b = 0 then 2 ^ bits - 1
  else if a = -2 ^ (bits - 1) ∧ b = -1 then a
  else a.tdiv b

theorem division_quotient (bits : Nat) (a b : Int) :
    Division bits a b (quotient bits a b) (a.tmod b) := by
  constructor
  · rintro rfl
    exact ⟨if_pos rfl, Int.tmod_zero a⟩
  · rintro ha rfl
    refine ⟨?_, ?_⟩
    · rw [quotient, if_neg (by decide), if_pos ⟨ha, rfl⟩]
    · rw [Int.tmod_neg, Int.tmod_one]
  · intro hb hover
    have hq : quotient bits a b = a.tdiv b := by
      rw [quotient, if_neg hb, if_neg fun h => hover h.1 h.2]
    refine ⟨hq, ?_, ?_, ?_⟩
    · rw [hq, Int.tdiv_mul_add_tmod]
    · rw [Int.natAbs_tmod]
      exact Nat.mod_lt _ (Int.natAbs_pos.mpr hb)
    · have hsign := Int.sign_tmod a b
      split_ifs at hsign with hdvd
      · exact Or.inl (Int.sign_eq_zero_iff_zero.mp hsign)
      · exact Or.inr hsign

end Isa

/-! ## Words -/

namespace Word

variable {n : Nat} (x y : BitVec n)

theorem ofInt_bmod (a : Int) : BitVec.ofInt n (a.bmod (2 ^ n)) = BitVec.ofInt n a := by
  rw [ofInt_eq_ofInt_iff]
  exact_mod_cast Int.bmod_emod

theorem ofInt_add_two_pow (a : Int) : BitVec.ofInt n (a + 2 ^ n) = BitVec.ofInt n a := by
  rw [ofInt_eq_ofInt_iff, Int.add_emod_right]

theorem allOnes_eq_ofInt : BitVec.allOnes n = BitVec.ofInt n (2 ^ n - 1) := by
  have hwrap : (2 : Int) ^ n - 1 = -1 + 2 ^ n := by ring
  rw [hwrap, ofInt_add_two_pow, BitVec.ofInt_neg, BitVec.ofInt_ofNat, BitVec.neg_one_eq_allOnes]

open Isa in
/-- Two's complement has no room for the quotient of the most negative number by `-1`, and comes
round to the dividend. -/
theorem sdiv_eq_ofInt (hn : 0 < n) :
    (if y = 0 then BitVec.allOnes n else x.sdiv y) =
      BitVec.ofInt n (quotient n x.toInt y.toInt) := by
  unfold quotient
  by_cases hy : y = 0
  · have hzero : y.toInt = 0 := by rw [hy]; exact BitVec.toInt_zero
    rw [if_pos hy, if_pos hzero, allOnes_eq_ofInt]
  · have hnonzero : y.toInt ≠ 0 :=
      fun h => hy (BitVec.eq_of_toInt_eq (h.trans BitVec.toInt_zero.symm))
    have hsdiv : x.sdiv y = BitVec.ofInt n (x.toInt.tdiv y.toInt) := by
      rw [← ofInt_bmod, ← BitVec.toInt_sdiv, BitVec.ofInt_toInt]
    rw [if_neg hy, if_neg hnonzero, hsdiv]
    split_ifs with hover
    · have htwice : (2 : Int) ^ (n - 1) + 2 ^ (n - 1) = 2 ^ n := by
        rw [← two_mul, ← pow_succ', Nat.sub_add_cancel hn]
      have hround : x.toInt.tdiv y.toInt = x.toInt + 2 ^ n := by
        rw [hover.2, hover.1, Int.tdiv_neg, Int.tdiv_one]
        omega
      rw [hround, ofInt_add_two_pow]
    · rfl

theorem srem_eq_ofInt :
    (if y = 0 then x else x.srem y) = BitVec.ofInt n (x.toInt.tmod y.toInt) := by
  split_ifs with hy
  · have hzero : y.toInt = 0 := by rw [hy]; exact BitVec.toInt_zero
    rw [hzero, Int.tmod_zero, BitVec.ofInt_toInt]
  · rw [← BitVec.toInt_srem, BitVec.ofInt_toInt]

open Isa in
theorem udiv_eq_ofInt :
    (if y = 0 then BitVec.allOnes n else x / y) = BitVec.ofInt n (quotient n x.toNat y.toNat) := by
  unfold quotient
  by_cases hy : y = 0
  · have hzero : (y.toNat : Int) = 0 := by rw [hy]; rfl
    rw [if_pos hy, if_pos hzero, allOnes_eq_ofInt]
  · have hnonzero : (y.toNat : Int) ≠ 0 := fun h =>
      hy (BitVec.eq_of_toNat_eq (by exact_mod_cast h))
    have hpow : (0 : Int) < 2 ^ (n - 1) := by positivity
    rw [if_neg hy, if_neg hnonzero, if_neg fun h => by omega, Word.eq_ofInt_toNat (x / y),
      BitVec.toNat_udiv]
    rfl

theorem umod_eq_ofInt :
    (if y = 0 then x else x % y) = BitVec.ofInt n ((x.toNat : Int).tmod y.toNat) := by
  split_ifs with hy
  · have hzero : (y.toNat : Int) = 0 := by rw [hy]; rfl
    rw [hzero, Int.tmod_zero, ← eq_ofInt_toNat]
  · rw [eq_ofInt_toNat (x % y), BitVec.toNat_umod]
    rfl

/-- The upper half of a product is the product divided by the number of words, rounded down. -/
theorem high_ofInt (p : Int) :
    ((BitVec.ofInt 128 p >>> 64).setWidth 64 : Word) = BitVec.ofInt 64 (p / 2 ^ 64) := by
  rw [ushiftRight_ofInt, setWidth_ofInt (by decide), ofInt_eq_ofInt_iff]
  omega

end Word

/-! ## The operations of the hart -/

namespace Alu

open Isa

variable (x y : Word)

theorem signed_toNat : signed 64 x.toNat = x.toInt := (BitVec.toInt_eq_toNat_bmod x).symm

theorem unsigned_toNat : unsigned 64 x.toNat = x.toNat := by
  have hlt := x.isLt
  unfold unsigned
  omega

theorem signed_lowW : signed 32 x.toNat = (lowW x).toInt := (BitVec.toInt_setWidth x).symm

theorem unsigned_lowW : unsigned 32 x.toNat = (lowW x).toNat := by
  rw [lowW, BitVec.toNat_setWidth, unsigned]
  norm_cast

theorem mul_eq_ofInt : mul x y = BitVec.ofInt 64 (x.toNat * y.toNat) := by
  rw [BitVec.ofInt_mul, ← Word.eq_ofInt_toNat, ← Word.eq_ofInt_toNat, mul]

theorem mulHighUnsigned_eq_ofInt :
    mulHighUnsigned x y = BitVec.ofInt 64 (x.toNat * y.toNat / 2 ^ 64) := by
  have hwide : ∀ z : Word, z.setWidth 128 = BitVec.ofInt 128 z.toNat := by
    intro z
    rw [BitVec.ofInt_natCast, BitVec.ofNat_toNat]
  rw [mulHighUnsigned, hwide, hwide, ← BitVec.ofInt_mul, Word.high_ofInt]

theorem mulHighSigned_eq_ofInt :
    mulHighSigned x y = BitVec.ofInt 64 (x.toInt * y.toInt / 2 ^ 64) := by
  rw [mulHighSigned, Word.signExtend_eq_ofInt, Word.signExtend_eq_ofInt, ← BitVec.ofInt_mul,
    Word.high_ofInt]

/-- Reading a negative number as unsigned adds `2 ^ 64`, and so the second operand to the upper
half of the product. -/
theorem mulHighSignedUnsigned_eq_ofInt :
    mulHighSignedUnsigned x y = BitVec.ofInt 64 (x.toInt * y.toNat / 2 ^ 64) := by
  rw [mulHighSignedUnsigned, mulHighUnsigned_eq_ofInt]
  by_cases hneg : x.msb = true
  · have hsigned : x.toInt = x.toNat - 2 ^ 64 := by
      rw [BitVec.toInt_eq_msb_cond, if_pos hneg]
      norm_num
    have hhigh : x.toInt * y.toNat / 2 ^ 64 = (x.toNat : Int) * y.toNat / 2 ^ 64 - y.toNat := by
      rw [hsigned, sub_mul]
      omega
    rw [if_pos hneg, hhigh, Word.ofInt_sub, ← Word.eq_ofInt_toNat]
  · have hsigned : x.toInt = x.toNat := by
      rw [BitVec.toInt_eq_msb_cond, if_neg hneg]
    rw [if_neg hneg, hsigned]

theorem mulW_eq_ofInt : mulW x y = BitVec.ofInt 64 (signed 32 (x.toNat * y.toNat)) := by
  rw [mulW, Word.eq_ofInt_toNat x, Word.eq_ofInt_toNat y, lowW_ofInt, lowW_ofInt,
    ← BitVec.ofInt_mul, extendW_ofInt, ← Word.eq_ofInt_toNat, ← Word.eq_ofInt_toNat]

theorem allOnes_eq_extendW : BitVec.allOnes 64 = extendW (BitVec.allOnes 32) := by
  decide

theorem divSignedW_eq_ofInt :
    divSignedW x y =
      BitVec.ofInt 64 (signed 32 (quotient 32 (lowW x).toInt (lowW y).toInt)) := by
  rw [divSignedW, allOnes_eq_extendW, ← apply_ite extendW, Word.sdiv_eq_ofInt _ _ (by decide),
    extendW_ofInt]

theorem divUnsignedW_eq_ofInt :
    divUnsignedW x y =
      BitVec.ofInt 64 (signed 32 (quotient 32 (lowW x).toNat (lowW y).toNat)) := by
  rw [divUnsignedW, allOnes_eq_extendW, ← apply_ite extendW, Word.udiv_eq_ofInt, extendW_ofInt]

theorem remSignedW_eq_ofInt :
    remSignedW x y = BitVec.ofInt 64 (signed 32 ((lowW x).toInt.tmod (lowW y).toInt)) := by
  rw [remSignedW, ← apply_ite extendW, Word.srem_eq_ofInt, extendW_ofInt]

theorem remUnsignedW_eq_ofInt :
    remUnsignedW x y =
      BitVec.ofInt 64 (signed 32 (((lowW x).toNat : Int).tmod (lowW y).toNat)) := by
  rw [remUnsignedW, ← apply_ite extendW, Word.umod_eq_ofInt, extendW_ofInt]

end Alu

/-- An instruction that multiplies or divides computes one of the results that it can have. -/
theorem Isa.exists_compute {i : Instr} (hi : i ∈ multiplications ++ divisions) :
    ∃ f, i.action = .compute f ∧
      ∀ x y : Word, ∃ v, Yields i x.toNat y.toNat v ∧ f x y = BitVec.ofInt 64 v := by
  -- The laws, of the numbers that the words and their low halves stand for.
  have hsigned : ∀ x y : Word, Division 64 (signed 64 x.toNat) (signed 64 y.toNat)
      (quotient 64 x.toInt y.toInt) (x.toInt.tmod y.toInt) := by
    intro x y
    rw [Alu.signed_toNat, Alu.signed_toNat]
    exact division_quotient ..
  have hunsigned : ∀ x y : Word, Division 64 (unsigned 64 x.toNat) (unsigned 64 y.toNat)
      (quotient 64 x.toNat y.toNat) ((x.toNat : Int).tmod y.toNat) := by
    intro x y
    rw [Alu.unsigned_toNat, Alu.unsigned_toNat]
    exact division_quotient ..
  have hsignedW : ∀ x y : Word, Division 32 (signed 32 x.toNat) (signed 32 y.toNat)
      (quotient 32 (Alu.lowW x).toInt (Alu.lowW y).toInt)
      ((Alu.lowW x).toInt.tmod (Alu.lowW y).toInt) := by
    intro x y
    rw [Alu.signed_lowW, Alu.signed_lowW]
    exact division_quotient ..
  have hunsignedW : ∀ x y : Word, Division 32 (unsigned 32 x.toNat) (unsigned 32 y.toNat)
      (quotient 32 (Alu.lowW x).toNat (Alu.lowW y).toNat)
      (((Alu.lowW x).toNat : Int).tmod (Alu.lowW y).toNat) := by
    intro x y
    rw [Alu.unsigned_lowW, Alu.unsigned_lowW]
    exact division_quotient ..
  cases i
  case mul => exact ⟨_, rfl, fun x y => ⟨_, rfl, Alu.mul_eq_ofInt x y⟩⟩
  case mulh =>
    refine ⟨_, rfl, fun x y => ⟨_, rfl, ?_⟩⟩
    rw [Alu.signed_toNat, Alu.signed_toNat, Alu.mulHighSigned_eq_ofInt]
  case mulhsu =>
    refine ⟨_, rfl, fun x y => ⟨_, rfl, ?_⟩⟩
    rw [Alu.signed_toNat, Alu.unsigned_toNat, Alu.mulHighSignedUnsigned_eq_ofInt]
  case mulhu =>
    refine ⟨_, rfl, fun x y => ⟨_, rfl, ?_⟩⟩
    rw [Alu.unsigned_toNat, Alu.unsigned_toNat, Alu.mulHighUnsigned_eq_ofInt]
  case mulw => exact ⟨_, rfl, fun x y => ⟨_, rfl, Alu.mulW_eq_ofInt x y⟩⟩
  case div =>
    exact ⟨_, rfl, fun x y => ⟨_, ⟨_, hsigned x y⟩, Word.sdiv_eq_ofInt x y (by decide)⟩⟩
  case rem => exact ⟨_, rfl, fun x y => ⟨_, ⟨_, hsigned x y⟩, Word.srem_eq_ofInt x y⟩⟩
  case divu => exact ⟨_, rfl, fun x y => ⟨_, ⟨_, hunsigned x y⟩, Word.udiv_eq_ofInt x y⟩⟩
  case remu => exact ⟨_, rfl, fun x y => ⟨_, ⟨_, hunsigned x y⟩, Word.umod_eq_ofInt x y⟩⟩
  case divw =>
    exact ⟨_, rfl, fun x y => ⟨_, ⟨_, _, hsignedW x y, rfl⟩, Alu.divSignedW_eq_ofInt x y⟩⟩
  case remw =>
    exact ⟨_, rfl, fun x y => ⟨_, ⟨_, _, hsignedW x y, rfl⟩, Alu.remSignedW_eq_ofInt x y⟩⟩
  case divuw =>
    exact ⟨_, rfl, fun x y => ⟨_, ⟨_, _, hunsignedW x y, rfl⟩, Alu.divUnsignedW_eq_ofInt x y⟩⟩
  case remuw =>
    exact ⟨_, rfl, fun x y => ⟨_, ⟨_, _, hunsignedW x y, rfl⟩, Alu.remUnsignedW_eq_ofInt x y⟩⟩
  all_goals exact absurd hi (by decide)

end RiscvHart
