import RiscvHart.Word.Bytes
import Mathlib.Algebra.Order.Group.Nat
import Mathlib.Data.Nat.SuccPred

/-!
# Single bytes of a number

Byte `i` of a little-endian sequence is eight bits of the number from bit `8 * i` up.
-/

namespace RiscvHart.LittleEndian

theorem getElem?_toBytes (v : Nat) {n i : Nat} (hi : i < n) :
    (toBytes v n)[i]? = some (BitVec.ofNat 8 (v / 256 ^ i)) := by
  induction n generalizing v i with
  | zero => omega
  | succ n ih =>
    cases i with
    | zero => simp [toBytes]
    | succ i =>
      rw [toBytes, List.getElem?_cons_succ, ih (v / 256) (by omega), Nat.div_div_eq_div_mul,
        ← Nat.pow_succ']

theorem ofBytes_lt (bs : List Byte) : ofBytes bs < 256 ^ bs.length := by
  induction bs with
  | nil => simp [ofBytes]
  | cons b rest ih =>
    have hb := b.isLt
    rw [ofBytes, List.length_cons, Nat.pow_succ]
    omega

end RiscvHart.LittleEndian

namespace RiscvHart.Word

theorem getElem?_toBytes (v : Word) {w : Width} {i : Nat} (hi : i < w.bytes) :
    (v.toBytes w)[i]? = some (v.extractLsb' (8 * i) 8) := by
  rw [toBytes, LittleEndian.getElem?_toBytes _ hi]
  congr 1
  apply BitVec.eq_of_toNat_eq
  rw [BitVec.toNat_ofNat, BitVec.extractLsb'_toNat, Nat.shiftRight_eq_div_pow, Nat.pow_mul]

theorem toBytes_cut (v : Word) (w : Width) : (v.cut w).toBytes w = v.toBytes w := by
  apply List.ext_getElem?
  intro i
  by_cases hi : i < w.bytes
  · rw [getElem?_toBytes _ hi, getElem?_toBytes _ hi]
    congr 1
    ext j hj
    have hbit : 8 * i + j < w.bits := by
      unfold Width.bits
      omega
    simp only [BitVec.getElem_extractLsb', cut, low, BitVec.getLsbD_setWidth, hbit, decide_true,
      Bool.true_and, Bool.and_eq_right_iff_imp, decide_eq_true_eq]
    exact BitVec.lt_of_getLsbD
  · rw [List.getElem?_eq_none (by simpa using hi), List.getElem?_eq_none (by simpa using hi)]

theorem toNat_ofBytes {bs : List Byte} (hlen : bs.length ≤ 8) :
    (ofBytes bs).toNat = LittleEndian.ofBytes bs := by
  have hlt := LittleEndian.ofBytes_lt bs
  have hpow : 256 ^ bs.length ≤ 256 ^ 8 := Nat.pow_le_pow_right (by omega) hlen
  rw [ofBytes, BitVec.toNat_ofNat, Nat.mod_eq_of_lt (by omega)]

theorem ofBytes_lt {bs : List Byte} (hlen : bs.length ≤ 8) :
    (ofBytes bs).toNat < 256 ^ bs.length := by
  rw [toNat_ofBytes hlen]
  exact LittleEndian.ofBytes_lt bs

theorem getElem?_eq_extractLsb'_ofBytes {bs : List Byte} {i : Nat} (hlen : bs.length ≤ 8)
    (hi : i < bs.length) : bs[i]? = some ((ofBytes bs).extractLsb' (8 * i) 8) := by
  have hbytes := LittleEndian.getElem?_toBytes (LittleEndian.ofBytes bs) hi
  rw [LittleEndian.toBytes_ofBytes] at hbytes
  rw [hbytes]
  congr 1
  apply BitVec.eq_of_toNat_eq
  rw [BitVec.toNat_ofNat, BitVec.extractLsb'_toNat, Nat.shiftRight_eq_div_pow, Nat.pow_mul,
    toNat_ofBytes hlen]

end RiscvHart.Word
