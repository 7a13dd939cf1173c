import RiscvHart.Word.Basic

/-!
# Little-endian bytes

A number is stored with its least significant byte first. `ofBytes_toBytes` says that storing and
reading back keeps the low bytes of the number.
-/

namespace RiscvHart.LittleEndian

def toBytes (v : Nat) : Nat → List Byte
  | 0 => []
  | n + 1 => BitVec.ofNat 8 v :: toBytes (v / 256) n

def ofBytes : List Byte → Nat
  | [] => 0
  | b :: rest => b.toNat + 256 * ofBytes rest

@[simp] theorem length_toBytes (v n : Nat) : (toBytes v n).length = n := by
  induction n generalizing v with
  | zero => rfl
  | succ n ih => simp [toBytes, ih]

theorem ofBytes_toBytes (v n : Nat) : ofBytes (toBytes v n) = (BitVec.ofNat (8 * n) v).toNat := by
  induction n generalizing v with
  | zero => simp [toBytes, ofBytes, Nat.mod_one]
  | succ n ih =>
    simp only [toBytes, ofBytes, ih, BitVec.toNat_ofNat]
    have : (2 : Nat) ^ (8 * (n + 1)) = 256 * 2 ^ (8 * n) := by
      rw [Nat.mul_succ, Nat.pow_add, Nat.mul_comm]
    rw [this, Nat.mod_mul]

theorem toBytes_ofBytes (bs : List Byte) : toBytes (ofBytes bs) bs.length = bs := by
  induction bs with
  | nil => rfl
  | cons b rest ih =>
    have hb := b.isLt
    have hq : (b.toNat + 256 * ofBytes rest) / 256 = ofBytes rest := by omega
    have hr : BitVec.ofNat 8 (b.toNat + 256 * ofBytes rest) = b := by
      apply BitVec.eq_of_toNat_eq
      rw [BitVec.toNat_ofNat]
      omega
    simp only [ofBytes, List.length_cons, toBytes, hq, hr, ih]

end RiscvHart.LittleEndian

namespace RiscvHart.Word

def ofBytes (bs : List Byte) : Word := BitVec.ofNat 64 (LittleEndian.ofBytes bs)

def toBytes (v : Word) (w : Width) : List Byte := LittleEndian.toBytes v.toNat w.bytes

@[simp] theorem length_toBytes (v : Word) (w : Width) : (v.toBytes w).length = w.bytes := by
  simp [toBytes]

end RiscvHart.Word
