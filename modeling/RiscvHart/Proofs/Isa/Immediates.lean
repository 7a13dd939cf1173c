import RiscvHart.Proofs.Isa.Access
import RiscvHart.Proofs.Word.Pieces

/-!
# Immediates

The immediate of each format as a number in pieces. Its getter and its setter are those of the
pieces, so they obey the laws of a number in pieces, and sign extension makes the offsets of the
instruction set out of what the getters give.
-/

namespace RiscvHart

/-! ## Sign extension -/

/-- The number of bits to extend from may stand in the type or be given as a number. -/
theorem Word.signExtendLow_eq_signExtend (v : Word) {n : Nat} (hpos : 0 < n) (hle : n ≤ 64) :
    v.signExtendLow n = (v.setWidth n).signExtend 64 := by
  ext i hi
  have hmsb : (v <<< (64 - n)).msb = v.getLsbD (n - 1) := by
    rw [BitVec.msb_eq_getLsbD_last, BitVec.getLsbD_shiftLeft]
    have hback : 64 - 1 - (64 - n) = n - 1 := by omega
    simp [hback, show ¬63 < 64 - n by omega]
  have hmsb' : (v.setWidth n).msb = v.getLsbD (n - 1) := by
    rw [BitVec.msb_eq_getLsbD_last, BitVec.getLsbD_setWidth]
    simp [hpos]
  rw [signExtendLow, BitVec.getElem_sshiftRight, BitVec.getElem_signExtend, hmsb, hmsb']
  by_cases hin : i < n
  · have hlt : 64 - n + i < 64 := by omega
    have hback : 64 - n + i - (64 - n) = i := by omega
    rw [dif_pos hin, dif_pos hlt, BitVec.getElem_shiftLeft, BitVec.getElem_setWidth]
    simp [hback, ← BitVec.getLsbD_eq_getElem]
  · rw [dif_neg hin, dif_neg (by omega)]

/-- The number that the bits of `x` are in two's complement is kept. -/
theorem Word.toInt_signExtendLow_setWidth {n : Nat} (x : BitVec n) (hpos : 0 < n) (hle : n ≤ 64) :
    (Word.signExtendLow (x.setWidth 64) n).toInt = x.toInt := by
  rw [signExtendLow_eq_signExtend _ hpos hle, BitVec.setWidth_setWidth_of_le _ hle,
    BitVec.setWidth_eq, BitVec.toInt_signExtend_of_le hle]

theorem Word.toInt_signExtendLow (v : Word) {n : Nat} (hpos : 0 < n) (hle : n ≤ 64) :
    (v.signExtendLow n).toInt = Isa.signed n v.toNat := by
  rw [signExtendLow_eq_signExtend v hpos hle, BitVec.toInt_signExtend_of_le hle,
    BitVec.toInt_setWidth, Isa.signed]

namespace Code

variable {lsb count n m : Nat}

/-! ## Pieces of the formats -/

def piecesI : List Piece := [⟨20, 12, 0⟩]

def piecesS : List Piece := [⟨7, 5, 0⟩, ⟨25, 7, 5⟩]

def piecesB : List Piece := [⟨31, 1, 12⟩, ⟨7, 1, 11⟩, ⟨25, 6, 5⟩, ⟨8, 4, 1⟩]

def piecesU : List Piece := [⟨12, 20, 12⟩]

def piecesJ : List Piece := [⟨31, 1, 20⟩, ⟨12, 8, 12⟩, ⟨20, 1, 11⟩, ⟨21, 10, 1⟩]

theorem placed_piecesI : Placed piecesI := ⟨by decide, by decide⟩

theorem placed_piecesS : Placed piecesS := ⟨by decide, by decide⟩

theorem placed_piecesB : Placed piecesB := ⟨by decide, by decide⟩

theorem placed_piecesU : Placed piecesU := ⟨by decide, by decide⟩

theorem placed_piecesJ : Placed piecesJ := ⟨by decide, by decide⟩

theorem setWidth_extractLsb' (c : Code) (lsb count : Nat) :
    (c.extractLsb' lsb count).setWidth 32 = c.field lsb count := by
  ext i hi
  rw [← BitVec.getLsbD_eq_getElem, ← BitVec.getLsbD_eq_getElem, Bool.eq_iff_iff, getLsbD_field,
    BitVec.getLsbD_setWidth, BitVec.getLsbD_extractLsb']
  simp

theorem setWidth_append (x : BitVec n) (y : BitVec m) :
    (x ++ y).setWidth 32 = x.setWidth 32 <<< m ||| (y.setWidth 32 : Code) := by
  apply BitVec.eq_of_getLsbD_eq
  intro i hi
  rw [BitVec.getLsbD_or, BitVec.getLsbD_shiftLeft, BitVec.getLsbD_setWidth, BitVec.getLsbD_setWidth,
    BitVec.getLsbD_setWidth, BitVec.getLsbD_append]
  by_cases hlow : i < m
  · simp [hlow, hi]
  · simp [hlow, hi, BitVec.getLsbD_of_ge y i (by omega), show i - m < 32 by omega]

/-! ## Getters and setters by pieces -/

theorem immI_eq_gather (c : Code) : c.immI.setWidth 32 = gather piecesI c := by
  simp [immI, piecesI, setWidth_extractLsb']

theorem immS_eq_gather (c : Code) : c.immS.setWidth 32 = gather piecesS c := by
  have hparts : c.immS.setWidth 32 =
      (c.extractLsb' 25 7 ++ c.extractLsb' 7 5).setWidth 32 := rfl
  rw [hparts, setWidth_append]
  simp [piecesS, setWidth_extractLsb', BitVec.or_comm]

theorem immB_eq_gather (c : Code) : c.immB.setWidth 32 = gather piecesB c := by
  have hparts : c.immB.setWidth 32 = (c.extractLsb' 31 1 ++ c.extractLsb' 7 1 ++
      c.extractLsb' 25 6 ++ c.extractLsb' 8 4 ++ 0#1).setWidth 32 := rfl
  rw [hparts, setWidth_append, setWidth_append, setWidth_append, setWidth_append]
  simp [piecesB, setWidth_extractLsb', BitVec.shiftLeft_or_distrib, ← BitVec.shiftLeft_add,
    BitVec.or_assoc]

theorem immU_eq_gather (c : Code) : c.immU = gather piecesU c := by
  have hparts : c.immU = (c.extractLsb' 12 20 ++ 0#12).setWidth 32 := (BitVec.setWidth_eq _).symm
  rw [hparts, setWidth_append]
  simp [piecesU, setWidth_extractLsb']

theorem immJ_eq_gather (c : Code) : c.immJ.setWidth 32 = gather piecesJ c := by
  have hparts : c.immJ.setWidth 32 = (c.extractLsb' 31 1 ++ c.extractLsb' 12 8 ++
      c.extractLsb' 20 1 ++ c.extractLsb' 21 10 ++ 0#1).setWidth 32 := rfl
  rw [hparts, setWidth_append, setWidth_append, setWidth_append, setWidth_append]
  simp [piecesJ, setWidth_extractLsb', BitVec.shiftLeft_or_distrib, ← BitVec.shiftLeft_add,
    BitVec.or_assoc]

theorem setField_congr (c : Code) {x y : Code} (h : lsb + count ≤ 32)
    (hxy : x.setWidth count = y.setWidth count) :
    c.setField lsb count x = c.setField lsb count y := by
  apply BitVec.eq_of_getLsbD_eq
  intro i _
  rw [getLsbD_setField _ _ h, getLsbD_setField _ _ h]
  by_cases hi : lsb ≤ i ∧ i < lsb + count
  · have hlt : i - lsb < count := by omega
    have hbit := congrArg (fun z : BitVec count => z.getLsbD (i - lsb)) hxy
    simpa [hi, hlt] using hbit
  · rw [if_neg hi, if_neg hi]

/-- A number that is wider than the immediate goes in as its low bits. -/
theorem setField_cut (c v : Code) {k offset : Nat} (h : lsb + count ≤ 32)
    (hk : offset + count ≤ k) (hle : k ≤ 32) :
    c.setField lsb count ((v.setWidth k).setWidth 32 >>> offset) =
      c.setField lsb count (v >>> offset) := by
  apply setField_congr c h
  rw [setWidth_ushiftRight _ (by omega), BitVec.extractLsb'_setWidth_of_le hk,
    ← setWidth_ushiftRight v (by omega), BitVec.setWidth_eq]

theorem setField_cut_zero (c v : Code) {k : Nat} (h : lsb + count ≤ 32) (hk : count ≤ k)
    (hle : k ≤ 32) :
    c.setField lsb count ((v.setWidth k).setWidth 32) = c.setField lsb count v := by
  have hcut : c.setField lsb count ((v.setWidth k).setWidth 32 >>> 0) =
      c.setField lsb count (v >>> 0) := c.setField_cut v h (by omega) hle
  rwa [BitVec.ushiftRight_zero, BitVec.ushiftRight_zero] at hcut

theorem setImmI_eq_scatter (c v : Code) : c.setImmI (v.setWidth 12) = scatter piecesI c v := by
  simp (disch := decide) only [setImmI, piecesI, scatter_cons, scatter_nil, setField_cut_zero,
    BitVec.ushiftRight_zero]

theorem setImmS_eq_scatter (c v : Code) : c.setImmS (v.setWidth 12) = scatter piecesS c v := by
  simp (disch := decide) only [setImmS, piecesS, scatter_cons, scatter_nil, setField_cut_zero,
    setField_cut, BitVec.ushiftRight_zero]

theorem setImmB_eq_scatter (c v : Code) : c.setImmB (v.setWidth 13) = scatter piecesB c v := by
  simp (disch := decide) only [setImmB, piecesB, scatter_cons, scatter_nil, setField_cut]

theorem setImmU_eq_scatter (c v : Code) : c.setImmU v = scatter piecesU c v :=
  setImmU_eq_setField c v

theorem setImmJ_eq_scatter (c v : Code) : c.setImmJ (v.setWidth 21) = scatter piecesJ c v := by
  simp (disch := decide) only [setImmJ, piecesJ, scatter_cons, scatter_nil, setField_cut]

/-! ## Laws -/

theorem Lawful.of_pieces {ps : List Piece} {get : Code → Code} {set : Code → Code → Code}
    (h : Placed ps) (hget : ∀ c, get c = gather ps c) (hset : ∀ c v, set c v = scatter ps c v) :
    Lawful get set (union Piece.numberMask ps) (union Piece.wordMask ps) := by
  obtain rfl : get = gather ps := funext hget
  obtain rfl : set = scatter ps := funext fun c => funext (hset c)
  exact h.lawful

theorem lawful_field (h : HasField lsb count) :
    Lawful (fun c => c.field lsb count) (fun c v => c.setField lsb count v) (lowBits count)
      (lowBits count <<< lsb) := by
  obtain ⟨-, hle⟩ := h
  have hplaced : Placed [⟨lsb, count, 0⟩] := by
    refine ⟨fun p hp => ?_, List.pairwise_singleton _ _⟩
    rw [List.mem_singleton.mp hp]
    exact ⟨hle, show 0 + count ≤ 32 by omega⟩
  have hlawful : Lawful (fun c => c.field lsb count) (fun c v => c.setField lsb count v) _ _ :=
    Lawful.of_pieces hplaced (fun c => by simp) (fun c v => by simp)
  simpa [Piece.numberMask, Piece.wordMask] using hlawful

theorem toNat_and_lowBits (v : Code) (h : count ≤ 32) :
    (v &&& lowBits count).toNat = v.toNat % 2 ^ count := by
  have hpow : 2 ^ count ≤ 2 ^ 32 := Nat.pow_le_pow_right (by decide) h
  have hpos : 0 < 2 ^ count := Nat.two_pow_pos count
  have hmask : (lowBits count).toNat = 2 ^ count - 1 := by
    rw [lowBits, BitVec.toNat_setWidth, BitVec.toNat_allOnes]
    exact Nat.mod_eq_of_lt (by omega)
  rw [BitVec.toNat_and, hmask, Nat.and_two_pow_sub_one_eq_mod]

/-- The integers that an immediate of `n` bits can stand for, if it is a multiple of `m`. -/
theorem exists_toInt_iff (get : Code → BitVec n) (set : Code → BitVec n → Code) (hn : 0 < n)
    (hm : m ∣ 2 ^ n) (hget : ∀ c, (get c).toNat % m = 0)
    (hset : ∀ v : BitVec n, v.toNat % m = 0 → get (set 0 v) = v) (k : Int) :
    (∃ c, (get c).toInt = k) ↔ -2 ^ (n - 1) ≤ k ∧ k < 2 ^ (n - 1) ∧ k % m = 0 := by
  have hmultiple : ∀ x : BitVec n, x.toInt % m = 0 ↔ x.toNat % m = 0 := by
    intro x
    have hdvd : (m : Int) ∣ ((2 ^ n : Nat) : Int) := Int.natCast_dvd_natCast.mpr hm
    rw [BitVec.toInt_eq_toNat_bmod, ← Int.emod_emod_of_dvd _ hdvd, Int.bmod_emod,
      Int.emod_emod_of_dvd _ hdvd]
    norm_cast
  constructor
  · rintro ⟨c, rfl⟩
    exact ⟨BitVec.le_toInt _, BitVec.toInt_lt, (hmultiple _).mpr (hget c)⟩
  · rintro ⟨hge, hlt, hk⟩
    have hint : (BitVec.ofInt n k).toInt = k := BitVec.toInt_ofInt_eq_self hn hge hlt
    refine ⟨set 0 (BitVec.ofInt n k), ?_⟩
    rw [hset _ ((hmultiple _).mp (by rwa [hint])), hint]

/-- The laws of the fields and immediates of a word. A number that a setter is given is cut to
the bits that its format carries: an offset of a branch or a jump loses bit 0, and an immediate
of format U its low twelve bits. -/
structure LawfulCodec : Prop where
  field : ∀ lsb count, HasField lsb count →
    Lawful (fun c => c.field lsb count) (fun c v => c.setField lsb count v) (lowBits count)
      (lowBits count <<< lsb)
  field_setField : ∀ lsb count, HasField lsb count → ∀ c v : Code,
    ((c.setField lsb count v).field lsb count).toNat = v.toNat % 2 ^ count
  immI : Lawful (fun c => c.immI.setWidth 32) (fun c v => c.setImmI (v.setWidth 12))
    0xFFF 0xFFF00000
  immS : Lawful (fun c => c.immS.setWidth 32) (fun c v => c.setImmS (v.setWidth 12))
    0xFFF 0xFE000F80
  immB : Lawful (fun c => c.immB.setWidth 32) (fun c v => c.setImmB (v.setWidth 13))
    0x1FFE 0xFE000F80
  immU : Lawful (fun c => c.immU) (fun c v => c.setImmU v) 0xFFFFF000 0xFFFFF000
  immJ : Lawful (fun c => c.immJ.setWidth 32) (fun c v => c.setImmJ (v.setWidth 21))
    0x1FFFFE 0xFFFFF000
  beside_immI : ∀ (c : Code) (v : BitVec 12), (c.setImmI v).opcode = c.opcode ∧
    (c.setImmI v).rd = c.rd ∧ (c.setImmI v).funct3 = c.funct3 ∧ (c.setImmI v).rs1 = c.rs1
  beside_immS : ∀ (c : Code) (v : BitVec 12), (c.setImmS v).opcode = c.opcode ∧
    (c.setImmS v).funct3 = c.funct3 ∧ (c.setImmS v).rs1 = c.rs1 ∧ (c.setImmS v).rs2 = c.rs2
  beside_immB : ∀ (c : Code) (v : BitVec 13), (c.setImmB v).opcode = c.opcode ∧
    (c.setImmB v).funct3 = c.funct3 ∧ (c.setImmB v).rs1 = c.rs1 ∧ (c.setImmB v).rs2 = c.rs2
  beside_immU : ∀ (c : Code) (v : BitVec 32), (c.setImmU v).opcode = c.opcode ∧
    (c.setImmU v).rd = c.rd
  beside_immJ : ∀ (c : Code) (v : BitVec 21), (c.setImmJ v).opcode = c.opcode ∧
    (c.setImmJ v).rd = c.rd
  signed_immI : ∀ c : Code, (Word.signExtendLow (c.immI.setWidth 64) 12).toInt = Isa.immI c.toNat
  signed_immS : ∀ c : Code, (Word.signExtendLow (c.immS.setWidth 64) 12).toInt = Isa.immS c.toNat
  signed_immB : ∀ c : Code, (Word.signExtendLow (c.immB.setWidth 64) 13).toInt = Isa.immB c.toNat
  signed_immJ : ∀ c : Code, (Word.signExtendLow (c.immJ.setWidth 64) 21).toInt = Isa.immJ c.toNat
  range_immI : ∀ k, (∃ c : Code, Isa.immI c.toNat = k) ↔ -2048 ≤ k ∧ k ≤ 2047
  range_immS : ∀ k, (∃ c : Code, Isa.immS c.toNat = k) ↔ -2048 ≤ k ∧ k ≤ 2047
  range_immB : ∀ k, (∃ c : Code, Isa.immB c.toNat = k) ↔ -4096 ≤ k ∧ k ≤ 4094 ∧ k % 2 = 0
  range_immJ : ∀ k, (∃ c : Code, Isa.immJ c.toNat = k) ↔ -2 ^ 20 ≤ k ∧ k ≤ 2 ^ 20 - 2 ∧ k % 2 = 0
  signExtend : ∀ (v : Word) (n : Nat), 0 < n → n ≤ 64 →
    v.signExtendLow n = (v.setWidth n).signExtend 64 ∧
      (v.signExtendLow n).toInt = Isa.signed n v.toNat

theorem lawfulCodec : LawfulCodec where
  field _ _ := lawful_field
  field_setField lsb count h c v := by
    have hle := h.2
    rw [(lawful_field h).get_set, toNat_and_lowBits v (by omega)]
  immI := Lawful.of_pieces placed_piecesI immI_eq_gather setImmI_eq_scatter
  immS := Lawful.of_pieces placed_piecesS immS_eq_gather setImmS_eq_scatter
  immB := Lawful.of_pieces placed_piecesB immB_eq_gather setImmB_eq_scatter
  immU := Lawful.of_pieces placed_piecesU immU_eq_gather setImmU_eq_scatter
  immJ := Lawful.of_pieces placed_piecesJ immJ_eq_gather setImmJ_eq_scatter
  beside_immI c v := by
    simp (disch := decide) only [setImmI, opcode, rd, funct3, rs1, extractLsb'_setField_of_apart,
      and_self]
  beside_immS c v := by
    simp (disch := decide) only [setImmS, opcode, funct3, rs1, rs2, extractLsb'_setField_of_apart,
      and_self]
  beside_immB c v := by
    simp (disch := decide) only [setImmB, opcode, funct3, rs1, rs2, extractLsb'_setField_of_apart,
      and_self]
  beside_immU c v := by
    simp (disch := decide) only [setImmU_eq_setField, opcode, rd, extractLsb'_setField_of_apart,
      and_self]
  beside_immJ c v := by
    simp (disch := decide) only [setImmJ, opcode, rd, extractLsb'_setField_of_apart, and_self]
  signed_immI c := by rw [Word.toInt_signExtendLow_setWidth _ (by decide) (by decide), toInt_immI]
  signed_immS c := by rw [Word.toInt_signExtendLow_setWidth _ (by decide) (by decide), toInt_immS]
  signed_immB c := by rw [Word.toInt_signExtendLow_setWidth _ (by decide) (by decide), toInt_immB]
  signed_immJ c := by rw [Word.toInt_signExtendLow_setWidth _ (by decide) (by decide), toInt_immJ]
  range_immI k := by
    simp only [← toInt_immI]
    rw [exists_toInt_iff (m := 1) immI setImmI (by decide) (one_dvd _) (fun _ => Nat.mod_one _)
      (fun v _ => immI_setImmI 0 v)]
    omega
  range_immS k := by
    simp only [← toInt_immS]
    rw [exists_toInt_iff (m := 1) immS setImmS (by decide) (one_dvd _) (fun _ => Nat.mod_one _)
      (fun v _ => immS_setImmS 0 v)]
    omega
  range_immB k := by
    simp only [← toInt_immB]
    rw [exists_toInt_iff (m := 2) immB setImmB (by decide) (by decide)
      (fun _ => toNat_append_zeros _ 1) (fun v h => immB_setImmB 0 h)]
    omega
  range_immJ k := by
    simp only [← toInt_immJ]
    rw [exists_toInt_iff (m := 2) immJ setImmJ (by decide) (by decide)
      (fun _ => toNat_append_zeros _ 1) (fun v h => immJ_setImmJ 0 h)]
    omega
  signExtend v n hpos hle :=
    ⟨v.signExtendLow_eq_signExtend hpos hle, v.toInt_signExtendLow hpos hle⟩

end Code

end RiscvHart
