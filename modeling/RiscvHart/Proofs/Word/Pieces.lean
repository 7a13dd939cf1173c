import RiscvHart.Proofs.Word.Fields
import Mathlib.Data.List.Basic
import Mathlib.Data.List.Pairwise
import Mathlib.Tactic.Tauto

/-!
# Numbers in pieces

A number is kept in a word in one or more pieces, each at a place of its own. Reading shifts each
piece to where it belongs in the number; writing replaces one field of the word after the other.
As long as the pieces lie apart, both in the word and in the number, the two are inverse to each
other wherever they can be, and nothing else of the word changes.
-/

namespace RiscvHart.Code

/-- The `count` bits of a number from bit `offset` up, kept in a word from bit `lsb` up. -/
structure Piece where
  lsb : Nat
  count : Nat
  offset : Nat

variable {p q : Piece} {ps : List Piece} {c v : Code} {i lsb count : Nat}

namespace Piece

def InWord (p : Piece) (i : Nat) : Prop := p.lsb ≤ i ∧ i < p.lsb + p.count

def InNumber (p : Piece) (i : Nat) : Prop := p.offset ≤ i ∧ i < p.offset + p.count

def wordMask (p : Piece) : Code := lowBits p.count <<< p.lsb

def numberMask (p : Piece) : Code := lowBits p.count <<< p.offset

/-- The pieces have no bit in common, neither in the word nor in the number. -/
def Apart (p q : Piece) : Prop :=
  (p.lsb + p.count ≤ q.lsb ∨ q.lsb + q.count ≤ p.lsb) ∧
    (p.offset + p.count ≤ q.offset ∨ q.offset + q.count ≤ p.offset)

instance (p q : Piece) : Decidable (p.Apart q) := inferInstanceAs (Decidable (_ ∧ _))

instance : Std.Symm Apart := ⟨fun _ _ h => ⟨h.1.symm, h.2.symm⟩⟩

end Piece

def gather (ps : List Piece) (c : Code) : Code :=
  ps.foldr (fun p v => c.field p.lsb p.count <<< p.offset ||| v) 0

def scatter (ps : List Piece) (c v : Code) : Code :=
  ps.foldl (fun c p => c.setField p.lsb p.count (v >>> p.offset)) c

def union (mask : Piece → Code) (ps : List Piece) : Code := ps.foldr (fun p m => mask p ||| m) 0

@[simp] theorem gather_nil (c : Code) : gather [] c = 0 := rfl

@[simp] theorem gather_cons (p : Piece) (ps : List Piece) (c : Code) :
    gather (p :: ps) c = c.field p.lsb p.count <<< p.offset ||| gather ps c := rfl

@[simp] theorem scatter_nil (c v : Code) : scatter [] c v = c := rfl

@[simp] theorem scatter_cons (p : Piece) (ps : List Piece) (c v : Code) :
    scatter (p :: ps) c v = scatter ps (c.setField p.lsb p.count (v >>> p.offset)) v := rfl

@[simp] theorem union_nil (mask : Piece → Code) : union mask [] = 0 := rfl

@[simp] theorem union_cons (mask : Piece → Code) (p : Piece) (ps : List Piece) :
    union mask (p :: ps) = mask p ||| union mask ps := rfl

/-- Pieces that a word and a number have room for, and that lie apart. -/
structure Placed (ps : List Piece) : Prop where
  room : ∀ p ∈ ps, p.lsb + p.count ≤ 32 ∧ p.offset + p.count ≤ 32
  apart : ps.Pairwise Piece.Apart

/-! ## Bits -/

theorem getLsbD_field (c : Code) (lsb count i : Nat) :
    (c.field lsb count).getLsbD i = true ↔ i < 32 ∧ i < count ∧ c.getLsbD (lsb + i) = true := by
  rw [field, BitVec.getLsbD_and, BitVec.getLsbD_ushiftRight, getLsbD_lowBits, Bool.and_eq_true,
    decide_eq_true_iff]
  tauto

theorem getLsbD_lowBits_shiftLeft (h : lsb + count ≤ 32) :
    (lowBits count <<< lsb).getLsbD i = true ↔ lsb ≤ i ∧ i < lsb + count := by
  simp only [BitVec.getLsbD_shiftLeft, getLsbD_lowBits, Bool.and_eq_true, Bool.not_eq_true',
    decide_eq_true_iff, decide_eq_false_iff_not]
  omega

theorem getLsbD_union {mask : Piece → Code} :
    (union mask ps).getLsbD i = true ↔ ∃ p ∈ ps, (mask p).getLsbD i = true := by
  induction ps with
  | nil => simp
  | cons p rest ih =>
    rw [union_cons, BitVec.getLsbD_or, Bool.or_eq_true, List.exists_mem_cons_iff, ih]

theorem Placed.getLsbD_wordMask (h : Placed ps) :
    (union Piece.wordMask ps).getLsbD i = true ↔ ∃ p ∈ ps, p.InWord i := by
  rw [getLsbD_union]
  apply exists_congr
  intro p
  apply and_congr_right
  intro hp
  exact getLsbD_lowBits_shiftLeft (h.room p hp).1

theorem Placed.getLsbD_numberMask (h : Placed ps) :
    (union Piece.numberMask ps).getLsbD i = true ↔ ∃ p ∈ ps, p.InNumber i := by
  rw [getLsbD_union]
  apply exists_congr
  intro p
  apply and_congr_right
  intro hp
  exact getLsbD_lowBits_shiftLeft (h.room p hp).2

theorem getLsbD_gather (h : Placed ps) :
    (gather ps c).getLsbD i = true ↔
      ∃ p ∈ ps, p.InNumber i ∧ c.getLsbD (p.lsb + (i - p.offset)) = true := by
  obtain ⟨hroom, -⟩ := h
  induction ps with
  | nil => simp
  | cons p rest ih =>
    obtain ⟨hp, hrest⟩ := List.forall_mem_cons.mp hroom
    rw [gather_cons, BitVec.getLsbD_or, Bool.or_eq_true, List.exists_mem_cons_iff, ih hrest]
    apply or_congr_left
    rw [BitVec.getLsbD_shiftLeft, Bool.and_eq_true, getLsbD_field, Piece.InNumber]
    simp only [Bool.and_eq_true, Bool.not_eq_true', decide_eq_true_iff, decide_eq_false_iff_not]
    constructor
    · rintro ⟨⟨hi, hle⟩, hlt, hcount, hbit⟩
      exact ⟨⟨by omega, by omega⟩, hbit⟩
    · rintro ⟨⟨hle, hlt⟩, hbit⟩
      exact ⟨⟨by omega, by omega⟩, by omega, by omega, hbit⟩

theorem Placed.tail (h : Placed (p :: ps)) : Placed ps :=
  ⟨(List.forall_mem_cons.mp h.room).2, (List.pairwise_cons.mp h.apart).2⟩

theorem getLsbD_scatter_of_forall_not (h : Placed ps) (hi : ∀ p ∈ ps, ¬p.InWord i) :
    (scatter ps c v).getLsbD i = c.getLsbD i := by
  induction ps generalizing c with
  | nil => rfl
  | cons p rest ih =>
    obtain ⟨hp, hrest⟩ := List.forall_mem_cons.mp hi
    have hroom := (h.room p List.mem_cons_self).1
    calc (scatter rest (c.setField p.lsb p.count (v >>> p.offset)) v).getLsbD i
      _ = (c.setField p.lsb p.count (v >>> p.offset)).getLsbD i := ih h.tail hrest
      _ = c.getLsbD i := (getLsbD_setField _ _ hroom i).trans (if_neg hp)

/-- A bit in the place of a piece is the bit of the number that belongs there: no later piece
writes it again. -/
theorem getLsbD_scatter_of_mem (h : Placed ps) (hp : p ∈ ps) (hi : p.InWord i) :
    (scatter ps c v).getLsbD i = v.getLsbD (p.offset + (i - p.lsb)) := by
  induction ps generalizing c with
  | nil => cases hp
  | cons q rest ih =>
    rcases List.mem_cons.mp hp with rfl | hp
    · have hroom := (h.room p List.mem_cons_self).1
      have hlater : ∀ q ∈ rest, ¬q.InWord i := by
        intro q hq hqi
        have hapart := ((List.pairwise_cons.mp h.apart).1 q hq).1
        simp only [Piece.InWord] at hi hqi
        omega
      calc (scatter rest (c.setField p.lsb p.count (v >>> p.offset)) v).getLsbD i
        _ = (c.setField p.lsb p.count (v >>> p.offset)).getLsbD i :=
          getLsbD_scatter_of_forall_not h.tail hlater
        _ = (v >>> p.offset).getLsbD (i - p.lsb) :=
          (getLsbD_setField _ _ hroom i).trans (if_pos hi)
        _ = v.getLsbD (p.offset + (i - p.lsb)) := BitVec.getLsbD_ushiftRight ..
    · exact ih h.tail hp

/-! ## Laws -/

/-- What a getter and a setter have to do with each other: the setter takes the bits of a number
that `carried` has, and changes those of the word that `held` has. -/
structure Lawful (get : Code → Code) (set : Code → Code → Code) (carried held : Code) : Prop where
  get_set : ∀ c v, get (set c v) = v &&& carried
  set_get : ∀ c, set c (get c) = c
  set_set : ∀ c v w, set (set c v) w = set c w
  kept : ∀ c v, set c v &&& ~~~held = c &&& ~~~held

theorem Placed.gather_scatter (h : Placed ps) (c v : Code) :
    gather ps (scatter ps c v) = v &&& union Piece.numberMask ps := by
  apply BitVec.eq_of_getLsbD_eq
  intro i _
  rw [Bool.eq_iff_iff, getLsbD_gather h, BitVec.getLsbD_and, Bool.and_eq_true,
    h.getLsbD_numberMask]
  have hbit : ∀ p ∈ ps, p.InNumber i →
      (scatter ps c v).getLsbD (p.lsb + (i - p.offset)) = v.getLsbD i := by
    intro p hp hi
    have hin : p.InWord (p.lsb + (i - p.offset)) := by
      simp only [Piece.InWord, Piece.InNumber] at hi ⊢
      omega
    rw [getLsbD_scatter_of_mem h hp hin]
    congr 1
    have hle := hi.1
    omega
  constructor
  · rintro ⟨p, hp, hi, hset⟩
    exact ⟨(hbit p hp hi).symm.trans hset, p, hp, hi⟩
  · rintro ⟨hset, p, hp, hi⟩
    exact ⟨p, hp, hi, (hbit p hp hi).trans hset⟩

/-- The number that is read has each bit of a piece where that piece is written from. -/
theorem Placed.getLsbD_gather_of_mem (h : Placed ps) (hp : p ∈ ps) (hi : p.InWord i) :
    (gather ps c).getLsbD (p.offset + (i - p.lsb)) = c.getLsbD i := by
  have hback : p.lsb + (p.offset + (i - p.lsb) - p.offset) = i := by
    have hle := hi.1
    omega
  rw [Bool.eq_iff_iff, getLsbD_gather h]
  constructor
  · rintro ⟨q, hq, hqi, hset⟩
    have hqp : q = p := by
      by_contra hne
      have hapart := (h.apart.forall hq hp hne).2
      simp only [Piece.InWord, Piece.InNumber] at hi hqi
      omega
    rwa [hqp, hback] at hset
  · intro hset
    refine ⟨p, hp, ?_, by rwa [hback]⟩
    simp only [Piece.InWord, Piece.InNumber] at hi ⊢
    omega

/-- Words with the same bits in the places of the pieces and the same bits
elsewhere are the same. -/
theorem eq_of_pieces {x y : Code} (ps : List Piece)
    (hin : ∀ p ∈ ps, ∀ i, p.InWord i → x.getLsbD i = y.getLsbD i)
    (hout : ∀ i, (∀ p ∈ ps, ¬p.InWord i) → x.getLsbD i = y.getLsbD i) : x = y := by
  apply BitVec.eq_of_getLsbD_eq
  intro i _
  by_cases hi : ∃ p ∈ ps, p.InWord i
  · obtain ⟨p, hp, hpi⟩ := hi
    exact hin p hp i hpi
  · exact hout i fun p hp hpi => hi ⟨p, hp, hpi⟩

theorem Placed.lawful (h : Placed ps) :
    Lawful (gather ps) (scatter ps) (union Piece.numberMask ps) (union Piece.wordMask ps) where
  get_set := h.gather_scatter
  set_get c := by
    apply eq_of_pieces ps
    · intro p hp i hi
      rw [getLsbD_scatter_of_mem h hp hi, h.getLsbD_gather_of_mem hp hi]
    · intro i hi
      exact getLsbD_scatter_of_forall_not h hi
  set_set c v w := by
    apply eq_of_pieces ps
    · intro p hp i hi
      rw [getLsbD_scatter_of_mem h hp hi, getLsbD_scatter_of_mem h hp hi]
    · intro i hi
      simp only [getLsbD_scatter_of_forall_not h hi]
  kept c v := by
    apply eq_of_pieces ps
    · intro p hp i hi
      have hheld := h.getLsbD_wordMask.mpr ⟨p, hp, hi⟩
      simp [hheld]
    · intro i hi
      rw [BitVec.getLsbD_and, BitVec.getLsbD_and, getLsbD_scatter_of_forall_not h hi]

end RiscvHart.Code
