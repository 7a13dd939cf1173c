import RiscvHart.Text.Utf8
import RiscvHart.Word.Pattern
import Mathlib.Algebra.Order.Ring.Nat
import Mathlib.Data.List.Basic
import Mathlib.Data.List.Induction

/-!
# What a written pattern means

A written pattern is read from the left with two words that are shifted as it goes on, so its
last mark ends up at bit 0 and the first of 32 marks at bit 31. The bytes of other characters are
never those of a mark.
-/

namespace RiscvHart.Pattern

variable {c : Char} {p q : Pattern} {bits : List (Option Bool)} {i : Nat}

/-! ## Marks -/

def IsMark (c : Char) : Prop := c = '0' ∨ c = '1' ∨ c = '?'

instance : DecidablePred IsMark := fun c =>
  inferInstanceAs (Decidable (c = '0' ∨ c = '1' ∨ c = '?'))

def marks (text : String) : List Char := text.toList.filter fun c => decide (IsMark c)

def mark : Option Bool → Char
  | some false => '0'
  | some true => '1'
  | none => '?'

theorem readBit?_eq_some_iff {bit : Option Bool} : readBit? c = some bit ↔ c = mark bit := by
  constructor
  · intro h
    unfold readBit? at h
    split at h <;> cases h <;> rfl
  · rintro rfl
    rcases bit with - | - | - <;> rfl

theorem isMark_iff : IsMark c ↔ ∃ bit, c = mark bit := by
  constructor
  · rintro (rfl | rfl | rfl)
    exacts [⟨some false, rfl⟩, ⟨some true, rfl⟩, ⟨none, rfl⟩]
  · rintro ⟨- | - | -, rfl⟩ <;> decide

theorem readBit?_eq_none_iff : readBit? c = none ↔ ¬IsMark c := by
  rw [isMark_iff, Option.eq_none_iff_forall_ne_some, not_exists]
  simp only [ne_eq, readBit?_eq_some_iff]

theorem map_mark_filterMap (cs : List Char) :
    (cs.filterMap readBit?).map mark = cs.filter fun c => decide (IsMark c) := by
  induction cs with
  | nil => rfl
  | cons c rest ih =>
    by_cases h : IsMark c
    · obtain ⟨bit, hbit⟩ := isMark_iff.mp h
      rw [List.filterMap_cons_some (readBit?_eq_some_iff.mpr hbit), List.map_cons, ih, ← hbit]
      simp [h]
    · rw [List.filterMap_cons_none (readBit?_eq_none_iff.mpr h), ih]
      simp [h]

theorem marks_eq (text : String) : marks text = (text.toList.filterMap readBit?).map mark :=
  (map_mark_filterMap _).symm

/-! ## Marks as bytes -/

def asciiByte (c : Char) : Byte := BitVec.ofNat 8 c.toNat

def IsMarkByte (b : Byte) : Prop := b = asciiByte '0' ∨ b = asciiByte '1' ∨ b = asciiByte '?'

instance : DecidablePred IsMarkByte := fun b =>
  inferInstanceAs (Decidable (b = asciiByte '0' ∨ b = asciiByte '1' ∨ b = asciiByte '?'))

theorem IsMarkByte.lt {b : Byte} (h : IsMarkByte b) : b.toNat < 128 := by
  rcases h with rfl | rfl | rfl <;> decide

theorem IsMark.lt (h : IsMark c) : c.toNat < 128 := by
  rcases h with rfl | rfl | rfl <;> decide

theorem asciiByte_inj {d : Char} (hc : c.toNat < 128) (hd : d.toNat < 128) :
    asciiByte c = asciiByte d ↔ c = d := by
  refine ⟨fun h => ?_, congrArg asciiByte⟩
  have hnat := congrArg BitVec.toNat h
  simp only [asciiByte, BitVec.toNat_ofNat] at hnat
  apply Char.toNat_inj.mp
  omega

theorem isMarkByte_asciiByte (hc : c.toNat < 128) : IsMarkByte (asciiByte c) ↔ IsMark c := by
  simp only [IsMarkByte, IsMark]
  rw [asciiByte_inj hc (by decide), asciiByte_inj hc (by decide), asciiByte_inj hc (by decide)]

theorem le_toNat_ofNat {n : Nat} (h : 128 ≤ n) (hlt : n < 256) :
    128 ≤ (UInt8.ofNat n).toBitVec.toNat := by
  simp only [UInt8.toBitVec_ofNat', BitVec.toNat_ofNat]
  omega

/-- A character beyond ASCII has bytes with the highest bit set only. -/
theorem utf8EncodeChar_cases (c : Char) :
    c.toNat < 128 ∧ (String.utf8EncodeChar c).map UInt8.toBitVec = [asciiByte c] ∨
      128 ≤ c.toNat ∧ ∀ b ∈ (String.utf8EncodeChar c).map UInt8.toBitVec, 128 ≤ b.toNat := by
  by_cases h : c.toNat < 128
  · refine Or.inl ⟨h, ?_⟩
    have hle : c.val.toNat ≤ 127 := Nat.le_of_lt_succ h
    simp only [String.utf8EncodeChar, if_pos hle]
    rfl
  · refine Or.inr ⟨by omega, ?_⟩
    have hle : ¬c.val.toNat ≤ 127 := fun hle => h (Nat.lt_succ_of_le hle)
    simp only [String.utf8EncodeChar, if_neg hle]
    split_ifs
    all_goals
      simp only [List.map_cons, List.map_nil, List.forall_mem_cons, List.not_mem_nil, false_implies,
        implies_true, and_true]
    · constructor <;> apply le_toNat_ofNat <;> omega
    · refine ⟨?_, ?_, ?_⟩ <;> apply le_toNat_ofNat <;> omega
    · refine ⟨?_, ?_, ?_, ?_⟩ <;> apply le_toNat_ofNat <;> omega

/-- The bytes of the marks are the bytes of a text that look like one. -/
theorem filter_utf8 (text : String) :
    (Text.utf8 text).filter (fun b => decide (IsMarkByte b)) = (marks text).map asciiByte := by
  rw [Text.utf8, marks]
  induction text.toList with
  | nil => rfl
  | cons c rest ih =>
    rw [List.flatMap_cons, List.map_append, List.filter_append, ih]
    rcases utf8EncodeChar_cases c with ⟨hlt, hone⟩ | ⟨hge, hhigh⟩
    · have hmark := isMarkByte_asciiByte hlt
      rw [hone]
      by_cases h : IsMark c
      · simp [h, hmark.mpr h]
      · simp [h, mt hmark.mp h]
    · have hbytes : ((String.utf8EncodeChar c).map UInt8.toBitVec).filter
          (fun b => decide (IsMarkByte b)) = [] := by
        rw [List.filter_eq_nil_iff]
        intro b hb hmark
        have hlt := (of_decide_eq_true hmark).lt
        have hle := hhigh b hb
        omega
      have hnot : ¬IsMark c := fun h => by
        have hlt := h.lt
        omega
      rw [hbytes]
      simp [hnot]

/-! ## Bits -/

theorem getLsbD_shiftLeft_or_bit (w : Code) (b : Prop) [Decidable b] (hi : i < 32) :
    (w <<< 1 ||| (if b then 1 else 0)).getLsbD i =
      if i = 0 then decide b else w.getLsbD (i - 1) := by
  have hbit : (if b then 1 else 0 : Code).getLsbD i = (decide (i = 0) && decide b) := by
    by_cases h : b <;> simp [h, BitVec.getLsbD_one]
  rw [BitVec.getLsbD_or, hbit, BitVec.getLsbD_shiftLeft]
  by_cases h : i = 0
  · simp [h]
  · simp [h, hi, show ¬i < 1 by omega]

theorem ofBits_concat (bits : List (Option Bool)) (bit : Option Bool) :
    ofBits (bits ++ [bit]) = (ofBits bits).push bit := by
  rw [ofBits, ofBits, List.foldl_concat]

/-- The last mark tells about bit 0, and each mark about the bit above that of the next one. -/
theorem getLsbD_ofBits (bits : List (Option Bool)) (hi : i < 32) :
    (ofBits bits).key.getLsbD i = decide (bits.reverse[i]? = some (some true)) ∧
      (ofBits bits).mask.getLsbD i = decide (∃ b, bits.reverse[i]? = some (some b)) := by
  induction bits using List.reverseRecOn generalizing i with
  | nil => simp [ofBits]
  | append_singleton bits bit ih =>
    rw [ofBits_concat, List.reverse_concat, push]
    simp only [getLsbD_shiftLeft_or_bit _ _ hi]
    cases i with
    | zero => simp [Option.isSome_iff_exists]
    | succ i =>
      obtain ⟨hkey, hmask⟩ := ih (i := i) (by omega)
      simp [hkey, hmask]

theorem exists_bit (h : bits.length = 32) (hi : i < 32) :
    ∃ bit, (bits.map mark)[31 - i]? = some (mark bit) ∧
      (ofBits bits).key.getLsbD i = decide (bit = some true) ∧
      (ofBits bits).mask.getLsbD i = bit.isSome := by
  have hlt : 31 - i < bits.length := by omega
  have hback : bits.length - 1 - i = 31 - i := by omega
  obtain ⟨hkey, hmask⟩ := getLsbD_ofBits bits hi
  rw [List.getElem?_reverse (by omega), hback, List.getElem?_eq_getElem hlt] at hkey hmask
  refine ⟨bits[31 - i], ?_, ?_, ?_⟩
  · rw [List.getElem?_map, List.getElem?_eq_getElem hlt, Option.map_some]
  · simpa using hkey
  · rw [hmask, Bool.eq_iff_iff, decide_eq_true_iff, Option.isSome_iff_exists]
    simp only [Option.some.injEq]

theorem matches_iff (p : Pattern) (c : Code) :
    p.Matches c ↔ ∀ i < 32, (c.getLsbD i && p.mask.getLsbD i) = p.key.getLsbD i := by
  constructor
  · intro h i _
    rw [← BitVec.getLsbD_and, show c &&& p.mask = p.key from h]
  · intro h
    apply BitVec.eq_of_getLsbD_eq
    intro i hi
    rw [BitVec.getLsbD_and, h i hi]

/-- What a pattern is when it is written with the marks `cs`, the first for bit 31: a `?` leaves
its bit open, and the other two give it a value. -/
structure Describes (cs : List Char) (p : Pattern) : Prop where
  length : cs.length = 32
  mask : ∀ i < 32, (p.mask.getLsbD i = true ↔ cs[31 - i]? ≠ some '?')
  key : ∀ i < 32, (p.key.getLsbD i = true ↔ cs[31 - i]? = some '1')
  within : p.key &&& p.mask = p.key
  accepts_iff : ∀ c, p.accepts c = true ↔ ∀ i < 32,
    cs[31 - i]? = some '?' ∨ cs[31 - i]? = some (if c.getLsbD i then '1' else '0')

theorem describes_ofBits (h : bits.length = 32) : Describes (bits.map mark) (ofBits bits) where
  length := by rw [List.length_map, h]
  mask i hi := by
    obtain ⟨bit, hmark, -, hmask⟩ := exists_bit h hi
    rw [hmark, hmask]
    rcases bit with - | - | - <;> decide
  key i hi := by
    obtain ⟨bit, hmark, hkey, -⟩ := exists_bit h hi
    rw [hmark, hkey]
    rcases bit with - | - | - <;> decide
  within := by
    apply BitVec.eq_of_getLsbD_eq
    intro i hi
    obtain ⟨bit, -, hkey, hmask⟩ := exists_bit h hi
    rw [BitVec.getLsbD_and, hkey, hmask]
    rcases bit with - | - | - <;> decide
  accepts_iff c := by
    rw [accepts_iff, matches_iff]
    apply forall₂_congr
    intro i hi
    obtain ⟨bit, hmark, hkey, hmask⟩ := exists_bit h hi
    rw [hmark, hkey, hmask]
    cases c.getLsbD i <;> rcases bit with - | - | - <;> decide

theorem Describes.unique {cs : List Char} (hp : Describes cs p) (hq : Describes cs q) : p = q := by
  have hkey : p.key = q.key := by
    apply BitVec.eq_of_getLsbD_eq
    intro i hi
    rw [Bool.eq_iff_iff, hp.key i hi, hq.key i hi]
  have hmask : p.mask = q.mask := by
    apply BitVec.eq_of_getLsbD_eq
    intro i hi
    rw [Bool.eq_iff_iff, hp.mask i hi, hq.mask i hi]
  cases p
  cases q
  simp only at hkey hmask
  rw [hkey, hmask]

theorem ofString?_eq_ite (text : String) : ofString? text =
    if (marks text).length = 32 then some (ofBits (text.toList.filterMap readBit?)) else none := by
  rw [marks_eq, List.length_map, ofString?]

theorem ofString?_eq_none_iff {text : String} :
    ofString? text = none ↔ (marks text).length ≠ 32 := by
  rw [ofString?_eq_ite]
  by_cases h : (marks text).length = 32 <;> simp [h]

theorem ofString?_eq_some_iff {text : String} :
    ofString? text = some p ↔ Describes (marks text) p := by
  rw [ofString?_eq_ite]
  by_cases h : (marks text).length = 32
  · have hof : Describes (marks text) (ofBits (text.toList.filterMap readBit?)) := by
      rw [marks_eq] at h ⊢
      exact describes_ofBits (by rwa [List.length_map] at h)
    rw [if_pos h, Option.some_inj]
    constructor
    · rintro rfl
      exact hof
    · exact hof.unique
  · rw [if_neg h]
    constructor
    · rintro ⟨⟩
    · intro hp
      exact absurd hp.length h

/-- A written pattern is read exactly when it has 32 marks, and then as what they describe; bytes
and characters that are no marks have no part in it. -/
theorem reads_marks (text : String) :
    (Text.utf8 text).filter (fun b => decide (IsMarkByte b)) = (marks text).map asciiByte ∧
      (ofString? text = none ↔ (marks text).length ≠ 32) ∧
      (∀ p, ofString? text = some p ↔ Describes (marks text) p) ∧
      ∀ text', marks text' = marks text → ofString? text' = ofString? text := by
  refine ⟨filter_utf8 text, ofString?_eq_none_iff, fun p => ofString?_eq_some_iff, ?_⟩
  intro text' h
  apply Option.ext
  intro p
  rw [ofString?_eq_some_iff, ofString?_eq_some_iff, h]

theorem reads_marks_separated :
    marks "0100°00??|?????????~101?????é0010011" = marks "010000 ?????? ????? 101 ????? 0010011" ∧
      ofString? "0100°00??|?????????~101?????é0010011" =
        ofString? "010000 ?????? ????? 101 ????? 0010011" := by
  have hmarks : marks "0100°00??|?????????~101?????é0010011" =
      marks "010000 ?????? ????? 101 ????? 0010011" := by decide
  exact ⟨hmarks, (reads_marks _).2.2.2 _ hmarks⟩

end RiscvHart.Pattern
