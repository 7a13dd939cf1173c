import RiscvHart.Proofs.Text.Numeral
import Mathlib.Data.List.Forall2
import Mathlib.Data.List.TakeWhile
import Mathlib.Data.Nat.Digits.Defs

/-!
# Which texts are numerals

The grammar of the numerals of words, without the functions that read them. A text is read
exactly when it is a numeral of a number below the limit, with blanks around it or none, and then
as that number; leading zeros change nothing.
-/

namespace RiscvHart

variable {r : Radix} {c : Char} {cs : List Char} {d n limit acc : Nat} {ds : List Nat} {s : String}
  {v : Word}

namespace Radix

def lowerDigits : List Char :=
  ['0', '1', '2', '3', '4', '5', '6', '7', '8', '9', 'a', 'b', 'c', 'd', 'e', 'f']

def upperDigits : List Char :=
  ['0', '1', '2', '3', '4', '5', '6', '7', '8', '9', 'A', 'B', 'C', 'D', 'E', 'F']

def IsDigit (r : Radix) (c : Char) (d : Nat) : Prop :=
  d < r.base ∧ (lowerDigits[d]? = some c ∨ upperDigits[d]? = some c)

instance : Decidable (r.IsDigit c d) := inferInstanceAs (Decidable (_ ∧ _))

theorem base_le_sixteen (r : Radix) : r.base ≤ 16 := by cases r <;> decide

theorem digitValue?_hexadecimal_of_getElem? (hd : d < 16)
    (h : lowerDigits[d]? = some c ∨ upperDigits[d]? = some c) :
    hexadecimal.digitValue? c = some d := by
  interval_cases d <;> rcases h with h | h <;> cases h <;> rfl

/-- What holds of every character of a range, one after the other. -/
theorem of_between {P : Char → Prop} (first last : Char)
    (h : ∀ k ∈ List.range' first.toNat (last.toNat + 1 - first.toNat), P (Char.ofNat k))
    (hc : first ≤ c ∧ c ≤ last) : P c := by
  have hge : first.toNat ≤ c.toNat := hc.1
  have hle : c.toNat ≤ last.toNat := hc.2
  rw [← Char.ofNat_toNat c]
  apply h
  rw [List.mem_range'_1]
  omega

theorem getElem?_of_digitValue?_hexadecimal (h : hexadecimal.digitValue? c = some d) :
    lowerDigits[d]? = some c ∨ upperDigits[d]? = some c := by
  rw [digitValue?, Option.filter_eq_some_iff] at h
  obtain ⟨hvalue, -⟩ := h
  split_ifs at hvalue with hdecimal hlower hupper
  · cases hvalue
    apply of_between '0' '9' _ hdecimal
    decide
  · cases hvalue
    apply of_between 'a' 'f' _ hlower
    decide
  · cases hvalue
    apply of_between 'A' 'F' _ hupper
    decide

/-- A digit of the lower base is the same digit of the higher one. -/
theorem digitValue?_eq_filter (r : Radix) (c : Char) :
    r.digitValue? c = (hexadecimal.digitValue? c).filter (· < r.base) := by
  have hle := r.base_le_sixteen
  rw [digitValue?, digitValue?, Option.filter_filter]
  congr 1
  funext d
  rw [Bool.eq_iff_iff, Bool.and_eq_true, decide_eq_true_iff, decide_eq_true_iff]
  change d < r.base ↔ d < 16 ∧ d < r.base
  omega

theorem digitValue?_eq_some_iff : r.digitValue? c = some d ↔ r.IsDigit c d := by
  rw [digitValue?_eq_filter, Option.filter_eq_some_iff, decide_eq_true_iff, IsDigit, and_comm]
  apply and_congr_right
  intro hd
  exact ⟨getElem?_of_digitValue?_hexadecimal,
    digitValue?_hexadecimal_of_getElem? (hd.trans_le r.base_le_sixteen)⟩

theorem digitsBefore_ne_nil (r : Radix) (n : Nat) (tail : List Char) :
    r.digitsBefore n tail ≠ [] := by
  induction n, tail using digitsBefore.induct (r := r) with
  | case1 n tail hsmall =>
    rw [digitsBefore, if_pos hsmall]
    exact List.cons_ne_nil _ _
  | case2 n tail hlarge ih =>
    rw [digitsBefore, if_neg hlarge]
    exact ih

theorem digits_ne_nil (r : Radix) (n : Nat) : r.digits n ≠ [] := r.digitsBefore_ne_nil n []

end Radix

namespace Text

variable {before after : List Char}

theorem dropWhile_isBlank (h : ∀ c ∈ cs, isBlank c = false) : cs.dropWhile isBlank = cs := by
  apply List.dropWhile_eq_self_iff.mpr
  intro hpos
  rw [h _ (List.getElem_mem hpos)]
  exact Bool.false_ne_true

/-- Trimming leaves what stands between the blanks. -/
theorem trim_append (hbefore : ∀ c ∈ before, isBlank c = true)
    (hcs : ∀ c ∈ cs, isBlank c = false) (hafter : ∀ c ∈ after, isBlank c = true) :
    trim (before ++ cs ++ after) = cs := by
  rw [trim, List.append_assoc, List.dropWhile_append_of_pos hbefore, List.dropWhile_append,
    dropWhile_isBlank hcs]
  split
  · rename_i hempty
    rw [List.dropWhile_eq_nil_iff.mpr hafter, List.isEmpty_iff.mp hempty]
    rfl
  · have hafter : ∀ c ∈ after.reverse, isBlank c = true := fun c hc =>
      hafter c (List.mem_reverse.mp hc)
    have hcs : ∀ c ∈ cs.reverse, isBlank c = false := fun c hc => hcs c (List.mem_reverse.mp hc)
    rw [List.reverse_append, List.dropWhile_append_of_pos hafter, dropWhile_isBlank hcs,
      List.reverse_reverse]

/-- Trimming takes blanks away and nothing else. -/
theorem exists_append_trim (cs : List Char) : ∃ before after, cs = before ++ trim cs ++ after ∧
    (∀ c ∈ before, isBlank c = true) ∧ ∀ c ∈ after, isBlank c = true := by
  have hsplit (l : List Char) : l.takeWhile isBlank ++ l.dropWhile isBlank = l :=
    List.takeWhile_append_dropWhile
  have hblank (l : List Char) : ∀ c ∈ l.takeWhile isBlank, isBlank c = true := fun _ hc =>
    List.mem_takeWhile_imp hc
  let rest := (cs.dropWhile isBlank).reverse
  refine ⟨cs.takeWhile isBlank, (rest.takeWhile isBlank).reverse, ?_, hblank cs, ?_⟩
  · calc cs = cs.takeWhile isBlank ++ rest.reverse := by rw [List.reverse_reverse, hsplit]
      _ = cs.takeWhile isBlank ++ (rest.takeWhile isBlank ++ rest.dropWhile isBlank).reverse := by
        rw [hsplit]
      _ = cs.takeWhile isBlank ++ trim cs ++ (rest.takeWhile isBlank).reverse := by
        rw [List.reverse_append, List.append_assoc]
        rfl
  · intro c hc
    exact hblank rest c (List.mem_reverse.mp hc)

end Text

namespace Numeral

open Radix

/-! ## The grammar -/

/-- `cs` are digits, one or more and the highest first, that stand for `n`. -/
def Spells (r : Radix) (cs : List Char) (n : Nat) : Prop :=
  cs ≠ [] ∧ ∃ ds, List.Forall₂ r.IsDigit cs ds ∧ Nat.ofDigits r.base ds.reverse = n

/-- Digits with one plus sign before them or none. -/
inductive Unsigned (r : Radix) : List Char → Nat → Prop
  | plain {cs : List Char} {n : Nat} : Spells r cs n → Unsigned r cs n
  | plus {cs : List Char} {n : Nat} : Spells r cs n → Unsigned r ('+' :: cs) n

inductive Written : List Char → Nat → Prop
  | decimal {cs : List Char} {n : Nat} : Unsigned .decimal cs n → Written cs n
  | lowerMark {cs : List Char} {n : Nat} :
      Unsigned .hexadecimal cs n → Written ('0' :: 'x' :: cs) n
  | upperMark {cs : List Char} {n : Nat} :
      Unsigned .hexadecimal cs n → Written ('0' :: 'X' :: cs) n

def StandsFor (s : String) (n : Nat) : Prop :=
  ∃ before cs after, s.toList = before ++ cs ++ after ∧ (∀ c ∈ before, Text.isBlank c = true) ∧
    (∀ c ∈ after, Text.isBlank c = true) ∧ Written cs n

def below (limit n : Nat) : Except NumeralError Nat := if n < limit then .ok n else .error .tooLarge

theorem below_eq_ok_iff {m : Nat} : below limit n = .ok m ↔ n < limit ∧ n = m := by
  unfold below
  split <;> simp_all

/-! ## Digits -/

theorem ofDigits_reverse (b : Nat) (ds : List Nat) :
    Nat.ofDigits b ds.reverse = ds.foldl (fun a d => a * b + d) 0 := by
  rw [Nat.ofDigits_eq_foldr, List.foldr_reverse]
  simp only [Nat.cast_id, Nat.mul_comm b, Nat.add_comm]

theorem le_foldl (b : Nat) (hb : 0 < b) (ds : List Nat) (acc : Nat) :
    acc ≤ ds.foldl (fun a d => a * b + d) acc := by
  induction ds generalizing acc with
  | nil => exact Nat.le_refl _
  | cons d rest ih =>
    calc acc ≤ acc * b := Nat.le_mul_of_pos_right acc hb
      _ ≤ acc * b + d := Nat.le_add_right _ _
      _ ≤ _ := ih _

/-- Digits are read as their number if it is below the limit. No digit makes the number smaller,
so the limit is passed at some digit exactly when the whole number passes it. -/
theorem readDigits_of_forall₂ (h : List.Forall₂ r.IsDigit cs ds) (hacc : acc < limit) :
    readDigits r limit acc cs = below limit (ds.foldl (fun a d => a * r.base + d) acc) := by
  induction h generalizing acc with
  | nil => exact (if_pos hacc).symm
  | @cons c d cs ds hdigit hrest ih =>
    rw [readDigits, digitValue?_eq_some_iff.mpr hdigit, List.foldl_cons]
    by_cases hlt : acc * r.base + d < limit
    · rw [← ih hlt]
      exact if_pos hlt
    · have hpos : 0 < r.base := Nat.zero_lt_of_lt r.one_lt_base
      have hle := le_foldl r.base hpos ds (acc * r.base + d)
      rw [below, if_neg (by omega)]
      exact if_neg hlt

theorem exists_forall₂_of_readDigits (h : readDigits r limit acc cs = .ok n) :
    ∃ ds, List.Forall₂ r.IsDigit cs ds := by
  induction cs generalizing acc with
  | nil => exact ⟨[], List.Forall₂.nil⟩
  | cons c rest ih =>
    rw [readDigits] at h
    split at h
    · cases h
    · rename_i d hdigit
      split at h
      · obtain ⟨ds, hds⟩ := ih h
        exact ⟨d :: ds, List.Forall₂.cons (digitValue?_eq_some_iff.mp hdigit) hds⟩
      · cases h

theorem Spells.readDigits (h : Spells r cs n) (hlimit : 0 < limit) :
    readDigits r limit 0 cs = below limit n := by
  obtain ⟨-, ds, hds, rfl⟩ := h
  rw [readDigits_of_forall₂ hds hlimit, ofDigits_reverse]

theorem spells_of_readDigits (hne : cs ≠ []) (h : readDigits r limit 0 cs = .ok n)
    (hlimit : 0 < limit) : Spells r cs n := by
  obtain ⟨ds, hds⟩ := exists_forall₂_of_readDigits h
  have hspells : Spells r cs (Nat.ofDigits r.base ds.reverse) := ⟨hne, ds, hds, rfl⟩
  rw [hspells.readDigits hlimit] at h
  rwa [(below_eq_ok_iff.mp h).2] at hspells

theorem Spells.exists_isDigit (h : Spells r cs n) (hc : c ∈ cs) : ∃ d, r.IsDigit c d := by
  obtain ⟨-, ds, hds, -⟩ := h
  induction hds with
  | nil => cases hc
  | @cons c' d _ _ hdigit _ ih =>
    rcases List.mem_cons.mp hc with rfl | hc
    · exact ⟨d, hdigit⟩
    · exact ih hc

/-! ## Signs and marks -/

theorem plus_not_isDigit : ¬r.IsDigit '+' d := by
  rw [← digitValue?_eq_some_iff, digitValue?_eq_filter]
  rintro ⟨⟩

theorem not_mark_of_isDigit (h : Radix.decimal.IsDigit c d) : c ≠ 'x' ∧ c ≠ 'X' := by
  rw [← digitValue?_eq_some_iff] at h
  constructor
  · rintro rfl
    cases h
  · rintro rfl
    cases h

theorem Unsigned.readNatural (h : Unsigned r cs n) (hlimit : 0 < limit) :
    readNatural r limit cs = below limit n := by
  cases h with
  | plain h =>
    rw [← h.readDigits hlimit]
    unfold Numeral.readNatural
    split
    · exact absurd rfl h.1
    · obtain ⟨d, hd⟩ := h.exists_isDigit List.mem_cons_self
      exact absurd hd plus_not_isDigit
    · obtain ⟨d, hd⟩ := h.exists_isDigit List.mem_cons_self
      exact absurd hd plus_not_isDigit
    · rfl
  | @plus cs n h =>
    rw [← h.readDigits hlimit]
    cases cs with
    | nil => exact absurd rfl h.1
    | cons c rest => rfl

theorem unsigned_of_readNatural (h : readNatural r limit cs = .ok n) (hlimit : 0 < limit) :
    Unsigned r cs n := by
  unfold readNatural at h
  split at h
  · cases h
  · cases h
  · rename_i rest hne
    exact Unsigned.plus (spells_of_readDigits hne h hlimit)
  · rename_i hne _ _
    exact Unsigned.plain (spells_of_readDigits hne h hlimit)

theorem Unsigned.mem_cases (h : Unsigned r cs n) (hc : c ∈ cs) : c = '+' ∨ ∃ d, r.IsDigit c d := by
  cases h with
  | plain h => exact Or.inr (h.exists_isDigit hc)
  | plus h =>
    rcases List.mem_cons.mp hc with rfl | hc
    · exact Or.inl rfl
    · exact Or.inr (h.exists_isDigit hc)

def readMarked (cs : List Char) : Except NumeralError Nat :=
  match cs with
  | '0' :: 'x' :: rest => readNatural .hexadecimal addressLimit rest
  | '0' :: 'X' :: rest => readNatural .hexadecimal addressLimit rest
  | cs => readNatural .decimal addressLimit cs

theorem readWord_eq (s : String) :
    readWord s = (readMarked (Text.trim s.toList)).map (BitVec.ofNat 64) := rfl

theorem Written.readMarked (h : Written cs n) : readMarked cs = below addressLimit n := by
  cases h with
  | decimal h =>
    -- A mark would have to be a decimal digit.
    have hmark : ∀ x ∈ cs, x ≠ 'x' ∧ x ≠ 'X' := by
      intro x hx
      rcases h.mem_cases hx with rfl | ⟨d, hd⟩
      · exact ⟨by decide, by decide⟩
      · exact not_mark_of_isDigit hd
    rw [← h.readNatural (by decide)]
    unfold Numeral.readMarked
    split
    · exact absurd rfl (hmark 'x' (by simp)).1
    · exact absurd rfl (hmark 'X' (by simp)).2
    · rfl
  | lowerMark h => exact h.readNatural (by decide)
  | upperMark h => exact h.readNatural (by decide)

theorem written_of_readMarked (h : readMarked cs = .ok n) : Written cs n := by
  unfold readMarked at h
  split at h
  · exact Written.lowerMark (unsigned_of_readNatural h (by decide))
  · exact Written.upperMark (unsigned_of_readNatural h (by decide))
  · exact Written.decimal (unsigned_of_readNatural h (by decide))

/-! ## Blanks around a numeral -/

theorem isBlank_of_isDigit (h : r.IsDigit c d) : Text.isBlank c = false := by
  have hnone : (lowerDigits ++ upperDigits).all (fun x => !Text.isBlank x) = true := rfl
  have hmem : c ∈ lowerDigits ++ upperDigits := by
    rw [List.mem_append]
    exact h.2.imp List.mem_of_getElem? List.mem_of_getElem?
  simpa using List.all_eq_true.mp hnone c hmem

theorem Unsigned.isBlank_of_mem (h : Unsigned r cs n) (hc : c ∈ cs) : Text.isBlank c = false := by
  rcases h.mem_cases hc with rfl | ⟨d, hd⟩
  · decide
  · exact isBlank_of_isDigit hd

theorem Written.isBlank_of_mem (h : Written cs n) (hc : c ∈ cs) : Text.isBlank c = false := by
  cases h with
  | decimal h => exact h.isBlank_of_mem hc
  | lowerMark h =>
    obtain rfl | rfl | hc : c = '0' ∨ c = 'x' ∨ _ := by simpa using hc
    · rfl
    · rfl
    · exact h.isBlank_of_mem hc
  | upperMark h =>
    obtain rfl | rfl | hc : c = '0' ∨ c = 'X' ∨ _ := by simpa using hc
    · rfl
    · rfl
    · exact h.isBlank_of_mem hc

theorem StandsFor.trim (h : StandsFor s n) : Written (Text.trim s.toList) n := by
  obtain ⟨before, cs, after, hs, hbefore, hafter, hwritten⟩ := h
  rwa [hs, Text.trim_append hbefore (fun _ hc => hwritten.isBlank_of_mem hc) hafter]

theorem standsFor_of_trim (h : Written (Text.trim s.toList) n) : StandsFor s n := by
  obtain ⟨before, after, hs, hbefore, hafter⟩ := Text.exists_append_trim s.toList
  exact ⟨before, _, after, hs, hbefore, hafter, h⟩

theorem StandsFor.of_written (h : Written s.toList n) : StandsFor s n :=
  ⟨[], s.toList, [], by simp, by simp, by simp, h⟩

theorem StandsFor.readWord (h : StandsFor s n) :
    readWord s = (below addressLimit n).map (BitVec.ofNat 64) := by
  rw [readWord_eq, h.trim.readMarked]

theorem readWord_of_standsFor (h : StandsFor s v.toNat) : readWord s = .ok v := by
  rw [h.readWord, below, if_pos v.isLt, Except.map, BitVec.ofNat_toNat, BitVec.setWidth_eq]

theorem standsFor_of_readWord (h : readWord s = .ok v) : StandsFor s v.toNat := by
  rw [readWord_eq] at h
  cases hread : readMarked (Text.trim s.toList) with
  | error e => rw [hread] at h; cases h
  | ok n =>
    have hstands : StandsFor s n := standsFor_of_trim (written_of_readMarked hread)
    have hlimit : n < addressLimit := by
      rw [hstands.trim.readMarked] at hread
      exact (below_eq_ok_iff.mp hread).1
    rw [hread] at h
    cases h
    rwa [BitVec.toNat_ofNat, Nat.mod_eq_of_lt hlimit]

theorem readWord_tooLarge (h : StandsFor s n) (hlimit : addressLimit ≤ n) :
    readWord s = .error .tooLarge := by
  rw [h.readWord, below, if_neg (Nat.not_lt.mpr hlimit)]
  rfl

/-! ## What is written is a numeral -/

theorem spells_digits (r : Radix) (n : Nat) : Spells r (r.digits n) n :=
  spells_of_readDigits (digits_ne_nil r n) (readDigits_digits (Nat.lt_succ_self n)) (Nat.succ_pos n)

/-- Zeros in front change nothing. -/
theorem Spells.zeros (h : Spells r cs n) (k : Nat) : Spells r (List.replicate k '0' ++ cs) n := by
  obtain ⟨hne, ds, hds, hvalue⟩ := h
  have hzeros : List.Forall₂ r.IsDigit (List.replicate k '0') (List.replicate k 0) := by
    induction k with
    | zero => exact List.Forall₂.nil
    | succ k ih => exact List.Forall₂.cons ⟨Nat.zero_lt_of_lt r.one_lt_base, Or.inl rfl⟩ ih
  refine ⟨List.append_ne_nil_of_right_ne_nil _ hne, List.replicate k 0 ++ ds,
    List.rel_append hzeros hds, ?_⟩
  rw [List.reverse_append, List.reverse_replicate, Nat.ofDigits_append_replicate_zero, hvalue]

theorem standsFor_decimal (n : Nat) : StandsFor (decimal n) n := by
  apply StandsFor.of_written
  rw [decimal, String.toList_ofList]
  exact Written.decimal (Unsigned.plain (spells_digits .decimal n))

theorem standsFor_hexMarkedPadded (width n : Nat) : StandsFor (hexMarkedPadded width n) n := by
  have hspells : Spells .hexadecimal (hexPadded width n).toList n := by
    rw [hexPadded, String.toList_ofList]
    exact (spells_digits .hexadecimal n).zeros _
  apply StandsFor.of_written
  rw [hexMarkedPadded, String.toList_append]
  exact Written.lowerMark (Unsigned.plain hspells)

theorem hexMarkedPadded_zero (n : Nat) : hexMarkedPadded 0 n = hexMarked n := by
  simp [hexMarkedPadded, hexPadded, hexMarked, hex]

theorem standsFor_hexMarked (n : Nat) : StandsFor (hexMarked n) n := by
  rw [← hexMarkedPadded_zero]
  exact standsFor_hexMarkedPadded 0 n

/-- A text is read as a word exactly when it is a numeral for it. A numeral for a number that is
no word is refused and never wrapped. What is written for a word is read back as that word, with
zeros in front up to any width. -/
theorem readWord_accepts :
    (∀ s v, readWord s = .ok v ↔ StandsFor s v.toNat) ∧
    (∀ s n, StandsFor s n → addressLimit ≤ n → readWord s = .error .tooLarge) ∧
    ∀ v : Word, readWord (decimal v.toNat) = .ok v ∧ readWord v.hex = .ok v ∧
      ∀ width, readWord (hexMarkedPadded width v.toNat) = .ok v := by
  refine ⟨fun s v => ⟨standsFor_of_readWord, readWord_of_standsFor⟩,
    fun s n => readWord_tooLarge, fun v => ⟨?_, ?_, fun width => ?_⟩⟩
  · exact readWord_of_standsFor (standsFor_decimal v.toNat)
  · exact readWord_of_standsFor (standsFor_hexMarked v.toNat)
  · exact readWord_of_standsFor (standsFor_hexMarkedPadded width v.toNat)

/-- The least number that is no word, written with a sign, zeros in front and
blanks around it. -/
theorem readWord_accepts_limit :
    StandsFor " 0X+00010000000000000000\n" addressLimit ∧
    readWord " 0X+00010000000000000000\n" = .error .tooLarge := by
  have hspells : Spells .hexadecimal "00010000000000000000".toList addressLimit := by
    exact ⟨by decide, [0, 0, 0, 1] ++ List.replicate 16 0, by decide, by decide⟩
  have hstands : StandsFor " 0X+00010000000000000000\n" addressLimit :=
    ⟨[' '], _, ['\n'], rfl, List.forall_mem_singleton.mpr rfl, List.forall_mem_singleton.mpr rfl,
      Written.upperMark (Unsigned.plus hspells)⟩
  exact ⟨hstands, readWord_accepts.2.1 _ _ hstands (Nat.le_refl _)⟩

end Numeral

end RiscvHart
