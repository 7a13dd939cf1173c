import RiscvHart.Register.Name
import Mathlib.Tactic.IntervalCases

/-!
# Numerals stand for one number

The digits of a number are read back as that number, so two numbers never have the same digits. A
digit is never a sign, a mark, a blank or a separator, so this holds of signed and marked
numerals and of the names of registers too.
-/

namespace RiscvHart

namespace Radix

variable {r : Radix}

theorem digitValue?_digit {d : Nat} (h : d < r.base) : r.digitValue? (digit d) = some d := by
  cases r with
  | decimal =>
    have hten : d < 10 := h
    interval_cases d <;> rfl
  | hexadecimal =>
    have hsixteen : d < 16 := h
    interval_cases d <;> rfl

theorem readDigits_digit {limit n : Nat} (h : n < limit) (tail : List Char) :
    Numeral.readDigits r limit (n / r.base) (digit (n % r.base) :: tail) =
      Numeral.readDigits r limit n tail := by
  have hdigit : n % r.base < r.base := Nat.mod_lt _ (by have := r.one_lt_base; omega)
  have hn : n / r.base * r.base + n % r.base = n := Nat.div_add_mod' n r.base
  simp only [Numeral.readDigits, digitValue?_digit hdigit, hn, if_pos h]

theorem readDigits_digitsBefore {limit n : Nat} (h : n < limit) (tail : List Char) :
    Numeral.readDigits r limit 0 (r.digitsBefore n tail) = Numeral.readDigits r limit n tail := by
  induction n, tail using digitsBefore.induct (r := r) with
  | case1 n tail hsmall =>
    have hread := readDigits_digit (r := r) h tail
    rw [digitsBefore, if_pos hsmall]
    rwa [Nat.div_eq_of_lt hsmall, Nat.mod_eq_of_lt hsmall] at hread
  | case2 n tail hlarge ih =>
    have hquotient : n / r.base < limit := lt_of_le_of_lt (Nat.div_le_self _ _) h
    rw [digitsBefore, if_neg hlarge, ih hquotient, readDigits_digit h]

/-- Digits are read back as their number. -/
theorem readDigits_digits {limit n : Nat} (h : n < limit) :
    Numeral.readDigits r limit 0 (r.digits n) = .ok n := readDigits_digitsBefore h []

theorem digits_injective : Function.Injective r.digits := by
  intro n m h
  have hn : n < max n m + 1 := by omega
  have hm : m < max n m + 1 := by omega
  have hread := readDigits_digits (r := r) hn
  rw [h, readDigits_digits hm] at hread
  exact (Except.ok.inj hread).symm

theorem isSome_of_mem_digitsBefore {n : Nat} {tail : List Char} {c : Char}
    (h : c ∈ r.digitsBefore n tail) : (r.digitValue? c).isSome ∨ c ∈ tail := by
  have hdigit : ∀ {d}, d < r.base → (r.digitValue? (digit d)).isSome := by
    intro d hd
    rw [digitValue?_digit hd]
    rfl
  induction n, tail using digitsBefore.induct (r := r) with
  | case1 n tail hsmall =>
    rw [digitsBefore, if_pos hsmall, List.mem_cons] at h
    rcases h with rfl | htail
    · exact Or.inl (hdigit hsmall)
    · exact Or.inr htail
  | case2 n tail hlarge ih =>
    rw [digitsBefore, if_neg hlarge] at h
    rcases ih h with hvalue | hmem
    · exact Or.inl hvalue
    · rcases List.mem_cons.mp hmem with rfl | htail
      · exact Or.inl (hdigit (Nat.mod_lt _ (by have := r.one_lt_base; omega)))
      · exact Or.inr htail

theorem not_mem_digits {c : Char} (h : r.digitValue? c = none) (n : Nat) : c ∉ r.digits n := by
  intro hmem
  rcases isSome_of_mem_digitsBefore hmem with hvalue | hnil
  · rw [h] at hvalue
    cases hvalue
  · exact List.not_mem_nil hnil

end Radix

namespace Numeral

theorem decimal_injective : Function.Injective decimal := fun _ _ h =>
  Radix.digits_injective (String.ofList_injective h)

theorem hexMarked_injective : Function.Injective hexMarked := by
  intro n m h
  have hhex : hex n = hex m := (String.append_right_inj _).mp h
  exact Radix.digits_injective (String.ofList_injective hhex)

theorem not_mem_decimal {c : Char} (h : Radix.decimal.digitValue? c = none) (n : Nat) :
    c ∉ (decimal n).toList := by
  rw [decimal, String.toList_ofList]
  exact Radix.not_mem_digits h n

theorem not_mem_hexMarked {c : Char} (h : Radix.hexadecimal.digitValue? c = none) (hx : c ≠ 'x')
    (n : Nat) : c ∉ (hexMarked n).toList := by
  have hzero : c ≠ '0' := by
    rintro rfl
    cases h
  have hdigits := Radix.not_mem_digits h n
  simp [hexMarked, hex, String.toList_append, hzero, hx, hdigits]

theorem not_mem_signed {c : Char} (h : Radix.decimal.digitValue? c = none) (hsign : c ≠ '-')
    (n : Int) : c ∉ (signed n).toList := by
  cases n with
  | ofNat k => exact not_mem_decimal h k
  | negSucc k =>
    have hdigits := not_mem_decimal h (k + 1)
    simp [signed, String.toList_append, hsign, hdigits]

theorem decimal_ne_minus (n : Nat) (s : String) : decimal n ≠ "-" ++ s := by
  intro h
  have hminus : '-' ∉ (decimal n).toList := not_mem_decimal (by decide) n
  rw [h, String.toList_append] at hminus
  exact hminus List.mem_cons_self

theorem signed_injective : Function.Injective signed := by
  intro n m h
  cases n with
  | ofNat k =>
    cases m with
    | ofNat l => exact congrArg _ (decimal_injective h)
    | negSucc l => exact absurd h (decimal_ne_minus k _)
  | negSucc k =>
    cases m with
    | ofNat l => exact absurd h.symm (decimal_ne_minus l _)
    | negSucc l =>
      have hsucc : k + 1 = l + 1 := decimal_injective ((String.append_right_inj _).mp h)
      rw [Nat.succ_injective hsucc]

end Numeral

theorem Word.hex_injective : Function.Injective Word.hex := fun _ _ h =>
  BitVec.eq_of_toNat_eq (Numeral.hexMarked_injective h)

namespace Reg

theorem numericName_injective : Function.Injective numericName := by
  intro a b h
  have hnumber : a.toNat = b.toNat := Numeral.decimal_injective ((String.append_right_inj _).mp h)
  exact BitVec.eq_of_toNat_eq hnumber

theorem not_mem_numericName {c : Char} (h : Radix.decimal.digitValue? c = none) (hx : c ≠ 'x')
    (r : Reg) : c ∉ r.numericName.toList := by
  have hdigits := Numeral.not_mem_decimal h r.toNat
  simp [numericName, String.toList_append, hx, hdigits]

end Reg

end RiscvHart
