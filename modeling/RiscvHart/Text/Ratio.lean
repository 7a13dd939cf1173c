import RiscvHart.Text.Numeral

/-!
# Ratios with fixed places

A ratio of two counts is rounded to a binary number of 53 significant bits, and that number is
written with a fixed number of decimal places. Both roundings go to the nearest value, and a tie
goes to the even one.
-/

namespace RiscvHart

/-- Divides and rounds to the nearest number; a tie goes to the even one. -/
def roundDiv (num den : Nat) : Nat :=
  let q := num / den
  let twice := 2 * (num % den)
  if den < twice ∨ (twice = den ∧ q % 2 = 1) then q + 1 else q

/-- The non-negative binary number `mantissa * 2 ^ up / 2 ^ down`. -/
structure Binary where
  mantissa : Nat
  up : Nat
  down : Nat

namespace Binary

abbrev precision : Nat := 53

/-- The binary number nearest to `num / den` with 53 significant bits. -/
def ofRatio (num den : Nat) : Binary :=
  if num = 0 then ⟨0, 0, 0⟩
  else
    -- the scale that brings the quotient between 2 ^ 52 and 2 ^ 53, up to one place
    let lenNum := num.log2
    let lenDen := den.log2
    let down := precision + lenDen - lenNum
    let up := lenNum - (precision + lenDen)
    let place (down up : Nat) : Binary := ⟨roundDiv (num <<< down) (den <<< up), up, down⟩
    if 1 <<< precision ≤ (num <<< down) / (den <<< up) then
      if down = 0 then place 0 (up + 1) else place (down - 1) up
    else place down up

def scale (factor : Nat) (b : Binary) : Binary :=
  ofRatio ((factor * b.mantissa) <<< b.up) (1 <<< b.down)

def render (places : Nat) (b : Binary) : String :=
  let one := Nat.pow 10 places
  let units := roundDiv ((b.mantissa * one) <<< b.up) (1 <<< b.down)
  let fraction := Radix.decimal.digits (units % one)
  Numeral.decimal (units / one) ++ "." ++
    String.ofList (List.replicate (places - fraction.length) '0' ++ fraction)

end Binary

end RiscvHart
