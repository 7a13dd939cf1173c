/-!
# Blank characters

The characters with the Unicode property White_Space, and what trimming and splitting at them
mean.
-/

namespace RiscvHart.Text

def blankRanges : List (Nat × Nat) :=
  [(0x09, 0x0D), (0x20, 0x20), (0x85, 0x85), (0xA0, 0xA0), (0x1680, 0x1680), (0x2000, 0x200A),
    (0x2028, 0x2029), (0x202F, 0x202F), (0x205F, 0x205F), (0x3000, 0x3000)]

def isBlank (c : Char) : Bool :=
  blankRanges.any fun (first, last) => first ≤ c.toNat && c.toNat ≤ last

def trim (cs : List Char) : List Char :=
  ((cs.dropWhile isBlank).reverse.dropWhile isBlank).reverse

def words : List Char → List (List Char)
  | [] => []
  | c :: rest =>
    if isBlank c then words rest
    else
      match rest, words rest with
      | next :: _, first :: others =>
        if isBlank next then [c] :: first :: others else (c :: first) :: others
      | _, others => [c] :: others

/-- Puts the ASCII letters into lower case and leaves every other character alone. -/
def lowerAscii (s : String) : String := s.map Char.toLower

end RiscvHart.Text
