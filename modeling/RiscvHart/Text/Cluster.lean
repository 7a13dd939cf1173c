import RiscvHart.Text.BreakClass

/-!
# Clusters

A cluster is what a reader takes for one character: a letter with its marks, a syllable, a flag,
a pictograph made of several. A text is cut into clusters wherever no rule keeps two characters
together, and each rule looks back no further than to the start of the cluster.
-/

namespace RiscvHart.Text

def conjunctLinkers : List Nat :=
  [0x94D, 0x9CD, 0xACD, 0xB4D, 0xC4D, 0xD4D, 0x1039, 0x17D2, 0x1A60, 0x1B44, 0x1BAB, 0xA9C0, 0xAAF6,
    0x10A3F, 0x11133, 0x113D0, 0x1193E, 0x11A47, 0x11A99, 0x11F42]

def isLinker (c : Char) : Bool := conjunctLinkers.contains c.toNat

def nonJoiner : Char := '\u200C'

def isBetweenConjuncts (c : Char) : Bool :=
  let k := BreakClass.ofChar c
  isLinker c || ((k = .extend || k = .joiner) && c ≠ nonJoiner)

/-- Whether a consonant with a linker after it is at the end of the characters before, the last
of which comes first. -/
def endsInLinkedConjunct (before : List Char) : Bool :=
  (before.takeWhile isBetweenConjuncts).any isLinker &&
    ((before.dropWhile isBetweenConjuncts).head?.map BreakClass.ofChar) = some .conjunct

/-- Whether a pictograph and a joiner are at the end of the characters before, the last of which
comes first. -/
def endsInJoinedPictograph (before : List Char) : Bool :=
  match before with
  | [] => false
  | last :: rest =>
    BreakClass.ofChar last = .joiner &&
      ((rest.dropWhile fun c => BreakClass.ofChar c = .extend).head?.map BreakClass.ofChar) =
        some .pictograph

/-- Whether one letter of a flag without its other one is at the end of the characters before,
the last of which comes first. -/
def endsInHalfFlag (before : List Char) : Bool :=
  (before.takeWhile fun c => BreakClass.ofChar c = .regional).length % 2 = 1

def isControl : BreakClass → Bool
  | .control | .carriageReturn | .lineFeed => true
  | _ => false

def joinsSyllable : BreakClass → BreakClass → Bool
  | .leading, .leading | .leading, .vowel | .leading, .openSyllable
  | .leading, .closedSyllable => true
  | .openSyllable, .vowel | .openSyllable, .trailing | .vowel, .vowel | .vowel, .trailing => true
  | .closedSyllable, .trailing | .trailing, .trailing => true
  | _, _ => false

/-- Whether a character belongs to the cluster of `last` and those before it, the nearest of
which comes first. The first rule that says something about the two decides. -/
def joins (last : Char) (before : List Char) (next : Char) : Bool :=
  let left := BreakClass.ofChar last
  let right := BreakClass.ofChar next
  if left = .carriageReturn && right = .lineFeed then true
  else if isControl left || isControl right then false
  else if joinsSyllable left right then true
  else if right = .extend || right = .joiner || right = .spacingMark || left = .prepend then true
  else if right = .conjunct then endsInLinkedConjunct (last :: before)
  else if right = .pictograph then endsInJoinedPictograph (last :: before)
  else if right = .regional then endsInHalfFlag (last :: before)
  else false

/-- The clusters of characters, after one that has been begun and whose last character comes
first. -/
def clustersFrom (begun : List Char) : List Char → List (List Char)
  | [] => if begun = [] then [] else [begun.reverse]
  | c :: rest =>
    match begun with
    | [] => clustersFrom [c] rest
    | last :: before =>
      if joins last before c then clustersFrom (c :: begun) rest
      else begun.reverse :: clustersFrom [c] rest

def clusters (cs : List Char) : List (List Char) := clustersFrom [] cs

theorem flatten_clustersFrom (begun cs : List Char) :
    (clustersFrom begun cs).flatten = begun.reverse ++ cs := by
  fun_induction clustersFrom begun cs <;> simp_all

/-- Cutting a text into clusters loses nothing. -/
theorem flatten_clusters (cs : List Char) : (clusters cs).flatten = cs := by
  simp [clusters, flatten_clustersFrom]

end RiscvHart.Text
