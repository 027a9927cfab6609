import Graft.Text.Property

/-!
# Sets of characters

A set of characters is a list of closed ranges of scalar values, in increasing order and with a gap between any two. No
scalar value lies between 0xD7FF and 0xE000, which are next to each other where a range is cut. A range may span the gap.
-/

namespace Graft.Pattern

/-- A set of characters, as ranges of scalar values. -/
structure CharacterSet where
  ranges : List (Nat × Nat)
  deriving DecidableEq, Repr, Inhabited

namespace CharacterSet

/-- The largest scalar value. -/
def lastScalar : Nat := 0x10FFFF

/-- The scalar value after another. -/
def after (scalar : Nat) : Nat :=
  if scalar = 0xD7FF then 0xE000 else scalar + 1

/-- The scalar value before another. -/
def before (scalar : Nat) : Nat :=
  if scalar = 0xE000 then 0xD7FF else scalar - 1

/-- A range before a list of later ones, joined with those that it meets or touches. -/
def join (r : Nat × Nat) : List (Nat × Nat) → List (Nat × Nat)
  | [] => [r]
  | q :: rest => if q.1 ≤ r.2 + 1 then join (r.1, max r.2 q.2) rest else r :: join q rest

/-- The set of the characters in some ranges, which may stand in any order and overlap. -/
def ofRanges (ranges : List (Nat × Nat)) : CharacterSet :=
  match ranges.mergeSort fun r q => r.1 < q.1 || r.1 == q.1 && r.2 ≤ q.2 with
  | [] => ⟨[]⟩
  | r :: rest => ⟨join r rest⟩

/-- The set of no characters. -/
def empty : CharacterSet := ⟨[]⟩

/-- The characters from one to another. -/
def range (first last : Nat) : CharacterSet := ⟨[(first, last)]⟩

/-- One character. -/
def single (c : Char) : CharacterSet := range c.toNat c.toNat

/-- All characters. -/
def all : CharacterSet := range 0 lastScalar

/-- Whether a set holds a character. -/
def contains (s : CharacterSet) (scalar : Nat) : Bool :=
  Text.inRanges s.ranges scalar

/-- Whether a set holds some character of a range. -/
def meets (s : CharacterSet) (first last : Nat) : Bool :=
  s.ranges.any fun r => max r.1 first ≤ min r.2 last

/-- The characters of either of two sets. -/
def union (s t : CharacterSet) : CharacterSet := ofRanges (s.ranges ++ t.ranges)

/-- What is left of a range when another is taken away. -/
def cut (r hole : Nat × Nat) : List (Nat × Nat) :=
  if hole.2 < r.1 || r.2 < hole.1 then [r]
  else
    (if r.1 < hole.1 then [(r.1, before hole.1)] else []) ++ (if hole.2 < r.2 then [(after hole.2, r.2)] else [])

/-- The characters of one set that another does not hold. -/
def difference (s t : CharacterSet) : CharacterSet :=
  ⟨t.ranges.foldl (fun left hole => left.flatMap (cut · hole)) s.ranges⟩

/-- What stands between two neighbouring ranges. Ranges that end and begin on the two sides of the gap in the scalar values
have nothing between them; their complement holds the two scalar values at the gap. -/
def between (r q : Nat × Nat) : Nat × Nat :=
  let first := after r.2
  let last := before q.1
  (min first last, max first last)

/-- What stands between each two neighbours of a list of ranges, and after the last of them. -/
def gaps : List (Nat × Nat) → List (Nat × Nat)
  | [] => []
  | [r] => if r.2 < lastScalar then [(after r.2, lastScalar)] else []
  | r :: q :: rest => between r q :: gaps (q :: rest)

/-- The characters that a set does not hold. -/
def complement (s : CharacterSet) : CharacterSet :=
  match s.ranges with
  | [] => all
  | r :: _ => ⟨(if 0 < r.1 then [(0, before r.1)] else []) ++ gaps s.ranges⟩

/-- The characters of both of two sets. -/
def intersection (s t : CharacterSet) : CharacterSet :=
  ⟨s.ranges.flatMap fun r => t.ranges.filterMap fun q =>
    if max r.1 q.1 ≤ min r.2 q.2 then some (max r.1 q.1, min r.2 q.2) else none⟩

/-- The characters of one of two sets and not of the other. -/
def symmetricDifference (s t : CharacterSet) : CharacterSet :=
  (s.union t).difference (s.intersection t)

/-- The characters of a set in a range, each moved by the distance between two letters. -/
def moved (s : CharacterSet) (first last : Nat) (source target : Nat) : List (Nat × Nat) :=
  (s.intersection (range first last)).ranges.map fun r => (r.1 - source + target, r.2 - source + target)

/-- A set with the other case of each of its ASCII letters. With `wide`, the two characters beyond ASCII that are another
case of an ASCII letter belong to that letter too: the Kelvin sign and the long s. -/
def withBothCases (s : CharacterSet) (wide : Bool) : CharacterSet :=
  let narrow := s.ranges ++ s.moved 0x41 0x5A 0x41 0x61 ++ s.moved 0x61 0x7A 0x61 0x41
  let pairs := fun (upper lower other : Nat) =>
    if s.contains upper || s.contains lower || s.contains other then [(upper, upper), (lower, lower), (other, other)]
    else []
  ofRanges (if wide then narrow ++ pairs 0x4B 0x6B 0x212A ++ pairs 0x53 0x73 0x17F else narrow)

/-- The ASCII digits. -/
def asciiDigit : CharacterSet := range 0x30 0x39

/-- The ASCII white space. -/
def asciiSpace : CharacterSet := ⟨[(0x9, 0xD), (0x20, 0x20)]⟩

/-- The ASCII letters, the ASCII digits and the underscore. -/
def asciiWord : CharacterSet := ⟨[(0x30, 0x39), (0x41, 0x5A), (0x5F, 0x5F), (0x61, 0x7A)]⟩

/-- The sets of ASCII characters that have a name. -/
def named? : String → Option CharacterSet
  | "alnum" => some ⟨[(0x30, 0x39), (0x41, 0x5A), (0x61, 0x7A)]⟩
  | "alpha" => some ⟨[(0x41, 0x5A), (0x61, 0x7A)]⟩
  | "ascii" => some ⟨[(0, 0x7F)]⟩
  | "blank" => some ⟨[(0x9, 0x9), (0x20, 0x20)]⟩
  | "cntrl" => some ⟨[(0, 0x1F), (0x7F, 0x7F)]⟩
  | "digit" => some asciiDigit
  | "graph" => some ⟨[(0x21, 0x7E)]⟩
  | "lower" => some ⟨[(0x61, 0x7A)]⟩
  | "print" => some ⟨[(0x20, 0x7E)]⟩
  | "punct" => some ⟨[(0x21, 0x2F), (0x3A, 0x40), (0x5B, 0x60), (0x7B, 0x7E)]⟩
  | "space" => some asciiSpace
  | "upper" => some ⟨[(0x41, 0x5A)]⟩
  | "word" => some asciiWord
  | "xdigit" => some ⟨[(0x30, 0x39), (0x41, 0x46), (0x61, 0x66)]⟩
  | _ => none

end CharacterSet

end Graft.Pattern
