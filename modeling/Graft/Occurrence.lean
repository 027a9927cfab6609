import Graft.Text

/-!
# Occurrences

An occurrence says how often a child may stand in its container. Beside the test of a count stand the four questions that
a container asks while it counts: whether one more may follow, how many more may follow, and how many must.
-/

namespace Graft

/-- How often a child may occur. -/
inductive Occurrence where
  | exactly (count : Nat)
  | atLeast (least : Nat)
  | atMost (most : Nat)
  | between (least most : Nat)
  | any
  | oneOf (choices : List Occurrence)
  deriving Repr, Inhabited

namespace Occurrence

/-- Exactly once. -/
def once : Occurrence := .exactly 1

/-- Never. -/
def zero : Occurrence := .exactly 0

/-- At most once. -/
def optional : Occurrence := .atMost 1

/-- At least once. -/
def atLeastOnce : Occurrence := .atLeast 1

mutual

/-- Whether two occurrences are written alike. -/
def same : Occurrence → Occurrence → Bool
  | exactly a, exactly b => a == b
  | atLeast a, atLeast b => a == b
  | atMost a, atMost b => a == b
  | between a b, between c d => a == c && b == d
  | any, any => true
  | oneOf xs, oneOf ys => sameList xs ys
  | _, _ => false

/-- Whether two lists of occurrences are written alike. -/
def sameList : List Occurrence → List Occurrence → Bool
  | [], [] => true
  | x :: xs, y :: ys => same x y && sameList xs ys
  | _, _ => false

end

mutual

theorem same_eq_true_iff (a b : Occurrence) : same a b = true ↔ a = b := by
  cases a <;> cases b <;> simp [same, sameList_eq_true_iff]

theorem sameList_eq_true_iff (xs ys : List Occurrence) : sameList xs ys = true ↔ xs = ys := by
  cases xs <;> cases ys <;> simp [sameList, same_eq_true_iff, sameList_eq_true_iff]

end

instance : DecidableEq Occurrence := fun a b => decidable_of_iff _ (same_eq_true_iff a b)

mutual

/-- A number that equal occurrences share. -/
def digest : Occurrence → UInt64
  | exactly n => mixHash 3 (hash n)
  | atLeast n => mixHash 5 (hash n)
  | atMost n => mixHash 7 (hash n)
  | between a b => mixHash 11 (mixHash (hash a) (hash b))
  | any => 13
  | oneOf choices => mixHash 17 (digestList choices)

/-- A number that equal lists of occurrences share. -/
def digestList : List Occurrence → UInt64
  | [] => 19
  | x :: xs => mixHash (digest x) (digestList xs)

end

instance : Hashable Occurrence := ⟨digest⟩

mutual

/-- Whether a count satisfies an occurrence. -/
def isValid : Occurrence → Nat → Bool
  | exactly n, count => count == n
  | atLeast least, count => least ≤ count
  | atMost most, count => count ≤ most
  | between least most, count => least ≤ count && count ≤ most
  | any, _ => true
  | oneOf choices, count => anyValid choices count

/-- Whether a count satisfies one of several occurrences. -/
def anyValid : List Occurrence → Nat → Bool
  | [], _ => false
  | choice :: rest, count => choice.isValid count || anyValid rest count

end

mutual

/-- Whether another one may follow `count` of them. -/
def acceptsMore : Occurrence → Nat → Bool
  | exactly n, count => count < n
  | atLeast _, count => count < largestSize
  | atMost most, count => count < most
  | between _ most, count => count < most
  | any, count => count < largestSize
  | oneOf choices, count => anyAcceptsMore choices count

/-- Whether one of several occurrences lets another one follow. -/
def anyAcceptsMore : List Occurrence → Nat → Bool
  | [], _ => false
  | choice :: rest, count => choice.acceptsMore count || anyAcceptsMore rest count

end

mutual

/-- How many may be added to `count` of them at most. -/
def mostMore : Occurrence → Nat → Nat
  | exactly n, count => n - count
  | atLeast _, count => largestSize - count
  | atMost most, count => most - count
  | between _ most, count => most - count
  | any, count => largestSize - count
  | oneOf choices, count => greatestMostMore choices count

/-- The greatest number that one of several occurrences lets be added. -/
def greatestMostMore : List Occurrence → Nat → Nat
  | [], _ => 0
  | choice :: rest, count => max (choice.mostMore count) (greatestMostMore rest count)

end

mutual

/-- How many have to be added to `count` of them at least. -/
def leastMore : Occurrence → Nat → Nat
  | exactly n, count => n - count
  | atLeast least, count => least - count
  | atMost _, _ => 0
  | between least _, count => least - count
  | any, _ => 0
  | oneOf [], _ => 0
  | oneOf (choice :: rest), count => smallestLeastMore (choice.leastMore count) rest count

/-- The smallest of a number and what each of several occurrences requires. -/
def smallestLeastMore (smallest : Nat) : List Occurrence → Nat → Nat
  | [], _ => smallest
  | choice :: rest, count => smallestLeastMore (min smallest (choice.leastMore count)) rest count

end

end Occurrence

end Graft
