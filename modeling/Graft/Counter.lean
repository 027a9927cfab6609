import Graft.Occurrence

/-!
# Counters

A counter holds an occurrence and how many have been counted for it so far. Counts never pass the largest size.
-/

namespace Graft

/-- An occurrence and a count that is to satisfy it. -/
structure Counter where
  occurrence : Occurrence
  count : Nat
  deriving DecidableEq, Repr, Inhabited

namespace Counter

/-- A counter that has counted nothing. -/
def start (occurrence : Occurrence) : Counter :=
  ⟨occurrence, 0⟩

/-- Whether the count satisfies the occurrence. -/
def isValid (c : Counter) : Bool :=
  c.occurrence.isValid c.count

/-- Whether one more may be counted. -/
def acceptsMore (c : Counter) : Bool :=
  c.occurrence.acceptsMore c.count

/-- Count `added` more. -/
def add (c : Counter) (added : Nat) : Counter :=
  { c with count := min (c.count + added) largestSize }

/-- Count one more. -/
def addOne (c : Counter) : Counter :=
  c.add 1

/-- How many have to be counted before the occurrence is satisfied. -/
def missing (c : Counter) : Nat :=
  c.occurrence.leastMore c.count

/-- Count all that are missing. -/
def addMissing (c : Counter) : Counter :=
  c.add c.missing

/-- How many may still be counted. -/
def room (c : Counter) : Nat :=
  c.occurrence.mostMore c.count

/-- Count as many as there is room for. -/
def fill (c : Counter) : Counter :=
  c.add c.room

/-- Count one less, if anything was counted. -/
def removeOne? (c : Counter) : Option Counter :=
  if c.count = 0 then none else some { c with count := c.count - 1 }

end Counter

end Graft
