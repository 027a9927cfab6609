/-!
# Regions

A region is a run of bytes of a document: where it starts and how many bytes it has. Edits move regions. A deletion takes
from a region the bytes it removes and moves what follows it back; an insertion moves what starts at or after it and grows
only the regions that it falls strictly inside.
-/

namespace Graft

/-- A run of bytes of a document. -/
structure Region where
  offset : Nat
  length : Nat
  deriving DecidableEq, Repr, Inhabited

namespace Region

/-- The offset right after the last byte. -/
def stop (r : Region) : Nat :=
  r.offset + r.length

/-- Whether a region has no bytes. -/
def isEmpty (r : Region) : Bool :=
  r.length == 0

/-- The smallest region that holds two. -/
def expandTo (r other : Region) : Region :=
  let start := min r.offset other.offset
  ⟨start, max r.stop other.stop - start⟩

/-- How many bytes a region shares with the `length` bytes from `offset`. -/
def overlap (r : Region) (offset length : Nat) : Nat :=
  min r.stop (offset + length) - max r.offset offset

/-- Whether a region holds all of another, which may be empty and lie at its end. -/
def contains (r inner : Region) : Bool :=
  r.offset ≤ inner.offset && inner.stop ≤ r.stop

/-- Whether a byte lies in a region. -/
def holds (r : Region) (offset : Nat) : Bool :=
  r.offset ≤ offset && offset < r.stop

/-- A region after the `length` bytes from `offset` are deleted. -/
def afterDelete (r : Region) (offset length : Nat) : Region :=
  if r.overlap offset length > 0 then
    ⟨min r.offset offset, r.length - r.overlap offset length⟩
  else if offset < r.offset then
    ⟨r.offset - min (r.offset - offset) length, r.length⟩
  else r

/-- A region after `length` bytes are inserted at `offset`. -/
def afterInsert (r : Region) (offset length : Nat) : Region :=
  if offset ≤ r.offset then ⟨r.offset + length, r.length⟩
  else if offset < r.stop then ⟨r.offset, r.length + length⟩
  else r

/-- A region as it stands in messages. -/
def text (r : Region) : String :=
  s!"[{r.offset}..{r.stop})"

end Region

end Graft
