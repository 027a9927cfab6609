import Std.Data.HashSet
import Graft.Fault
import Graft.Tree

/-!
# Marking edits on a tree

Edits are made on a tree one after the other. Each marks the nodes whose region of interest it touches, and moves all
regions to where their text is after it. A deletion touches the regions that it takes bytes from, an insertion those that
hold the byte before which it inserts.
-/

namespace Graft

variable [Pattern.Compiler]

/-- A tree under edits: its moved statement and derivation, the edited text, and the nodes touched by some edit. -/
structure EditedTree where
  statement : Statement
  derivation : Derivation
  text : String
  modified : Std.HashSet NodeId

namespace EditedTree

/-- A tree before any edit. -/
def ofTree (t : Tree) : EditedTree :=
  ⟨t.statement, t.derivation, t.text, {}⟩

/-- The nodes with their derivations. -/
def nodes (t : EditedTree) : List (Statement × Derivation) :=
  t.statement.walk t.derivation

/-- Mark the nodes whose region of interest is touched. -/
def markWhere (t : EditedTree) (touched : Region → Bool) : EditedTree :=
  { t with
    modified := t.nodes.foldl (fun modified node =>
      if touched node.2.interest then modified.insert node.1.id else modified) t.modified }

/-- Move all regions. -/
def move (t : EditedTree) (f : Region → Region) : EditedTree :=
  let (statement, derivation) := t.statement.mapRegions f t.derivation
  { t with statement, derivation }

/-- Mark and move for a deletion of `length` bytes at `offset`. -/
def delete (t : EditedTree) (offset length : Nat) : EditedTree :=
  if length = 0 then t
  else (t.markWhere fun r => r.overlap offset length > 0).move fun r => r.afterDelete offset length

/-- Mark and move for an insertion of `length` bytes at `offset`. -/
def insert (t : EditedTree) (offset length : Nat) : EditedTree :=
  if length = 0 then t
  else (t.markWhere fun r => r.holds offset).move fun r => r.afterInsert offset length

/-- Check that every region of interest still holds the region of its statement. -/
def checkContained (t : EditedTree) : Except Fault Unit :=
  match t.nodes.find? fun node => !node.2.interest.contains node.1.region with
  | none => .ok ()
  | some (statement, derivation) =>
    .error { cause := .uncontained derivation.interest statement.region, region := some statement.region }

/-- Make one edit. -/
def edit (t : EditedTree) (e : Edit) : Except Fault EditedTree := do
  let text ← e.applyTo t.text
  let t := (t.delete e.offset e.length).insert e.offset (Text.size e.text)
  let t := { t with text }
  t.checkContained
  return t

end EditedTree

/-- Make edits on a tree, one after the other. -/
def Tree.applyEdits (t : Tree) (edits : List Edit) : Except Fault EditedTree :=
  edits.foldlM EditedTree.edit (.ofTree t)

end Graft
