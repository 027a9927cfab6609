import Graft.Marking
import Graft.Parse

/-!
# Repairing

A tree is repaired after edits by attempting the root rule again with the marked tree at hand. Where no edit touched what
the root looked at, the moved tree stands as it is.
-/

namespace Graft

variable [Pattern.Compiler]

namespace Grammar

/-- Repair a tree whose root no edit touched. -/
def keepTree (t : EditedTree) : Except Fault Tree :=
  let stop := t.statement.region.stop
  if stop = Text.size t.text then .ok ⟨t.statement, t.derivation, {}⟩
  else .error { cause := .shortTree stop (Text.size t.text), offset := some stop }

/-- Repair a tree by attempting the root rule again. What comes out has to have the text of the document. -/
def rederive (grammar : Grammar) (t : EditedTree) (options : Options) (nextId : NodeId) :
    Except Fault (Tree × NodeId) := do
  let setting := Setting.make grammar t.text options t.modified
  let (attempt, state) ←
    ((Engine.atRoot setting).again grammar.root t.statement t.derivation 0 options.context).run { nextId }
  let tree ← Tree.ofRun t.text .unmatchedDocument attempt state
  if tree.text = t.text then return (tree, state.nextId) else throw (.of .textDiffers)

/-- Repair a tree after edits, each of which is made on the document that the ones before it left. New nodes are given
identities from `nextId` on; the first identity that is left comes back with the tree. -/
def repair (grammar : Grammar) (tree : Tree) (edits : List Edit) (options : Options) (nextId : NodeId) :
    Except Fault (Tree × NodeId) := do
  if edits.isEmpty then return (tree, nextId)
  if options.limits.maxEdits < edits.length then
    throw (.of (.editCount edits.length options.limits.maxEdits))
  let t ← tree.applyEdits edits
  options.limits.checkInput t.text
  if t.modified.contains t.statement.id then grammar.rederive t options nextId
  else return (← keepTree t, nextId)

end Grammar

end Graft
