import Graft.Derivation
import Graft.Options
import Graft.Statement.Scopes

/-!
# Trees

A tree is what a call of the engine on a whole document comes to: the statement, its derivation, and the statistics of the
call.
-/

namespace Graft

/-- A document as it was read. -/
structure Tree where
  statement : Statement
  derivation : Derivation
  statistics : Statistics

namespace Tree

/-- The document that a tree was read from. -/
def text (t : Tree) : String :=
  t.statement.rawText

/-- The root, if it is a value with a name, or else the first scope with that name. -/
def firstScope? (t : Tree) (name : String) : Option Statement :=
  if t.statement.name? = some name then some t.statement else t.statement.firstScope? name

/-- The text of the root or the first scope with a name. -/
def firstText? (t : Tree) (name : String) : Option String :=
  (t.firstScope? name).map Statement.text

end Tree

end Graft
