/-!
# Identities

Rules are known by their place in the grammar, nodes of a tree by a number that is given out once.
-/

namespace Graft

/-- The place of a rule in its grammar. -/
structure RuleId where
  index : Nat
  deriving DecidableEq, Hashable, Repr, Inhabited

/-- A rule as it is named in messages. -/
def RuleId.text (rule : RuleId) : String :=
  "#" ++ toString rule.index

/-- The identity of a node. It stays with the node through moves, renamings and copies. -/
structure NodeId where
  index : Nat
  deriving DecidableEq, Hashable, Repr, Inhabited

/-- The identity given out after this one. -/
def NodeId.next (id : NodeId) : NodeId :=
  ⟨id.index + 1⟩

end Graft
