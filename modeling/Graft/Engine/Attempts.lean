import Graft.Run

/-!
# Attempts of other rules

The rules of a container, and the target of an invocation, are attempted through an `Attempts`. It says what attempting
does without saying how deep it may go: the engine ties the knot.
-/

namespace Graft.Engine

variable [Pattern.Compiler]

/-- How a rule attempts other rules: from scratch at an offset, or again where an earlier node was read by it. -/
structure Attempts where
  fresh : RuleId → Nat → Context → Run Attempt
  again : RuleId → Statement → Derivation → Nat → Context → Run Attempt

/-- A node read before, with its derivation. -/
abbrev Earlier := Statement × Derivation

end Graft.Engine
