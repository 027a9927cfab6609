import Graft.Engine.Attempts

/-!
# Invoking rules

An invocation resolves its target and its arguments where it stands, and attempts the target in a context that holds the
arguments under the names of its parameters. What is read is wrapped in a group of one.
-/

namespace Graft.Engine

variable [Pattern.Compiler]

/-- The rule that a call means and the context it is attempted in. -/
def resolveCall (grammar : Grammar) (call : Invocation) (context : Context) : Except Fault (RuleId × Context) := do
  let target ← context.resolveRule call.target
  let callee ← grammar.getRule target
  let values ← callee.checkArguments target (some context) call.arguments
  let names := callee.parameters.map fun parameter => target.parameterName parameter.name
  return (target, .invocation context callee.declaring (Locals.ofList (names.zip values)))

/-- What an attempt of the target comes to for the rule that invokes it. -/
def wrap (rule : RuleId) (call : Invocation) (attempt : Attempt) : Run Attempt := do
  match attempt.statement with
  | none => return .failure rule attempt.interest
  | some statement =>
    let statement := match call.shownAs with
      | some name => statement.renamed name
      | none => statement
    let id ← Run.freshId
    return .success (.group id statement.region [statement]) (.around rule attempt.derivation)

/-- The node that an invocation read before. -/
def earlierCall? (statement : Statement) (derivation : Derivation) : Option Earlier :=
  match statement.children.getLast?, derivation with
  | some body, .wrap _ _ inner => some (body, inner)
  | _, _ => none

/-- Attempt an invocation, again if an earlier node is given. -/
def invoke (setting : Setting) (attempts : Attempts) (rule : RuleId) (call : Invocation) (earlier : Option Earlier)
    (offset : Nat) (context : Context) : Run Attempt := do
  let (target, inside) ←
    (resolveCall setting.grammar call context).mapError (Fault.during (.invoking rule offset))
  let attempt ← match earlier with
    | some earlier => attempts.again target earlier.1 earlier.2 offset inside
    | none => attempts.fresh target offset inside
  wrap rule call attempt

end Graft.Engine
