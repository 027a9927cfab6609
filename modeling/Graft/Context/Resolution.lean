import Graft.Fault

/-!
# Resolution

A reference means what its name means, and that may be a reference again. Such a chain is followed only so far.
-/

namespace Graft

variable [Pattern.Compiler]

namespace Context

/-- The longest chain of references that is followed. -/
def maxReferences : Nat := 64

/-- Follow references from a binding on, at most `fuel` steps. The chain began at `start`. -/
def follow (context : Context) (start : Binding) : Nat → Binding → Except Fault Binding
  | 0, _ => .error (.of (.endlessReference start))
  | fuel + 1, .reference name =>
    match context.lookup name with
    | none => .error (.of (.unresolvedName name))
    | some binding => follow context start fuel binding
  | _ + 1, binding => .ok binding

/-- What a binding means once its references are followed. -/
def resolve (context : Context) (binding : Binding) : Except Fault Binding :=
  context.follow binding maxReferences binding

/-- The rule that a binding means. -/
def resolveRule (context : Context) (binding : Binding) : Except Fault RuleId := do
  match ← context.resolve binding with
  | .rule id => return id
  | other => throw (.of (.wrongBinding binding other.kind .rule))

/-- The pattern that a binding means. -/
def resolvePattern (context : Context) (binding : Binding) : Except Fault Pattern := do
  match ← context.resolve binding with
  | .pattern pattern => return pattern
  | other => throw (.of (.wrongBinding binding other.kind .pattern))

/-- The occurrence that a binding means. -/
def resolveOccurrence (context : Context) (binding : Binding) : Except Fault Occurrence := do
  match ← context.resolve binding with
  | .occurrence occurrence => return occurrence
  | other => throw (.of (.wrongBinding binding other.kind .occurrence))

end Context

/-- The context in which the rule of an edge is attempted. -/
def Edge.context (edge : Edge) (live : Context) : Context :=
  .merge edge.declaring live

/-- The rule at a place of a grammar, or the fault that there is none. -/
def Grammar.getRule (g : Grammar) (id : RuleId) : Except Fault Rule :=
  match g.rule? id with
  | some rule => .ok rule
  | none => .error (.of (.missingRule id))

/-- Check one argument. With a context references are resolved in it; without one they are let through. -/
def Parameter.check (parameter : Parameter) (callee : RuleId) (context : Option Context) (argument : Binding) :
    Except Fault Binding := do
  match context, argument with
  | none, .reference name => return .reference name
  | _, _ =>
    let value ← match context with
      | some context => context.resolve argument
      | none => pure argument
    if parameter.kind.accepts value then return value
    else throw (.of (.argumentKind parameter.name callee parameter.kind.toBindingKind value.kind))

/-- Check the arguments of a call against the parameters of the rule called: there are as many, and each is what its
parameter takes. -/
def Rule.checkArguments (rule : Rule) (callee : RuleId) (context : Option Context) (arguments : List Binding) :
    Except Fault (List Binding) := do
  if rule.parameters.length ≠ arguments.length then
    throw (.of (.arity callee rule.parameters.length arguments.length))
  (rule.parameters.zip arguments).mapM fun pair => pair.1.check callee context pair.2

end Graft
