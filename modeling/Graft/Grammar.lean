import Graft.Context

/-!
# Grammars

A grammar is a list of rules, each known by its place, and the rule that a document has to match. A rule consumes text,
contains other rules, or invokes one.
-/

namespace Graft

variable [Pattern.Compiler]

/-- What becomes of consumed text: kept text belongs to the value around it, skipped text does not. -/
inductive ConsumeKind where
  | keep
  | skip
  deriving DecidableEq, Repr, Hashable

/-- How the children of a container are tried. A value is an ordered container whose text is kept under a name. -/
inductive ContainerKind where
  | inOrder
  | anyOrder
  | firstOrder
  | value (nonEmpty : Bool)
  deriving DecidableEq, Repr, Hashable

/-- What a parameter may be given. -/
inductive ParameterKind where
  | pattern
  | occurrence
  | rule
  deriving DecidableEq, Repr

/-- A name for something that an invocation supplies. -/
structure Parameter where
  name : String
  kind : ParameterKind
  deriving DecidableEq, Repr

/-- The kind of binding that a parameter takes. -/
def ParameterKind.toBindingKind : ParameterKind → Binding.Kind
  | pattern => .pattern
  | occurrence => .occurrence
  | rule => .rule

/-- Whether a parameter takes a binding. -/
def ParameterKind.accepts (kind : ParameterKind) (binding : Binding) : Bool :=
  binding.kind = kind.toBindingKind

/-- A child of a container: its rule, how often it may occur, and the names it was declared with. -/
structure Edge where
  rule : RuleId
  occurrence : Binding
  declaring : Context
  deriving DecidableEq

/-- A call of a rule: which rule, under what name its value is to appear, and with what arguments. -/
structure Invocation where
  target : Binding
  shownAs : Option String := none
  arguments : List Binding := []
  deriving DecidableEq

/-- What a rule does. -/
inductive RuleBody where
  | consume (kind : ConsumeKind) (pattern : Binding)
  | container (kind : ContainerKind) (edges : List Edge)
  | invoke (call : Invocation)
  deriving DecidableEq

/-- A rule of a grammar. -/
structure Rule where
  name : Option String
  parameters : List Parameter
  declaring : Context
  body : RuleBody
  deriving DecidableEq

/-- The rules of a grammar and the one that a document has to match. -/
structure Grammar where
  rules : Array Rule
  root : RuleId
  deriving DecidableEq

namespace Grammar

/-- The rule at a place. -/
def rule? (g : Grammar) (id : RuleId) : Option Rule :=
  g.rules[id.index]?

/-- The first rule with a name. -/
def ruleNamed? (g : Grammar) (name : String) : Option RuleId :=
  (g.rules.toList.findIdx? fun rule => rule.name == some name).map RuleId.mk

/-- The number of rules. -/
def size (g : Grammar) : Nat :=
  g.rules.size

end Grammar

/-- The name by which the body of a rule refers to one of its parameters. It is builtin. -/
def RuleId.parameterName (rule : RuleId) (name : String) : String :=
  s!"@param_{rule.index}_{name}"

/-- A reference to a parameter of a rule. -/
def RuleId.parameter (rule : RuleId) (name : String) : Binding :=
  .reference (rule.parameterName name)

end Graft
