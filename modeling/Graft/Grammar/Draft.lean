import Graft.Context.Resolution

/-!
# Drafts

A draft is a grammar being written. A rule is first reserved, which gives it a place that others may refer to, and defined
once; a place reserved for a kind of container may only be defined as that kind. A draft becomes a grammar when every
rule is defined and nothing in it can be seen to be wrong without a document.
-/

namespace Graft

variable [Pattern.Compiler]

/-- A reserved place of a draft, with what is known of its rule so far. -/
structure Slot where
  name : Option String
  parameters : List Parameter := []
  declaring : Context
  reserved : Option ContainerKind
  body : Option RuleBody := none
  deriving DecidableEq

/-- A child as it is given to a draft. Without a context of its own it is declared where its container is. -/
structure Child where
  rule : RuleId
  occurrence : Binding
  context : Option Context := none
  deriving DecidableEq

namespace Child

/-- A child with an occurrence. -/
def times (rule : RuleId) (occurrence : Occurrence) : Child :=
  { rule, occurrence := .occurrence occurrence }

/-- A child that occurs once. -/
def once (rule : RuleId) : Child := times rule .once

/-- A child that occurs at most once. -/
def optional (rule : RuleId) : Child := times rule .optional

/-- A child that occurs any number of times. -/
def any (rule : RuleId) : Child := times rule .any

/-- A child that occurs at least once. -/
def atLeastOnce (rule : RuleId) : Child := times rule .atLeastOnce

/-- A child whose occurrence is what a name means. -/
def named (rule : RuleId) (name : String) : Child :=
  { rule, occurrence := .reference name }

/-- A child declared in a context of its own. -/
def declaredIn (child : Child) (context : Context) : Child :=
  { child with context := some context }

/-- The edge of a child, for a container declared in a context. -/
def toEdge (child : Child) (declaring : Context) : Edge :=
  { rule := child.rule, occurrence := child.occurrence, declaring := child.context.getD declaring }

end Child

/-- A grammar being written: the rules reserved so far and the names that the next ones are declared with. -/
structure Draft where
  slots : Array Slot := #[]
  scope : Context := .empty
  deriving DecidableEq

/-- A step of writing a grammar. A step that fails says so and leaves its draft behind. -/
abbrev Drafting := ExceptT Fault (StateM Draft)

namespace Drafting

/-- Declare the next rules with other names. -/
def setScope (scope : Context) : Drafting Unit :=
  modify fun draft => { draft with scope }

/-- Reserve a place. -/
def reserve (name : Option String) (reserved : Option ContainerKind) : Drafting RuleId := do
  let draft ← get
  set { draft with slots := draft.slots.push { name, declaring := draft.scope, reserved } }
  return ⟨draft.slots.size⟩

/-- The place of a rule. -/
def slot (rule : RuleId) : Drafting Slot := do
  match (← get).slots[rule.index]? with
  | some slot => return slot
  | none => throw (.of (.unknownRule rule))

/-- Write down a place anew. -/
def setSlot (rule : RuleId) (slot : Slot) : Drafting Unit :=
  modify fun draft => { draft with slots := draft.slots.setIfInBounds rule.index slot }

/-- The kind of container that a body is, if it is one. -/
def containerKind? : RuleBody → Option ContainerKind
  | .container kind _ => some kind
  | _ => none

/-- Define a rule. -/
def define (rule : RuleId) (body : RuleBody) : Drafting RuleId := do
  let slot ← slot rule
  if slot.body.isSome then throw (.of (.alreadyDefined rule))
  match slot.reserved, containerKind? body with
  | some reserved, some defined =>
    if reserved ≠ defined then throw (.of (.otherKind rule reserved defined))
  | _, _ => pure ()
  setSlot rule { slot with body := some body }
  return rule

/-- Reserve a place for any rule. -/
def declare (name : Option String) : Drafting RuleId :=
  reserve name none

/-- Reserve a place for a container. -/
def declareContainer (kind : ContainerKind) (name : Option String) : Drafting RuleId :=
  reserve name (some kind)

/-- Give a rule parameters. -/
def setParameters (rule : RuleId) (parameters : List Parameter) : Drafting Unit := do
  setSlot rule { ← slot rule with parameters }

/-- Define a rule that consumes text. -/
def defineConsume (rule : RuleId) (kind : ConsumeKind) (pattern : Binding) : Drafting RuleId :=
  define rule (.consume kind pattern)

/-- A rule that consumes text. -/
def consume (kind : ConsumeKind) (pattern : Binding) : Drafting RuleId := do
  defineConsume (← reserve none none) kind pattern

/-- A rule that keeps what a pattern matches. -/
def keep (serial : Nat) (source : String) : Drafting RuleId := do
  let pattern ← Pattern.ofSource serial source
  consume .keep (.pattern pattern)

/-- A rule that skips what a pattern matches. -/
def skip (serial : Nat) (source : String) : Drafting RuleId := do
  let pattern ← Pattern.ofSource serial source
  consume .skip (.pattern pattern)

/-- Define a container. -/
def defineContainer (rule : RuleId) (kind : ContainerKind) (children : List Child) : Drafting RuleId := do
  let declaring := (← slot rule).declaring
  define rule (.container kind (children.map (·.toEdge declaring)))

/-- A container without a name. -/
def container (kind : ContainerKind) (children : List Child) : Drafting RuleId := do
  defineContainer (← reserve none (some kind)) kind children

/-- A container whose children stand in order. -/
def inOrder (children : List Child) : Drafting RuleId := container .inOrder children

/-- A container whose children stand in any order. -/
def anyOrder (children : List Child) : Drafting RuleId := container .anyOrder children

/-- A container of the first of its children that fits. -/
def firstOrder (children : List Child) : Drafting RuleId := container .firstOrder children

/-- A container of any kind with a name. -/
def namedContainer (kind : ContainerKind) (name : String) (children : List Child) : Drafting RuleId := do
  defineContainer (← reserve (some name) (some kind)) kind children

/-- A value. -/
def value (name : String) (children : List Child) : Drafting RuleId :=
  namedContainer (.value false) name children

/-- A value that must not be empty. -/
def nonEmptyValue (name : String) (children : List Child) : Drafting RuleId :=
  namedContainer (.value true) name children

/-- Define a rule that invokes another. -/
def defineInvoke (rule : RuleId) (call : Invocation) : Drafting RuleId :=
  define rule (.invoke call)

/-- A rule that invokes another. -/
def invoke (call : Invocation) : Drafting RuleId := do
  defineInvoke (← reserve none none) call

end Drafting

/-- The rule of a slot, which has to be defined. -/
def Slot.toRule (slot : Slot) (rule : RuleId) : Except Fault Rule :=
  match slot.body with
  | some body => .ok { name := slot.name, parameters := slot.parameters, declaring := slot.declaring, body }
  | none => .error (.of (.undefinedRule rule slot.name))

namespace Grammar

/-- Check that a rule refers to a rule that is there. -/
def checkReference (rules : Array Rule) (owner target : RuleId) : Except Fault Unit :=
  if target.index < rules.size then .ok () else .error (.of (.danglingRule owner target))

/-- Check a call: a target named outright is there and its arguments fit it, and so are the rules given as arguments. -/
def checkCall (rules : Array Rule) (owner : RuleId) (call : Invocation) : Except Fault Unit := do
  match call.target with
  | .rule target =>
    match rules[target.index]? with
    | some rule => let _ ← rule.checkArguments target none call.arguments
    | none => throw (.of (.danglingRule owner target))
  | _ => pure ()
  call.arguments.forM fun argument =>
    match argument with
    | .rule target => checkReference rules owner target
    | _ => pure ()

/-- Check what can be checked of a rule without a document. -/
def checkRule (rules : Array Rule) (id : RuleId) (rule : Rule) : Except Fault Unit :=
  match rule.body with
  | .consume _ (.rule _) => .error (.of (.patternNeeded id .rule))
  | .consume _ (.occurrence _) => .error (.of (.patternNeeded id .occurrence))
  | .consume _ _ => .ok ()
  | .container kind edges =>
    if edges.isEmpty then .error (.of (.childless id))
    else
      match kind, rule.name with
      | .value _, none => .error (.of (.nameless id))
      | _, _ => edges.forM fun edge => checkReference rules id edge.rule
  | .invoke call => checkCall rules id call

end Grammar

/-- The grammar of a draft, with a rule of it as its root. -/
def Draft.build (draft : Draft) (root : RuleId) : Except Fault Grammar := do
  if draft.slots.size ≤ root.index then throw (.of (.unknownRoot root))
  let rules ← draft.slots.toList.zipIdx.mapM fun entry => entry.1.toRule ⟨entry.2⟩
  rules.zipIdx.forM fun entry => Grammar.checkRule rules.toArray ⟨entry.2⟩ entry.1
  return { rules := rules.toArray, root }

/-- The grammar that some steps write, from nothing on. They answer its root. -/
def Drafting.toGrammar (steps : Drafting RuleId) : Except Fault Grammar :=
  match (ExceptT.run steps).run {} with
  | (.ok root, draft) => draft.build root
  | (.error fault, _) => .error fault

end Graft
