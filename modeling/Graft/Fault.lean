import Graft.Context.Display
import Graft.Edit
import Graft.Grammar
import Graft.Occurrence.Reader
import Graft.Region

/-!
# Faults

What can go wrong, by cause. Each cause belongs to one kind and has one wording; a fault adds where it happened and what was
being done.
-/

namespace Graft

variable [Pattern.Compiler]

namespace Fault

/-- The kinds of fault. -/
inductive Kind where
  | malformedOccurrence
  | malformedPattern
  | undefinedRule
  | illegalInvocation
  | parseFailed
  | cancelled
  | invariantViolation
  | invalidEdit
  | limitExceeded
  deriving DecidableEq, Repr

/-- The name of a kind. -/
def Kind.text : Kind → String
  | malformedOccurrence => "MalformedOccurrence"
  | malformedPattern => "MalformedPattern"
  | undefinedRule => "UndefinedRule"
  | illegalInvocation => "IllegalInvocation"
  | parseFailed => "ParseFailed"
  | cancelled => "Cancelled"
  | invariantViolation => "InvariantViolation"
  | invalidEdit => "InvalidEdit"
  | limitExceeded => "LimitExceeded"

/-- What went wrong. -/
inductive Cause where
  /-- A text is no occurrence. -/
  | occurrence (error : Occurrence.ReadError)
  /-- A source is no pattern. -/
  | pattern (source : String) (error : Pattern.CompileError)
  /-- A draft has no such rule. -/
  | unknownRule (rule : RuleId)
  /-- The root of a grammar is no rule of its draft. -/
  | unknownRoot (rule : RuleId)
  /-- A rule was reserved and never defined. -/
  | undefinedRule (rule : RuleId) (name : Option String)
  /-- A rule refers to a rule that its draft does not have. -/
  | danglingRule (owner target : RuleId)
  /-- A rule is defined a second time. -/
  | alreadyDefined (rule : RuleId)
  /-- A rule is defined as another kind of container than it was reserved for. -/
  | otherKind (rule : RuleId) (reserved defined : ContainerKind)
  /-- A consume rule has no pattern to consume. -/
  | patternNeeded (rule : RuleId) (found : Binding.Kind)
  /-- A container has no children. -/
  | childless (rule : RuleId)
  /-- A value has no name. -/
  | nameless (rule : RuleId)
  /-- An invocation has too few or too many arguments. -/
  | arity (callee : RuleId) (expected given : Nat)
  /-- An argument is not what its parameter takes. -/
  | argumentKind (parameter : String) (callee : RuleId) (expected found : Binding.Kind)
  /-- A grammar has no such rule. -/
  | missingRule (rule : RuleId)
  /-- A name means nothing. -/
  | unresolvedName (name : String)
  /-- References lead to references for too long. -/
  | endlessReference (start : Binding)
  /-- A binding means something of another kind than is needed. -/
  | wrongBinding (requested : Binding) (found expected : Binding.Kind)
  /-- The rules do not match a text to its end. -/
  | unmatchedInput (size furthest : Nat)
  /-- The rules do not match an edited document to its end. -/
  | unmatchedDocument (size furthest : Nat)
  /-- A tree that no edit touched does not end with its document. -/
  | shortTree (stop size : Nat)
  /-- The text of a repaired tree is not that of its document. -/
  | textDiffers
  /-- The caller asked to stop. -/
  | cancelled
  /-- A match is asked for where the input cannot be cut. -/
  | outsideInput (offset size : Nat)
  /-- A match cannot be cut out of the input. -/
  | uncutMatch (pattern : Pattern) (offset : Nat)
  /-- A loop goes on longer than its input lasts. -/
  | endlessLoop (rule : RuleId)
  /-- A region of interest does not hold its region. -/
  | uncontained (interest region : Region)
  /-- An edit does not fit its document. -/
  | edit (edit : Edit) (misfit : Edit.Misfit)
  /-- Rules are nested too deeply. -/
  | depth (limit : Nat) (rule : RuleId)
  /-- An input is too large. -/
  | inputSize (size limit : Nat)
  /-- There are too many edits. -/
  | editCount (count limit : Nat)
  /-- A kind and a wording given by a caller. -/
  | stated (kind : Kind) (wording : String)
  deriving DecidableEq

end Fault

/-- A kind of container as it stands in messages. -/
def ContainerKind.display : ContainerKind → String
  | inOrder => "InOrder"
  | anyOrder => "AnyOrder"
  | firstOrder => "FirstOrder"
  | value nonEmpty => "Value \x7b non_empty: " ++ toString nonEmpty ++ " \x7d"

namespace Fault

/-- The kind that a cause belongs to. -/
def Cause.kind : Cause → Kind
  | occurrence _ => .malformedOccurrence
  | pattern .. => .malformedPattern
  | unknownRule _ | unknownRoot _ | undefinedRule .. | danglingRule .. => .undefinedRule
  | alreadyDefined _ | otherKind .. | patternNeeded .. | childless _ | nameless _ | arity .. | argumentKind ..
  | missingRule _ | unresolvedName _ | endlessReference _ | wrongBinding .. => .illegalInvocation
  | unmatchedInput .. | unmatchedDocument .. | shortTree .. | textDiffers => .parseFailed
  | cancelled => .cancelled
  | outsideInput .. | uncutMatch .. | endlessLoop _ | uncontained .. => .invariantViolation
  | edit .. => .invalidEdit
  | depth .. | inputSize .. | editCount .. => .limitExceeded
  | stated kind _ => kind

/-- The wording of what makes a text no occurrence. -/
def occurrenceMessage : Occurrence.ReadError → String
  | .empty => "empty occurrence"
  | .malformed token => s!"invalid occurrence token '{token}'"
  | .tooLarge token => s!"occurrence count out of range in '{token}'"
  | .inverted token => s!"range '{token}' has minimum above maximum"

/-- The wording of what makes a source no pattern. -/
def patternMessage : Pattern.CompileError → String
  | .malformed => "error building NFA"
  | .wideWords => "unsupported regex feature for DFAs: cannot build lazy DFAs for regexes with Unicode word boundaries; " ++
      "switch to ASCII word boundaries, or heuristically enable Unicode word boundaries or use a different regex engine"

/-- The wording of why an edit does not fit. -/
def editMessage (edit : Edit) : Edit.Misfit → String
  | .overflow => s!"edit {edit.display} overflows"
  | .outside size => s!"edit {edit.display} is outside the document of {size} bytes"
  | .insideCharacter => s!"edit {edit.display} does not fall on character boundaries"

/-- The wording of a cause. -/
def Cause.message : Cause → String
  | occurrence error => occurrenceMessage error
  | pattern source error => s!"cannot compile '{source}': {patternMessage error}"
  | unknownRule rule => s!"unknown rule {rule.text}"
  | unknownRoot rule => s!"unknown root rule {rule.text}"
  | undefinedRule rule none => s!"rule {rule.text} was declared but never defined"
  | undefinedRule rule (some name) => s!"rule {rule.text} ({name}) was declared but never defined"
  | danglingRule owner target => s!"rule {owner.text} refers to unknown rule {target.text}"
  | alreadyDefined rule => s!"rule {rule.text} is already defined"
  | otherKind rule reserved defined =>
    s!"rule {rule.text} was declared as {reserved.display} but defined as {defined.display}"
  | patternNeeded rule found => s!"consume rule {rule.text} needs a pattern, got a {found.text}"
  | childless rule => s!"container rule {rule.text} has no children"
  | nameless rule => s!"value rule {rule.text} has no name"
  | arity callee expected given => s!"rule {callee.text} takes {expected} parameter(s), {given} given"
  | argumentKind parameter callee expected found =>
    s!"parameter '{parameter}' of rule {callee.text} expects a {expected.text}, got a {found.text}"
  | missingRule rule => s!"rule {rule.text} is not defined"
  | unresolvedName name => s!"unresolved name '{name}'"
  | endlessReference start => s!"reference chain starting at {start.display} is too deep"
  | wrongBinding requested found expected =>
    s!"{requested.display} resolved to a {found.text}, expected a {expected.text}"
  | unmatchedInput size furthest => s!"input of {size} bytes could not be matched past offset {furthest}"
  | unmatchedDocument size furthest =>
    s!"edited document of {size} bytes could not be matched past offset {furthest}"
  | shortTree stop size => s!"unmodified tree ends at {stop} but the document has {size} bytes"
  | textDiffers => "repaired tree text differs from the edited document"
  | cancelled => "operation was cancelled"
  | outsideInput offset size => s!"match offset {offset} is outside the input of {size} bytes"
  | uncutMatch p offset => s!"match of {p.text} at {offset} is not valid text"
  | endlessLoop rule => s!"the children of rule {rule.text} do not come to an end"
  | uncontained interest region => s!"region of interest {interest.text} no longer contains region {region.text}"
  | edit e misfit => editMessage e misfit
  | depth limit rule => s!"rule depth exceeds limit of {limit} at rule {rule.text}"
  | inputSize size limit => s!"input of {size} bytes exceeds limit of {limit} bytes"
  | editCount count limit => s!"{count} edits exceed limit of {limit}"
  | stated _ wording => wording

/-- What was being done when a fault happened. -/
inductive Activity where
  | matching (rule : RuleId) (offset : Nat)
  | invoking (rule : RuleId) (offset : Nat)
  | stated (wording : String)
  deriving DecidableEq, Repr

/-- The wording of an activity. -/
def Activity.text : Activity → String
  | matching rule offset => s!"while matching rule {rule.text} at offset {offset}"
  | invoking rule offset => s!"while invoking rule {rule.text} at offset {offset}"
  | stated wording => wording

end Fault

/-- What went wrong, where, and while doing what. -/
structure Fault where
  cause : Fault.Cause
  offset : Option Nat := none
  region : Option Region := none
  activity : Option Fault.Activity := none
  deriving DecidableEq

namespace Fault

/-- The kind of a fault. -/
def kind (fault : Fault) : Kind :=
  fault.cause.kind

/-- The wording of a fault. -/
def message (fault : Fault) : String :=
  fault.cause.message

/-- A fault as it is shown to a user. -/
def text (fault : Fault) : String :=
  fault.kind.text ++ ": " ++ fault.message

/-- Whether a fault says that a text does not match. -/
def isParseFailure (fault : Fault) : Bool :=
  fault.kind = .parseFailed

/-- The fault of a cause alone. -/
def of (cause : Cause) : Fault :=
  { cause }

/-- A fault of a kind in the words of a caller. A cancellation has one wording only. -/
def stated (kind : Kind) (wording : String) : Fault :=
  of (if kind = .cancelled then .cancelled else .stated kind wording)

/-- A fault with what was being done. -/
def during (activity : Activity) (fault : Fault) : Fault :=
  { fault with activity := some activity }

/-- The fault of an edit that does not fit. It tells the offset of the edit. -/
def ofEdit (edit : Edit) (misfit : Edit.Misfit) : Fault :=
  { cause := .edit edit misfit, offset := some edit.offset }

end Fault

/-- The pattern of a source, or the fault that it is none. -/
def Pattern.ofSource (serial : Nat) (source : String) : Except Fault Pattern :=
  (Pattern.compile serial source).mapError fun error => .of (.pattern source error)

/-- The occurrence that a text stands for, or the fault that it is none. -/
def Occurrence.ofText (text : String) : Except Fault Occurrence :=
  (Occurrence.read text).mapError fun error => .of (.occurrence error)

namespace Edit

/-- The document after an edit, or the fault of an edit that does not fit. -/
def applyTo (edit : Edit) (document : String) : Except Fault String :=
  (edit.apply document).mapError (Fault.ofEdit edit)

/-- The document after several edits, each applied to what the ones before it left. -/
def applyAll (edits : List Edit) (document : String) : Except Fault String :=
  edits.foldlM (fun document edit => edit.applyTo document) document

end Edit

end Graft
