import Graft.Identity
import Graft.Occurrence
import Graft.Pattern

/-!
# Contexts

A context says what names mean while a rule is attempted. It is a stack of frames, innermost first, each with names of its
own. A sealed frame hides everything beyond it from ordinary names; builtin names, which begin with `@`, are seen through
every frame.
-/

namespace Graft

variable [Pattern.Compiler]

/-- What a name may stand for. -/
inductive Binding where
  | rule (id : RuleId)
  | pattern (pattern : Pattern)
  | occurrence (occurrence : Occurrence)
  | reference (name : String)
  deriving DecidableEq, Hashable

/-- The kinds of binding. -/
inductive Binding.Kind where
  | rule
  | pattern
  | occurrence
  | reference
  deriving DecidableEq, Repr

/-- The kind of a binding. -/
def Binding.kind : Binding → Kind
  | rule _ => .rule
  | pattern _ => .pattern
  | occurrence _ => .occurrence
  | reference _ => .reference

/-- A kind of binding as it stands in messages. -/
def Binding.Kind.text : Binding.Kind → String
  | rule => "rule"
  | pattern => "pattern"
  | occurrence => "occurrence"
  | reference => "reference"

/-- The first character of every builtin name. -/
def builtinMark : String := "@"

/-- Whether a name is builtin. -/
def isBuiltin (name : String) : Bool :=
  name.startsWith builtinMark

/-- The names of one frame with what they stand for, sorted by name, each name once. -/
abbrev Locals := List (String × Binding)

namespace Locals

/-- The names with one more. A name that is there already is given its new meaning. -/
def bind (name : String) (binding : Binding) : Locals → Locals
  | [] => [(name, binding)]
  | (other, old) :: rest =>
    if name = other then (name, binding) :: rest
    else if name < other then (name, binding) :: (other, old) :: rest
    else (other, old) :: bind name binding rest

/-- Names bound one after the other. -/
def ofList (bindings : List (String × Binding)) : Locals :=
  bindings.foldl (fun locals entry => bind entry.1 entry.2 locals) []

/-- What a name stands for. -/
def find? (name : String) (locals : Locals) : Option Binding :=
  List.lookup name locals

end Locals

/-- What names mean: no names at all, or a frame over the rest. -/
inductive Context where
  | empty
  | frame (locals : Locals) (isSealed : Bool) (parent : Context)
  deriving DecidableEq, Hashable

namespace Context

instance : Inhabited Context := ⟨empty⟩

/-- A frame over a context. A frame that neither binds nor seals is left out over the empty context. -/
def nest (locals : Locals) (isSealed : Bool) (parent : Context) : Context :=
  if locals.isEmpty && !isSealed && parent == empty then empty else frame locals isSealed parent

/-- The names of the innermost frame. -/
def locals : Context → Locals
  | empty => []
  | frame locals _ _ => locals

/-- The number of frames. -/
def depth : Context → Nat
  | empty => 0
  | frame _ _ parent => parent.depth + 1

/-- A context with names of its own in front. -/
def withLocals (parent : Context) (locals : Locals) : Context :=
  nest locals false parent

/-- The context in which a child is attempted: the names of the live frame over those where the child was declared. -/
def merge (declaring live : Context) : Context :=
  nest live.locals false declaring

/-- The context inside an invoked rule: its arguments, then the names it was declared with, then those of the caller. Of
the latter two only builtin names are seen. -/
def invocation (live declaring : Context) (arguments : Locals) : Context :=
  nest arguments true (nest declaring.locals false live)

/-- What a name means. -/
def lookup (name : String) : Context → Option Binding
  | empty => none
  | frame locals isSealed parent =>
    match locals.find? name with
    | some binding => some binding
    | none => if isSealed && !isBuiltin name then none else parent.lookup name

end Context

end Graft
