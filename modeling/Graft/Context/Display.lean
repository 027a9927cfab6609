import Graft.Context
import Graft.Occurrence.Printer
import Graft.Text.Quoted

/-!
# Contexts in messages

How bindings and contexts stand in messages: a binding as its kind with its content in brackets, a context as the list of
its frames from the innermost outwards.
-/

namespace Graft

variable [Pattern.Compiler]

/-- A binding as it stands in messages. -/
def Binding.display : Binding → String
  | .rule id => s!"Rule(RuleId({id.index}))"
  | .pattern p => s!"Pattern(Pattern({Text.Quoted.encode p.source}))"
  | .occurrence o => s!"Occurrence({o.display})"
  | .reference name => s!"Reference({Text.Quoted.encode name})"

/-- The names of one frame as they stand in messages. -/
def Locals.display (locals : Locals) : String :=
  let entries := locals.map fun entry => Text.Quoted.encode entry.1 ++ ": " ++ entry.2.display
  "\x7b" ++ String.intercalate ", " entries ++ "\x7d"

/-- The frames of a context as they stand in messages. -/
def Context.displays : Context → List String
  | empty => []
  | frame locals _ parent => locals.display :: parent.displays

/-- A context as it stands in messages. -/
def Context.display (context : Context) : String :=
  "[" ++ String.intercalate ", " context.displays ++ "]"

end Graft
