import Graft.Pattern.Automaton
import Graft.Pattern.Compiler
import Graft.Pattern.Reader

/-!
# Regular expressions

The compiler of regular expressions: a source is read as an expression, and the expression is laid out as a program, which runs as
a list of threads.
-/

namespace Graft.Pattern

/-- The program that a source stands for. -/
def programOf (source : String) : Except CompileError Program :=
  match Reader.read source with
  | none => .error .malformed
  | some expression =>
    if expression.hasWideWords then .error .wideWords else .ok (Program.ofExpression expression)

namespace Regex

/-- Sources are regular expressions. -/
scoped instance compiler : Compiler where
  Automaton := Program
  Configuration := Configuration
  compile := programOf
  initial := Program.initial
  step := Program.step
  accepted := Configuration.accepted
  accepts := Program.accepts
  isDead := Configuration.isDead
  accepted_of_isDead h := (Configuration.isDead_iff.1 h).2
  accepts_of_isDead := Program.accepts_of_isDead
  isDead_step := Program.isDead_step

end Regex

end Graft.Pattern
