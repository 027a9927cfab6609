import Graft.Engine
import Graft.Tree

/-!
# Parsing

A text matches a grammar when the root rule, attempted at its start, reads all of it.
-/

namespace Graft

variable [Pattern.Compiler]

/-- Check that a text is not too large. -/
def Limits.checkInput (limits : Limits) (input : String) : Except Fault Unit :=
  if limits.maxInputSize < Text.size input then .error (.of (.inputSize (Text.size input) limits.maxInputSize))
  else .ok ()

/-- The tree of a run whose root attempt read the whole text, or the fault that it did not. The fault tells the furthest
offset that any rule reached, and where the root attempt looked. -/
def Tree.ofRun (input : String) (unmatched : Nat → Nat → Fault.Cause) (attempt : Attempt) (state : State) :
    Except Fault Tree :=
  let size := Text.size input
  let furthest := match attempt.statement with
    | some statement => max statement.region.stop state.furthest
    | none => state.furthest
  let fault : Fault :=
    { cause := unmatched size furthest, offset := some furthest, region := some attempt.interest }
  match attempt.statement with
  | some statement =>
    if statement.region.stop = size then .ok ⟨statement, attempt.derivation, state.statistics⟩ else .error fault
  | none => .error fault

/-- Parse a text. New nodes are given identities from `nextId` on; the first identity that is left comes back with the
tree. -/
def Grammar.parse (grammar : Grammar) (input : String) (options : Options) (nextId : NodeId) :
    Except Fault (Tree × NodeId) := do
  options.limits.checkInput input
  let setting := Setting.make grammar input options {}
  let (attempt, state) ← ((Engine.atRoot setting).fresh grammar.root 0 options.context).run { nextId }
  let tree ← Tree.ofRun input .unmatchedInput attempt state
  return (tree, state.nextId)

end Graft
