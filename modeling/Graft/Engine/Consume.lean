import Graft.Run

/-!
# Consuming text

A consume rule matches its pattern at the offset. What the pattern looked at is the region of interest, whether it matched
or not.
-/

namespace Graft.Engine

variable [Pattern.Compiler]

/-- Attempt a consume rule. -/
def consume (setting : Setting) (rule : RuleId) (kind : ConsumeKind) (pattern : Binding) (offset : Nat)
    (context : Context) : Run Attempt := do
  let pattern ← (context.resolvePattern pattern).mapError (Fault.during (.matching rule offset))
  let outcome ← Run.matchAt setting pattern offset
  let interest : Region := ⟨offset, outcome.examined⟩
  match outcome.length with
  | none => return .failure rule interest
  | some length =>
    match Text.slice? setting.input offset (offset + length) with
    | none => Run.fail (.uncutMatch pattern offset)
    | some text =>
      if kind = .keep then Run.append text
      let id ← Run.freshId
      return .success (.leaf id ⟨offset, Text.size text⟩ text) (.leaf rule interest)

end Graft.Engine
