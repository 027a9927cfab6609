import Graft.Engine.Consume
import Graft.Engine.Container
import Graft.Engine.Invoke

/-!
# The engine

A rule is attempted from scratch by entering it, asking the memo, and reading its body. It is attempted again, on a node
that it read before, by keeping that node if no edit touched it and it still starts at the offset, and by reading its
body with the earlier children at hand if not. How deep rules may be nested is a number of levels, one of which each
entered rule uses up.
-/

namespace Graft.Engine

variable [Pattern.Compiler]

/-- Read the body of a rule from scratch. -/
def readBody (setting : Setting) (attempts : Attempts) (id : RuleId) (offset : Nat) (context : Context) :
    Run Attempt := do
  let rule ← setting.grammar.getRule id
  match rule.body with
  | .consume kind pattern => consume setting id kind pattern offset context
  | .container kind edges => container setting attempts id rule kind edges {} offset context
  | .invoke call => invoke setting attempts id call none offset context

/-- Read the body of a rule with an earlier node at hand. A consumed text is matched anew. -/
def rereadBody (setting : Setting) (attempts : Attempts) (id : RuleId) (statement : Statement)
    (derivation : Derivation) (offset : Nat) (context : Context) : Run Attempt := do
  let rule ← setting.grammar.getRule id
  match rule.body with
  | .consume kind pattern => consume setting id kind pattern offset context
  | .container kind edges =>
    container setting attempts id rule kind edges (earliersOf kind statement derivation) offset context
  | .invoke call => invoke setting attempts id call (earlierCall? statement derivation) offset context

/-- Attempt a rule that has been entered: the memo is asked first, and told in the end. -/
def lookUpOrRead (setting : Setting) (attempts : Attempts) (rule : RuleId) (offset : Nat) (context : Context) :
    Run Attempt := do
  match ← Run.lookUp setting ⟨rule, offset, context⟩ with
  | some attempt => return attempt
  | none =>
    let mark ← Run.mark
    let attempt ← readBody setting attempts rule offset context
    Run.reach attempt
    let appended ← Run.since mark
    Run.remember setting ⟨rule, offset, context⟩ ⟨attempt, appended⟩
    return attempt

/-- Attempt a rule from scratch. -/
def attempt (setting : Setting) (attempts : Attempts) (rule : RuleId) (offset : Nat) (context : Context) :
    Run Attempt := do
  Run.enter setting rule
  let attempt ← lookUpOrRead setting attempts rule offset context
  Run.leave
  return attempt

mutual

/-- Add to the value around a node what the node had added to it. The text of a value stays with the value. -/
def recollect (grammar : Grammar) : Statement → Derivation → Run Unit
  | .leaf _ _ text, d => do
    let rule ← grammar.getRule d.rule
    match rule.body with
    | .consume .keep _ => Run.append text
    | _ => pure ()
  | .group _ _ children, d => do
    let rule ← grammar.getRule d.rule
    match rule.body with
    | .consume .keep _ => Run.append ""
    | .consume .skip _ | .container (.value _) _ => pure ()
    | _ => recollectAll grammar children d.children
  | .value _ _ _ text body, d => do
    let rule ← grammar.getRule d.rule
    match rule.body with
    | .consume .keep _ => Run.append text
    | .consume .skip _ | .container (.value _) _ => pure ()
    | _ =>
      match d.children with
      | [] => pure ()
      | inner :: _ => recollect grammar body inner

/-- Add to the value around several nodes what the nodes had added to it. -/
def recollectAll (grammar : Grammar) : List Statement → List Derivation → Run Unit
  | s :: statements, d :: derivations => do
    recollect grammar s d
    recollectAll grammar statements derivations
  | _, _ => pure ()

end

/-- Keep an earlier node as it is. -/
def reuse (setting : Setting) (statement : Statement) (derivation : Derivation) : Run Attempt := do
  recollect setting.grammar statement derivation
  let attempt := Attempt.success statement derivation
  Run.reach attempt
  Run.count fun s => { s with reused := s.reused + 1 }
  return attempt

/-- Attempt a rule again on a node that was read before, given how to attempt it from scratch. -/
def reattempt (setting : Setting) (attempts : Attempts) (rule : RuleId) (statement : Statement)
    (derivation : Derivation) (offset : Nat) (context : Context) : Run Attempt := do
  if derivation.rule ≠ rule then attempt setting attempts rule offset context
  else if statement.region.offset = offset && !setting.modified.contains statement.id then
    reuse setting statement derivation
  else
    Run.enter setting rule
    Run.count fun s => { s with rederived := s.rederived + 1 }
    let attempt ← rereadBody setting attempts rule statement derivation offset context
    Run.leave
    Run.reach attempt
    return attempt

/-- How rules are attempted when no level is left: not at all. -/
def exhausted (setting : Setting) : Attempts where
  fresh rule _ _ := Run.fail (.depth setting.limits.maxRuleDepth rule)
  again rule _ _ _ _ := Run.fail (.depth setting.limits.maxRuleDepth rule)

/-- How rules are attempted inside a number of levels. -/
def attempts (setting : Setting) : Nat → Attempts
  | 0 => exhausted setting
  | levels + 1 =>
    { fresh := fun rule offset context => attempt setting (attempts setting levels) rule offset context
      again := fun rule statement derivation offset context =>
        reattempt setting (attempts setting levels) rule statement derivation offset context }

/-- How rules are attempted at the root: one level more than may be entered, so that the limit is met at an entry. -/
def atRoot (setting : Setting) : Attempts :=
  attempts setting (setting.limits.maxRuleDepth + 1)

end Graft.Engine
