import Std.Data.HashMap
import Std.Data.HashSet
import Graft.Context.Resolution
import Graft.Derivation
import Graft.Options
import Graft.Pattern.Matcher

/-!
# Runs

A run is one call of the engine on one text. What stays fixed is its `Setting`; what changes is its `State`: the attempts
remembered, the texts that the values being read have collected, how deep rules are nested, the furthest offset that a
rule reached, the statistics and the next identity. A fault ends the run.
-/

namespace Graft

variable [Pattern.Compiler]

/-- What an attempt is remembered by. -/
structure MemoKey where
  rule : RuleId
  offset : Nat
  context : Context
  deriving DecidableEq, Hashable

/-- A remembered attempt and the text it added to the value around it. -/
structure MemoEntry where
  attempt : Attempt
  appended : String

/-- What stays fixed during a run. -/
structure Setting where
  grammar : Grammar
  input : String
  endings : Array (List UInt8)
  endings_eq : endings = Text.endings input
  limits : Limits
  memoize : Bool
  cancelled : Bool
  modified : Std.HashSet NodeId

namespace Setting

/-- The setting of a call on a text. -/
def make (grammar : Grammar) (input : String) (options : Options) (modified : Std.HashSet NodeId) : Setting where
  grammar
  input
  endings := Text.endings input
  endings_eq := rfl
  limits := options.limits
  memoize := options.memoize
  cancelled := options.isCancelled
  modified

/-- The bytes behind an offset. -/
def behind (setting : Setting) (offset : Nat) : List UInt8 :=
  setting.endings[offset]?.getD []

theorem behind_eq (setting : Setting) (offset : Nat) :
    setting.behind offset = (Text.bytes setting.input).drop offset := by
  rw [behind, setting.endings_eq, Text.getElem?_endings]

/-- How many bytes lie behind an offset. -/
def remaining (setting : Setting) (offset : Nat) : Nat :=
  Text.size setting.input - offset

end Setting

/-- What changes during a run. The texts that values collect are kept innermost first; the last one belongs to no value. -/
structure State where
  memo : Std.HashMap MemoKey MemoEntry := {}
  collected : List String := [""]
  depth : Nat := 0
  furthest : Nat := 0
  statistics : Statistics := {}
  nextId : NodeId

/-- A step of a run. -/
abbrev Run := StateT State (Except Fault)

namespace Run

/-- End the run with a fault. -/
def fail (cause : Fault.Cause) : Run α :=
  throw (.of cause)

/-- Give out an identity. -/
def freshId : Run NodeId := do
  let state ← get
  set { state with nextId := state.nextId.next }
  return state.nextId

/-- Count something. -/
def count (f : Statistics → Statistics) : Run Unit :=
  modify fun state => { state with statistics := f state.statistics }

/-! ## Entering rules -/

/-- Enter a rule, unless the call is cancelled or rules are nested too deeply. -/
def enter (setting : Setting) (rule : RuleId) : Run Unit := do
  if setting.cancelled then fail .cancelled
  if setting.limits.maxRuleDepth ≤ (← get).depth then fail (.depth setting.limits.maxRuleDepth rule)
  modify fun state => { state with depth := state.depth + 1 }
  count fun s => { s with entered := s.entered + 1 }

/-- Leave a rule. -/
def leave : Run Unit :=
  modify fun state => { state with depth := state.depth - 1 }

/-- Note how far a successful attempt reached. -/
def reach (attempt : Attempt) : Run Unit :=
  match attempt.statement with
  | some statement => modify fun state => { state with furthest := max state.furthest statement.region.stop }
  | none => pure ()

/-! ## The texts of values -/

/-- The text that the innermost value has collected. -/
def innermost (collected : List String) : String :=
  collected.headD ""

/-- The collected texts with another innermost one. -/
def withInnermost (text : String) : List String → List String
  | [] => []
  | _ :: outer => text :: outer

/-- How much text the innermost value has collected. -/
def mark : Run Nat := do
  return Text.size (innermost (← get).collected)

/-- Take back the text collected since a mark. -/
def rollback (mark : Nat) : Run Unit :=
  modify fun state =>
    { state with collected := withInnermost (Text.upTo (innermost state.collected) mark) state.collected }

/-- The text collected since a mark. -/
def since (mark : Nat) : Run String := do
  return Text.beyond (innermost (← get).collected) mark

/-- Add to the text of the innermost value. -/
def append (text : String) : Run Unit :=
  modify fun state => { state with collected := withInnermost (innermost state.collected ++ text) state.collected }

/-- Begin the text of a value. -/
def openValue : Run Unit :=
  modify fun state => { state with collected := "" :: state.collected }

/-- End the text of the innermost value. -/
def closeValue : Run String := do
  let state ← get
  set { state with collected := state.collected.drop 1 }
  return innermost state.collected

/-! ## The memo -/

/-- The remembered attempt of a rule, if there is one. Its text is added to the innermost value. -/
def lookUp (setting : Setting) (key : MemoKey) : Run (Option Attempt) := do
  if !setting.memoize then return none
  match (← get).memo[key]? with
  | some entry =>
    count fun s => { s with hits := s.hits + 1 }
    append entry.appended
    return some entry.attempt
  | none =>
    count fun s => { s with misses := s.misses + 1 }
    return none

/-- Remember an attempt, while there is room. -/
def remember (setting : Setting) (key : MemoKey) (entry : MemoEntry) : Run Unit := do
  if setting.memoize && (← get).memo.size < setting.limits.maxMemoEntries then
    modify fun state => { state with memo := state.memo.insert key entry }

/-! ## Matching -/

/-- Match a pattern at an offset of the input. -/
def matchAt (setting : Setting) (pattern : Pattern) (offset : Nat) : Run Pattern.Outcome := do
  if Text.isBoundary setting.input offset then
    return pattern.matchFront (setting.behind offset)
  else fail (.outsideInput offset (Text.size setting.input))

end Run

end Graft
