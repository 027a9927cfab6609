import Graft.Counter
import Graft.Engine.Attempts

/-!
# Gathering children

While a container is read its children are gathered from left to right. Every attempt, also one that fails, widens the
region of interest. A child that reads nothing is taken as often as its occurrence still requires, and no further child is
sought by that edge.
-/

namespace Graft.Engine

variable [Pattern.Compiler]

/-- A child of a container with the edge that read it. -/
structure Taken where
  edge : Nat
  statement : Statement
  derivation : Derivation

/-- What has been gathered: where the container starts, where the next child starts, where its rules have looked, and the
children so far. -/
structure Gathering where
  start : Nat
  cursor : Nat
  interest : Region
  children : Array Taken

namespace Gathering

/-- Nothing gathered yet. -/
def begin (offset : Nat) : Gathering :=
  ⟨offset, offset, ⟨offset, 0⟩, #[]⟩

/-- One more child. The next one starts where it ends. -/
def push (g : Gathering) (child : Taken) : Gathering :=
  { g with cursor := child.statement.region.stop, children := g.children.push child }

/-- The same child several times. -/
def pushMany (g : Gathering) (child : Taken) : Nat → Gathering
  | 0 => g
  | count + 1 => pushMany (g.push child) child count

/-- The container as a success, by a rule and with the edge chosen. -/
def succeed (g : Gathering) (rule : RuleId) (chosen : Option Nat) : Run Attempt := do
  let id ← Run.freshId
  let children := g.children.toList
  return .success (.group id ⟨g.start, g.cursor - g.start⟩ (children.map (·.statement)))
    (.group rule g.interest (children.map (·.derivation)) (children.map (·.edge)) chosen)

/-- The container as a failure. -/
def fail (g : Gathering) (rule : RuleId) : Attempt :=
  .failure rule g.interest

end Gathering

/-- An edge being read: its place, the context of its attempts and its count. -/
structure Lane where
  index : Nat
  edge : Edge
  context : Context
  counter : Counter

/-- Begin to read an edge, in the live context of its container. -/
def Lane.open (index : Nat) (edge : Edge) (live : Context) : Except Fault Lane := do
  let context := edge.context live
  let occurrence ← context.resolveOccurrence edge.occurrence
  return ⟨index, edge, context, .start occurrence⟩

/-- What an attempt of an edge came to. -/
inductive Step where
  | consumed
  | empty
  | failed
  deriving DecidableEq, Repr

/-- What has been gathered while an edge is read, and whether any of its attempts succeeded. -/
structure Progress where
  gathering : Gathering
  lane : Lane
  matched : Bool := false

namespace Progress

/-- Take in what an attempt came to. -/
def accept (p : Progress) (attempt : Attempt) : Step × Progress :=
  let gathering := { p.gathering with interest := p.gathering.interest.expandTo attempt.interest }
  match attempt.statement with
  | none => (.failed, { p with gathering })
  | some statement =>
    let child : Taken := ⟨p.lane.index, statement, attempt.derivation⟩
    if statement.region.isEmpty then
      let counter := p.lane.counter
      (.empty,
        { gathering := gathering.pushMany child counter.missing
          lane := { p.lane with counter := counter.addMissing }
          matched := true })
    else
      (.consumed,
        { gathering := gathering.push child
          lane := { p.lane with counter := p.lane.counter.addOne }
          matched := true })

end Progress

/-- Attempt an edge from scratch until its occurrence is used up or an attempt brings nothing more. A run of `owner` that
goes on for longer than its budget is at fault. -/
def readFresh (attempts : Attempts) (owner : RuleId) : Nat → Progress → Run Progress
  | 0, _ => Run.fail (.endlessLoop owner)
  | budget + 1, p => do
    if p.lane.counter.acceptsMore then
      let attempt ← attempts.fresh p.lane.edge.rule p.gathering.cursor p.lane.context
      match p.accept attempt with
      | (.consumed, p) => readFresh attempts owner budget p
      | (_, p) => return p
    else return p

/-- Attempt an edge again on the nodes that it read before, until one of them is not read again. Says whether the edge is
done with. -/
def readAgain (attempts : Attempts) : List Earlier → Progress → Run (Bool × Progress)
  | [], p => return (false, p)
  | earlier :: rest, p => do
    if p.lane.counter.acceptsMore then
      let attempt ← attempts.again p.lane.edge.rule earlier.1 earlier.2 p.gathering.cursor p.lane.context
      match p.accept attempt with
      | (.consumed, p) => readAgain attempts rest p
      | (.empty, p) => return (true, p)
      | (.failed, p) => return (false, p)
    else return (false, p)

/-- Read an edge: first the nodes read before, then from scratch. -/
def readLane (setting : Setting) (attempts : Attempts) (owner : RuleId) (earlier : List Earlier) (p : Progress) :
    Run Progress := do
  let (done, p) ← readAgain attempts earlier p
  if done then return p
  readFresh attempts owner (setting.remaining p.gathering.cursor + 1) p

end Graft.Engine
