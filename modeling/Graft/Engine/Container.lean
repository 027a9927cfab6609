import Graft.Engine.Gathering

/-!
# Containers

An ordered container reads its edges one after the other. A container in any order tries its edges in turn until none of
them brings more, starting over after each success. A first-order container commits to the first edge that succeeds or may
be left out. A value is an ordered container with a text of its own.

A container that is read again is given its earlier children, each with the edge that read it. A container that fails
takes back the text it has added to the value around it.
-/

namespace Graft.Engine

variable [Pattern.Compiler]

/-- The earlier children of a container, each with its edge, and the edge chosen. -/
structure Earliers where
  children : List (Nat × Earlier) := []
  chosen : Option Nat := none

/-- The earlier children that an edge read. -/
def Earliers.ofEdge (earliers : Earliers) (index : Nat) : List Earlier :=
  (earliers.children.filter (·.1 = index)).map (·.2)

/-! ## In order -/

/-- Read edges one after the other. Says whether every count was satisfied. -/
def readInOrder (setting : Setting) (attempts : Attempts) (owner : RuleId) (live : Context) (earliers : Earliers) :
    List (Edge × Nat) → Gathering → Run (Bool × Gathering)
  | [], g => return (true, g)
  | (edge, index) :: edges, g => do
    let lane ← Lane.open index edge live
    let p ← readLane setting attempts owner (earliers.ofEdge index) { gathering := g, lane }
    if p.lane.counter.isValid then readInOrder setting attempts owner live earliers edges p.gathering
    else return (false, p.gathering)

/-- Attempt a container whose children stand in order. -/
def inOrder (setting : Setting) (attempts : Attempts) (rule : RuleId) (edges : List Edge) (earliers : Earliers)
    (offset : Nat) (live : Context) : Run Attempt := do
  let mark ← Run.mark
  let (complete, g) ← readInOrder setting attempts rule live earliers edges.zipIdx (.begin offset)
  if complete then g.succeed rule none
  else
    Run.rollback mark
    return g.fail rule

/-! ## In any order -/

/-- Read the earlier children again, each by its edge, until one of them is not read again. -/
def replay (attempts : Attempts) : List (Nat × Earlier) → List Lane → Gathering → Run (List Lane × Gathering)
  | [], lanes, g => return (lanes, g)
  | (index, earlier) :: rest, lanes, g => do
    match lanes[index]? with
    | none => return (lanes, g)
    | some lane =>
      if lane.counter.acceptsMore then
        let attempt ← attempts.again lane.edge.rule earlier.1 earlier.2 g.cursor lane.context
        let (step, p) := Progress.accept { gathering := g, lane } attempt
        let lanes := lanes.set index p.lane
        if step = .failed then return (lanes, p.gathering) else replay attempts rest lanes p.gathering
      else return (lanes, g)

/-- Try edges in turn up to the first that consumes text. Says whether one did. -/
def scan (attempts : Attempts) : List Lane → Gathering → Run (Bool × List Lane × Gathering)
  | [], g => return (false, [], g)
  | lane :: lanes, g => do
    if lane.counter.acceptsMore then
      let attempt ← attempts.fresh lane.edge.rule g.cursor lane.context
      let (step, p) := Progress.accept { gathering := g, lane } attempt
      if step = .consumed then return (true, p.lane :: lanes, p.gathering)
      let (found, lanes, g) ← scan attempts lanes p.gathering
      return (found, p.lane :: lanes, g)
    else
      let (found, lanes, g) ← scan attempts lanes g
      return (found, lane :: lanes, g)

/-- Try edges in turn until none of them consumes text. A run of `owner` that goes on for longer than its budget is at
fault. -/
def scanAll (attempts : Attempts) (owner : RuleId) : Nat → List Lane → Gathering → Run (List Lane × Gathering)
  | 0, _, _ => Run.fail (.endlessLoop owner)
  | budget + 1, lanes, g => do
    let (found, lanes, g) ← scan attempts lanes g
    if found then scanAll attempts owner budget lanes g else return (lanes, g)

/-- Attempt a container whose children stand in any order. -/
def anyOrder (setting : Setting) (attempts : Attempts) (rule : RuleId) (edges : List Edge) (earliers : Earliers)
    (offset : Nat) (live : Context) : Run Attempt := do
  let mark ← Run.mark
  let lanes ← edges.zipIdx.mapM fun entry => Lane.open entry.2 entry.1 live
  let (lanes, g) ← replay attempts earliers.children lanes (.begin offset)
  let (lanes, g) ← scanAll attempts rule (setting.remaining g.cursor + 1) lanes g
  if lanes.all (·.counter.isValid) then g.succeed rule none
  else
    Run.rollback mark
    return g.fail rule

/-! ## The first that fits -/

/-- What a choice came to: an edge that fits, an edge that succeeded and then broke its occurrence, or no edge. -/
inductive Choice where
  | chosen (index : Nat)
  | broken
  | none

/-- Read edges one after the other up to the first that fits or breaks. Only the edge chosen before is read again. -/
def readFirst (setting : Setting) (attempts : Attempts) (owner : RuleId) (live : Context) (earliers : Earliers) :
    List (Edge × Nat) → Gathering → Run (Choice × Gathering)
  | [], g => return (.none, g)
  | (edge, index) :: edges, g => do
    let lane ← Lane.open index edge live
    let earlier := if earliers.chosen = some index then earliers.ofEdge index else []
    let p ← readLane setting attempts owner earlier { gathering := g, lane }
    if p.lane.counter.isValid then return (.chosen index, p.gathering)
    else if p.matched then return (.broken, p.gathering)
    else readFirst setting attempts owner live earliers edges p.gathering

/-- Attempt a container of the first of its children that fits. -/
def firstOrder (setting : Setting) (attempts : Attempts) (rule : RuleId) (edges : List Edge) (earliers : Earliers)
    (offset : Nat) (live : Context) : Run Attempt := do
  let mark ← Run.mark
  let (choice, g) ← readFirst setting attempts rule live earliers edges.zipIdx (.begin offset)
  match choice with
  | .chosen index => g.succeed rule (some index)
  | .broken =>
    Run.rollback mark
    return g.fail rule
  | .none => return g.fail rule

/-! ## Values -/

/-- Attempt a value. Its body collects text apart from what is around it. -/
def value (setting : Setting) (attempts : Attempts) (rule : RuleId) (name : String) (nonEmpty : Bool)
    (edges : List Edge) (earliers : Earliers) (offset : Nat) (live : Context) : Run Attempt := do
  Run.openValue
  let body ← inOrder setting attempts rule edges earliers offset live
  let text ← Run.closeValue
  match body.statement with
  | none => return .failure rule body.interest
  | some statement =>
    if nonEmpty && text.isEmpty then return .failure rule body.interest
    let id ← Run.freshId
    return .success (.value id statement.region name text statement) (.around rule body.derivation)

/-! ## Containers of every kind -/

/-- Attempt a container, given its earlier children. -/
def container (setting : Setting) (attempts : Attempts) (id : RuleId) (rule : Rule) (kind : ContainerKind)
    (edges : List Edge) (earliers : Earliers) (offset : Nat) (live : Context) : Run Attempt :=
  match kind with
  | .inOrder => inOrder setting attempts id edges earliers offset live
  | .anyOrder => anyOrder setting attempts id edges earliers offset live
  | .firstOrder => firstOrder setting attempts id edges earliers offset live
  | .value nonEmpty => value setting attempts id (rule.name.getD "") nonEmpty edges earliers offset live

/-- The earlier children of a group. There are none where the statement and its derivation do not agree. -/
def groupEarliers (statement : Statement) (derivation : Derivation) : Earliers :=
  match derivation with
  | .group _ _ derivations edges chosen =>
    let statements := statement.children
    if statements.length = derivations.length && edges.length = derivations.length then
      ⟨edges.zip (statements.zip derivations), chosen⟩
    else {}
  | _ => {}

/-- The earlier children of a container. Those of a value are those of its body. -/
def earliersOf (kind : ContainerKind) (statement : Statement) (derivation : Derivation) : Earliers :=
  match kind with
  | .value _ =>
    match statement.body?, derivation with
    | some body, .wrap _ _ inner => groupEarliers body inner
    | _, _ => {}
  | _ => groupEarliers statement derivation

end Graft.Engine
