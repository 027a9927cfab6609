import Graft.Proofs.Kept

/-!
# Readings

A reading is what an attempt of a rule comes to as a plain function of the grammar, the text, the offset and the context: no
memo, no identities, no limits, and nothing of an earlier tree. The text that a value collects is what its body keeps. How
deep rules are nested is a number of levels; where they do not suffice, or where something cannot be resolved, there is no
reading. The engine is shown to come to the readings elsewhere; here they are only defined.
-/

namespace Graft

namespace Engine.Gathering

/-- What has been gathered, as a group. -/
def statement (g : Gathering) (id : NodeId) : Statement :=
  .group id ⟨g.start, g.cursor - g.start⟩ (g.children.toList.map (·.statement))

/-- How what has been gathered was derived. -/
def derivation (g : Gathering) (rule : RuleId) (chosen : Option Nat) : Derivation :=
  .group rule g.interest (g.children.toList.map (·.derivation)) (g.children.toList.map (·.edge)) chosen

end Engine.Gathering

theorem Except.toOption_eq_some_iff {ε α : Type} {x : Except ε α} {a : α} : x.toOption = some a ↔ x = .ok a := by
  cases x <;> simp [Except.toOption]

/-! ## Outcomes -/

namespace Reading

open Engine

/-- An identity for nodes that need none. -/
def noId : NodeId := ⟨0⟩

/-- What a match at an offset comes to. -/
def matched (input : String) (rule : RuleId) (offset : Nat) (outcome : Pattern.Outcome) : Option Attempt :=
  let interest : Region := ⟨offset, outcome.examined⟩
  match outcome.length with
  | none => some (.failure rule interest)
  | some length =>
    (Text.slice? input offset (offset + length)).map fun text =>
      .success (.leaf noId ⟨offset, Text.size text⟩ text) (.leaf rule interest)

/-- A container as a success. -/
def succeed (id : NodeId) (g : Gathering) (rule : RuleId) (chosen : Option Nat) : Attempt :=
  .success (g.statement id) (g.derivation rule chosen)

/-- A match looks as far as it was looked for. -/
theorem interest_matched {input : String} {rule : RuleId} {offset : Nat} {outcome : Pattern.Outcome} {a : Attempt}
    (h : matched input rule offset outcome = some a) : a.interest = ⟨offset, outcome.examined⟩ := by
  rw [matched] at h
  cases hl : outcome.length with
  | none =>
    simp only [hl] at h
    cases h
    rfl
  | some length =>
    simp only [hl] at h
    obtain ⟨text, _, rfl⟩ := Option.map_eq_some_iff.1 h
    rfl

@[simp] theorem succeed_recast (m : Recasting) (id : NodeId) (g : Gathering) (rule : RuleId) (chosen : Option Nat) :
    (succeed id g rule chosen).recast m = succeed (m.identity id) (g.recast m) rule chosen := by
  have hlength : g.cursor + m.distance - (g.start + m.distance) = g.cursor - g.start := by omega
  simp [succeed, Gathering.statement, Gathering.derivation, Gathering.recast, Taken.recast, Region.movedBy, hlength,
    Function.comp_def]

@[simp] theorem fail_recast (m : Recasting) (g : Gathering) (rule : RuleId) :
    (g.fail rule).recast m = (g.recast m).fail rule := by
  simp [Gathering.fail, Gathering.recast]

/-- Containers of what is the same up to a recasting are the same up to it, whatever their identities. -/
theorem succeed_same {m : Recasting} (hm : ∀ id, m.identity id = noId) {g g' : Gathering} (h : g.recast m = g'.recast m)
    (id id' : NodeId) (rule : RuleId) (chosen : Option Nat) :
    (succeed id g rule chosen).recast m = (succeed id' g' rule chosen).recast m := by
  rw [succeed_recast, succeed_recast, hm, hm, h]

theorem fail_same {m : Recasting} {g g' : Gathering} (h : g.recast m = g'.recast m) (rule : RuleId) :
    (g.fail rule).recast m = (g'.fail rule).recast m := by
  rw [fail_recast, fail_recast, h]

/-! ## Names of values -/

/-- A statement as an invocation shows it. -/
def shown (name : Option String) (s : Statement) : Statement :=
  match name with
  | some name => s.renamed name
  | none => s

theorem region_shown (name : Option String) (s : Statement) : (shown name s).region = s.region := by
  cases name with
  | none => rfl
  | some name => cases s <;> rfl

theorem id_shown (name : Option String) (s : Statement) : (shown name s).id = s.id := by
  cases name with
  | none => rfl
  | some name => cases s <;> rfl

/-- An attempt whose statement is shown under a name. -/
def shownAttempt (name : Option String) (a : Attempt) : Attempt :=
  ⟨a.statement.map (shown name), a.derivation⟩

@[simp] theorem shownAttempt_none (a : Attempt) : shownAttempt none a = a := by
  obtain ⟨statement, d⟩ := a
  cases statement <;> rfl

/-- Showing a statement twice under a name is showing it once. -/
theorem shown_shown (name : Option String) (s : Statement) : shown name (shown name s) = shown name s := by
  cases name with
  | none => rfl
  | some name => cases s <;> rfl

@[simp] theorem shown_recast (m : Recasting) (name : Option String) (s : Statement) :
    (shown name s).recast m = shown name (s.recast m) := by
  cases name with
  | none => rfl
  | some name => exact Statement.renamed_recast m name s

theorem shownAttempt_recast (m : Recasting) (name : Option String) (a : Attempt) :
    (shownAttempt name a).recast m = shownAttempt name (a.recast m) := by
  obtain ⟨statement, d⟩ := a
  cases statement with
  | none => rfl
  | some s => simp [shownAttempt, Attempt.recast]

/-- What shows like a node has a statement that shows like that of the node, and its derivation. -/
theorem shown_of_same {name : Option String} {s : Statement} {d : Derivation} {a : Attempt}
    (h : (shownAttempt name (.success s d)).recast .bare = (shownAttempt name a).recast .bare) :
    ∃ t, a.statement = some t ∧ (shown name s).recast .bare = (shown name t).recast .bare ∧ d = a.derivation := by
  obtain ⟨_, hshown, hsame⟩ := Attempt.statement_some_of_same h rfl
  obtain ⟨t, ht, rfl⟩ := Option.map_eq_some_iff.1 hshown
  exact ⟨t, ht, hsame, Attempt.derivation_of_same h⟩

end Reading

variable [Pattern.Compiler]

/-! ## Matches -/

namespace Reading

open Engine

/-- What rules come to where they are attempted, where that can be told. -/
abbrev Oracle := RuleId → Nat → Context → Option Attempt

/-- The reading of a consume rule. -/
def consume (input : String) (rule : RuleId) (pattern : Binding) (offset : Nat) (context : Context) : Option Attempt := do
  let pattern ← (context.resolvePattern pattern).toOption
  if Text.isBoundary input offset then matched input rule offset (pattern.matchFront ((Text.bytes input).drop offset))
  else none

/-! ## Containers -/

/-- Read an edge until its occurrence is used up or an attempt brings nothing more. -/
def readLane (R : Oracle) : Nat → Progress → Option Progress
  | 0, _ => none
  | budget + 1, p => do
    if p.lane.counter.acceptsMore then
      let attempt ← R p.lane.edge.rule p.gathering.cursor p.lane.context
      match p.accept attempt with
      | (.consumed, p) => readLane R budget p
      | (_, p) => some p
    else some p

/-- Read edges one after the other. -/
def readInOrder (R : Oracle) (input : String) (live : Context) : List (Edge × Nat) → Gathering → Option (Bool × Gathering)
  | [], g => some (true, g)
  | (edge, index) :: edges, g => do
    let lane ← (Lane.open index edge live).toOption
    let p ← readLane R (Text.size input - g.cursor + 1) { gathering := g, lane }
    if p.lane.counter.isValid then readInOrder R input live edges p.gathering
    else some (false, p.gathering)

/-- The reading of a container whose children stand in order. -/
def inOrder (R : Oracle) (input : String) (rule : RuleId) (edges : List Edge) (offset : Nat) (live : Context) :
    Option Attempt := do
  let (complete, g) ← readInOrder R input live edges.zipIdx (.begin offset)
  if complete then some (succeed noId g rule none) else some (g.fail rule)

/-- Begin to read every edge. -/
def openAll (live : Context) : List (Edge × Nat) → Option (List Lane)
  | [] => some []
  | (edge, index) :: edges => do
    let lane ← (Lane.open index edge live).toOption
    let lanes ← openAll live edges
    some (lane :: lanes)

/-- Try edges in turn up to the first that consumes text. -/
def scan (R : Oracle) : List Lane → Gathering → Option (Bool × List Lane × Gathering)
  | [], g => some (false, [], g)
  | lane :: lanes, g => do
    if lane.counter.acceptsMore then
      let attempt ← R lane.edge.rule g.cursor lane.context
      let (step, p) := Progress.accept { gathering := g, lane } attempt
      if step = .consumed then some (true, p.lane :: lanes, p.gathering)
      else
        let (found, lanes, g) ← scan R lanes p.gathering
        some (found, p.lane :: lanes, g)
    else
      let (found, lanes, g) ← scan R lanes g
      some (found, lane :: lanes, g)

/-- Try edges in turn until none of them consumes text. -/
def scanAll (R : Oracle) : Nat → List Lane → Gathering → Option (List Lane × Gathering)
  | 0, _, _ => none
  | budget + 1, lanes, g => do
    let (found, lanes, g) ← scan R lanes g
    if found then scanAll R budget lanes g else some (lanes, g)

/-- The reading of a container whose children stand in any order. -/
def anyOrder (R : Oracle) (input : String) (rule : RuleId) (edges : List Edge) (offset : Nat) (live : Context) :
    Option Attempt := do
  let lanes ← openAll live edges.zipIdx
  let (lanes, g) ← scanAll R (Text.size input - offset + 1) lanes (.begin offset)
  if lanes.all (·.counter.isValid) then some (succeed noId g rule none) else some (g.fail rule)

/-- Read edges one after the other up to the first that fits or breaks. -/
def readFirst (R : Oracle) (input : String) (live : Context) : List (Edge × Nat) → Gathering → Option (Choice × Gathering)
  | [], g => some (.none, g)
  | (edge, index) :: edges, g => do
    let lane ← (Lane.open index edge live).toOption
    let p ← readLane R (Text.size input - g.cursor + 1) { gathering := g, lane }
    if p.lane.counter.isValid then some (.chosen index, p.gathering)
    else if p.matched then some (.broken, p.gathering)
    else readFirst R input live edges p.gathering

/-- The reading of a container of the first of its children that fits. -/
def firstOrder (R : Oracle) (input : String) (rule : RuleId) (edges : List Edge) (offset : Nat) (live : Context) :
    Option Attempt := do
  let (choice, g) ← readFirst R input live edges.zipIdx (.begin offset)
  match choice with
  | .chosen index => some (succeed noId g rule (some index))
  | .broken | .none => some (g.fail rule)

/-- What the body of a value comes to for the value. Its text is what the body keeps. -/
def valueOf (grammar : Grammar) (rule : RuleId) (name : String) (nonEmpty : Bool) (body : Attempt) : Attempt :=
  match body.statement with
  | none => .failure rule body.interest
  | some statement =>
    let text := body.keptBelow grammar
    if nonEmpty && text.isEmpty then .failure rule body.interest
    else .success (.value noId statement.region name text statement) (.around rule body.derivation)

/-- The reading of a container. -/
def container (R : Oracle) (grammar : Grammar) (input : String) (id : RuleId) (rule : Rule) (kind : ContainerKind)
    (edges : List Edge) (offset : Nat) (live : Context) : Option Attempt :=
  match kind with
  | .inOrder => inOrder R input id edges offset live
  | .anyOrder => anyOrder R input id edges offset live
  | .firstOrder => firstOrder R input id edges offset live
  | .value nonEmpty => (inOrder R input id edges offset live).map (valueOf grammar id (rule.name.getD "") nonEmpty)

/-! ## One step of each loop -/

section

variable {R : Oracle} {input : String} {live : Context} {edge : Edge} {index : Nat} {entries : List (Edge × Nat)}
  {lane : Lane} {g : Gathering} {p : Progress}

/-- An edge is read on where its attempt consumed text. -/
theorem readLane_turn (R : Oracle) (budget : Nat) (p : Progress) :
    readLane R (budget + 1) p =
      if p.lane.counter.acceptsMore then
        (R p.lane.edge.rule p.gathering.cursor p.lane.context).bind fun a =>
          if (p.accept a).1 = .consumed then readLane R budget (p.accept a).2 else some (p.accept a).2
      else some p := by
  rw [readLane]
  split
  · refine congrArg _ (funext fun a => ?_)
    obtain ⟨step, q⟩ := p.accept a
    cases step <;> rfl
  · rfl

theorem readLane_succ {budget : Nat} {a : Attempt} (hm : p.lane.counter.acceptsMore = true)
    (ha : R p.lane.edge.rule p.gathering.cursor p.lane.context = some a) :
    readLane R (budget + 1) p =
      if (p.accept a).1 = .consumed then readLane R budget (p.accept a).2 else some (p.accept a).2 := by
  rw [readLane_turn, if_pos hm, ha, Option.bind_some]

theorem readInOrder_cons (hl : Lane.open index edge live = .ok lane)
    (hp : readLane R (Text.size input - g.cursor + 1) { gathering := g, lane } = some p) :
    readInOrder R input live ((edge, index) :: entries) g =
      if p.lane.counter.isValid then readInOrder R input live entries p.gathering else some (false, p.gathering) := by
  rw [readInOrder, hl]
  simp only [Except.toOption, Option.bind_eq_bind, Option.bind_some, hp]

theorem readFirst_cons (hl : Lane.open index edge live = .ok lane)
    (hp : readLane R (Text.size input - g.cursor + 1) { gathering := g, lane } = some p) :
    readFirst R input live ((edge, index) :: entries) g =
      if p.lane.counter.isValid then some (.chosen index, p.gathering)
      else if p.matched then some (.broken, p.gathering)
      else readFirst R input live entries p.gathering := by
  rw [readFirst, hl]
  simp only [Except.toOption, Option.bind_eq_bind, Option.bind_some, hp]

variable {lanes : List Lane} {a : Attempt}

/-- A lane that accepts no more is left out of a scan. -/
theorem scan_skip (hm : lane.counter.acceptsMore = false) :
    scan R (lane :: lanes) g = (scan R lanes g).map fun r => (r.1, lane :: r.2.1, r.2.2) := by
  rw [scan, hm]
  cases scan R lanes g <;> rfl

/-- A scan ends at the first attempt that consumes text. -/
theorem scan_consumed (hm : lane.counter.acceptsMore = true) (ha : R lane.edge.rule g.cursor lane.context = some a)
    (hs : (Progress.accept { gathering := g, lane } a).1 = .consumed) :
    scan R (lane :: lanes) g =
      some (true, (Progress.accept { gathering := g, lane } a).2.lane :: lanes,
        (Progress.accept { gathering := g, lane } a).2.gathering) := by
  rw [scan, hm, if_pos rfl, ha]
  simp [hs]

/-- A scan goes on behind an attempt that consumes no text. -/
theorem scan_passed (hm : lane.counter.acceptsMore = true) (ha : R lane.edge.rule g.cursor lane.context = some a)
    (hs : (Progress.accept { gathering := g, lane } a).1 ≠ .consumed) :
    scan R (lane :: lanes) g =
      (scan R lanes (Progress.accept { gathering := g, lane } a).2.gathering).map fun r =>
        (r.1, (Progress.accept { gathering := g, lane } a).2.lane :: r.2.1, r.2.2) := by
  rw [scan, hm, if_pos rfl, ha]
  simp only [Option.bind_eq_bind, Option.bind_some, if_neg hs]
  cases scan R lanes (Progress.accept { gathering := g, lane } a).2.gathering <;> rfl

theorem scanAll_succ {budget : Nat} {found : Bool} {lanes1 : List Lane} {g1 : Gathering}
    (hs : scan R lanes g = some (found, lanes1, g1)) :
    scanAll R (budget + 1) lanes g = if found then scanAll R budget lanes1 g1 else some (lanes1, g1) := by
  rw [scanAll, hs]
  rfl

/-- Reading an edge is done with where the edge accepts no more, and else takes in an attempt, with which it is done unless that
consumed text. -/
theorem readLane_cases {budget : Nat} {p q : Progress} (h : readLane R (budget + 1) p = some q) :
    (p.lane.counter.acceptsMore = false ∧ q = p) ∨
      ∃ a, p.lane.counter.acceptsMore = true ∧ R p.lane.edge.rule p.gathering.cursor p.lane.context = some a ∧
        (((p.accept a).1 = .consumed ∧ readLane R budget (p.accept a).2 = some q) ∨
          ((p.accept a).1 ≠ .consumed ∧ q = (p.accept a).2)) := by
  cases hm : p.lane.counter.acceptsMore with
  | false =>
    rw [readLane, hm] at h
    cases h
    exact Or.inl ⟨rfl, rfl⟩
  | true =>
    cases ha : R p.lane.edge.rule p.gathering.cursor p.lane.context with
    | none => simp [readLane, hm, ha] at h
    | some a =>
      rw [readLane_succ hm ha] at h
      refine Or.inr ⟨a, rfl, rfl, ?_⟩
      split at h
      · rename_i hc
        exact Or.inl ⟨hc, h⟩
      · rename_i hc
        exact Or.inr ⟨hc, (Option.some.inj h).symm⟩

/-- Reading edges in order opens the first and reads it, and goes on with the others where its count is satisfied. -/
theorem readInOrder_cases {entry : Edge × Nat} {g' : Gathering} {complete : Bool}
    (h : readInOrder R input live (entry :: entries) g = some (complete, g')) :
    ∃ lane p, Lane.open entry.2 entry.1 live = .ok lane ∧
      readLane R (Text.size input - g.cursor + 1) { gathering := g, lane } = some p ∧
      ((p.lane.counter.isValid = true ∧ readInOrder R input live entries p.gathering = some (complete, g')) ∨
        (p.lane.counter.isValid = false ∧ complete = false ∧ g' = p.gathering)) := by
  obtain ⟨lane, hl, h1⟩ := Option.bind_eq_some_iff.1 h
  obtain ⟨p, hp, _⟩ := Option.bind_eq_some_iff.1 h1
  have hopen := Except.toOption_eq_some_iff.1 hl
  rw [readInOrder_cons hopen hp] at h
  refine ⟨lane, p, hopen, hp, ?_⟩
  split at h
  · rename_i hv
    exact Or.inl ⟨hv, h⟩
  · rename_i hv
    cases h
    exact Or.inr ⟨Bool.not_eq_true _ ▸ hv, rfl, rfl⟩

/-- All lanes are opened where each of them is. -/
theorem openAll_eq_toOption (entries : List (Edge × Nat)) :
    openAll live entries = (entries.mapM fun entry => Lane.open entry.2 entry.1 live).toOption := by
  induction entries with
  | nil => rfl
  | cons entry entries ih =>
    rw [openAll, ih, List.mapM_cons]
    cases Lane.open entry.2 entry.1 live with
    | error fault => rfl
    | ok lane => cases entries.mapM fun entry => Lane.open entry.2 entry.1 live <;> rfl

theorem openAll_eq_some_iff {lanes : List Lane} :
    openAll live entries = some lanes ↔ (entries.mapM fun entry => Lane.open entry.2 entry.1 live) = .ok lanes := by
  rw [openAll_eq_toOption, Except.toOption_eq_some_iff]

/-- All lanes are opened by opening the first and the others. -/
theorem openAll_cases {entry : Edge × Nat} {lanes : List Lane} (h : openAll live (entry :: entries) = some lanes) :
    ∃ first rest, Lane.open entry.2 entry.1 live = .ok first ∧ openAll live entries = some rest ∧ lanes = first :: rest := by
  obtain ⟨first, hl, h⟩ := Option.bind_eq_some_iff.1 h
  obtain ⟨rest, hr, h⟩ := Option.bind_eq_some_iff.1 h
  exact ⟨first, rest, Except.toOption_eq_some_iff.1 hl, hr, (Option.some.inj h).symm⟩

/-- Reading the first edge that will do opens the first and reads it. It is chosen where its count is satisfied, nothing is where it
has matched otherwise, and else one of the others may be. -/
theorem readFirst_cases {entry : Edge × Nat} {g' : Gathering} {choice : Choice}
    (h : readFirst R input live (entry :: entries) g = some (choice, g')) :
    ∃ lane p, Lane.open entry.2 entry.1 live = .ok lane ∧
      readLane R (Text.size input - g.cursor + 1) { gathering := g, lane } = some p ∧
      ((p.lane.counter.isValid = true ∧ choice = .chosen entry.2 ∧ g' = p.gathering) ∨
        (p.lane.counter.isValid = false ∧ p.matched = true ∧ choice = .broken ∧ g' = p.gathering) ∨
        (p.lane.counter.isValid = false ∧ p.matched = false ∧
          readFirst R input live entries p.gathering = some (choice, g'))) := by
  obtain ⟨lane, hl, h1⟩ := Option.bind_eq_some_iff.1 h
  obtain ⟨p, hp, _⟩ := Option.bind_eq_some_iff.1 h1
  have hopen := Except.toOption_eq_some_iff.1 hl
  rw [readFirst_cons hopen hp] at h
  refine ⟨lane, p, hopen, hp, ?_⟩
  split at h
  · rename_i hv
    cases h
    exact Or.inl ⟨hv, rfl, rfl⟩
  · rename_i hv
    have hinvalid : p.lane.counter.isValid = false := Bool.not_eq_true _ ▸ hv
    split at h
    · rename_i hm
      cases h
      exact Or.inr (Or.inl ⟨hinvalid, hm, rfl, rfl⟩)
    · rename_i hm
      exact Or.inr (Or.inr ⟨hinvalid, Bool.not_eq_true _ ▸ hm, h⟩)

/-- A scan passes over an edge that accepts no more, and else takes in an attempt of it, with which it ends if that consumed
text. -/
theorem scan_cases {lane : Lane} {lanes lanes' : List Lane} {g g' : Gathering} {found : Bool}
    (h : scan R (lane :: lanes) g = some (found, lanes', g')) :
    (lane.counter.acceptsMore = false ∧ ∃ rest, scan R lanes g = some (found, rest, g') ∧ lanes' = lane :: rest) ∨
      ∃ (p : Progress) (a : Attempt), p = { gathering := g, lane } ∧ lane.counter.acceptsMore = true ∧
        R lane.edge.rule g.cursor lane.context = some a ∧
        (((p.accept a).1 = .consumed ∧ found = true ∧ lanes' = (p.accept a).2.lane :: lanes ∧
            g' = (p.accept a).2.gathering) ∨
          ((p.accept a).1 ≠ .consumed ∧ ∃ rest, scan R lanes (p.accept a).2.gathering = some (found, rest, g') ∧
            lanes' = (p.accept a).2.lane :: rest)) := by
  cases hm : lane.counter.acceptsMore with
  | false =>
    rw [scan_skip hm] at h
    obtain ⟨⟨_, rest, _⟩, h1, h2⟩ := Option.map_eq_some_iff.1 h
    cases h2
    exact Or.inl ⟨rfl, rest, h1, rfl⟩
  | true =>
    cases ha : R lane.edge.rule g.cursor lane.context with
    | none => simp [scan, hm, ha] at h
    | some a =>
      refine Or.inr ⟨_, a, rfl, rfl, rfl, ?_⟩
      by_cases hc : (Progress.accept { gathering := g, lane } a).1 = .consumed
      · rw [scan_consumed hm ha hc] at h
        cases h
        exact Or.inl ⟨hc, rfl, rfl, rfl⟩
      · rw [scan_passed hm ha hc] at h
        obtain ⟨⟨_, rest, _⟩, h1, h2⟩ := Option.map_eq_some_iff.1 h
        cases h2
        exact Or.inr ⟨hc, rest, h1, rfl⟩

/-- A run of scans ends with the first that finds nothing. -/
theorem scanAll_cases {budget : Nat} {lanes lanes' : List Lane} {g g' : Gathering}
    (h : scanAll R (budget + 1) lanes g = some (lanes', g')) :
    ∃ found lanes1 g1, scan R lanes g = some (found, lanes1, g1) ∧
      ((found = true ∧ scanAll R budget lanes1 g1 = some (lanes', g')) ∨
        (found = false ∧ lanes' = lanes1 ∧ g' = g1)) := by
  cases hs : scan R lanes g with
  | none => simp [scanAll, hs] at h
  | some r =>
    obtain ⟨found, lanes1, g1⟩ := r
    rw [scanAll_succ hs] at h
    refine ⟨found, lanes1, g1, rfl, ?_⟩
    cases found with
    | true => exact Or.inl ⟨rfl, h⟩
    | false =>
      cases h
      exact Or.inr ⟨rfl, rfl, rfl⟩

end

/-- A value looks where its body does. -/
theorem interest_valueOf (grammar : Grammar) (rule : RuleId) (name : String) (nonEmpty : Bool) (body : Attempt) :
    (valueOf grammar rule name nonEmpty body).interest = body.interest := by
  rw [valueOf]
  cases body.statement with
  | none => rfl
  | some s => cases hc : nonEmpty && (body.keptBelow grammar).isEmpty <;> simp only [hc] <;> rfl

/-- What a value comes to does not depend on identities and places. -/
theorem valueOf_recast (m : Recasting) (hm : m.identity noId = noId) (grammar : Grammar) (rule : RuleId) (name : String)
    (nonEmpty : Bool) (body : Attempt) :
    (valueOf grammar rule name nonEmpty body).recast m = valueOf grammar rule name nonEmpty (body.recast m) := by
  rw [valueOf, valueOf, Attempt.keptBelow_recast, Attempt.statement_recast]
  cases body.statement with
  | none => simp
  | some s =>
    simp only [Option.map_some]
    cases nonEmpty && (body.keptBelow grammar).isEmpty with
    | true => simp
    | false => simp [hm]

/-! ## Invocations and rules -/

/-- What an attempt of the target comes to for the rule that invokes it. -/
def wrap (id : NodeId) (rule : RuleId) (call : Invocation) (attempt : Attempt) : Attempt :=
  match attempt.statement with
  | none => .failure rule attempt.interest
  | some statement =>
    .success (.group id statement.region [shown call.shownAs statement]) (.around rule attempt.derivation)

/-- A rule that invokes another has read something only where its target has. -/
theorem wrap_eq_success {id : NodeId} {rule : RuleId} {call : Invocation} {a : Attempt} {s : Statement}
    (h : (wrap id rule call a).statement = some s) :
    ∃ t, a.statement = some t ∧ s = .group id t.region [shown call.shownAs t] ∧
      wrap id rule call a = .success s (.around rule a.derivation) := by
  cases ha : a.statement with
  | none =>
    rw [wrap, ha] at h
    cases h
  | some t =>
    rw [wrap, ha] at h ⊢
    cases h
    exact ⟨t, rfl, rfl, rfl⟩

/-- The engine wraps nothing where the target was not read. -/
theorem wrap_of_none {a : Attempt} (h : a.statement = none) (rule : RuleId) (call : Invocation) :
    Engine.wrap rule call a = pure (wrap noId rule call a) := by
  rw [Engine.wrap, wrap, h]

/-- The engine wraps what the target has read under a new identity. -/
theorem wrap_of_some {a : Attempt} {s : Statement} (h : a.statement = some s) (rule : RuleId) (call : Invocation) :
    Engine.wrap rule call a = Run.freshId >>= fun id => pure (wrap id rule call a) := by
  have hregion : s.region = (shown call.shownAs s).region := (region_shown _ _).symm
  simp only [Engine.wrap, wrap, h, hregion]
  rfl

/-- An invocation looks where its target does. -/
theorem interest_wrap (id : NodeId) (rule : RuleId) (call : Invocation) (a : Attempt) :
    (wrap id rule call a).interest = a.interest := by
  obtain ⟨statement, d⟩ := a
  cases statement <;> rfl

/-- An invocation shows its target, under whatever name that was shown before. -/
theorem wrap_shownAttempt (id : NodeId) (rule : RuleId) (call : Invocation) (a : Attempt) :
    wrap id rule call (shownAttempt call.shownAs a) = wrap id rule call a := by
  obtain ⟨statement, d⟩ := a
  cases statement with
  | none => rfl
  | some s =>
    simp [wrap, shownAttempt, shown_shown, region_shown]

@[simp] theorem wrap_recast (m : Recasting) (id : NodeId) (rule : RuleId) (call : Invocation) (a : Attempt) :
    (wrap id rule call a).recast m = wrap (m.identity id) rule call (a.recast m) := by
  obtain ⟨statement, d⟩ := a
  cases statement with
  | none => simp [wrap, Attempt.recast, Attempt.failure, Attempt.interest]
  | some s => simp [wrap, Attempt.recast, Attempt.success]

/-- The reading of a rule, given the readings of others. -/
def body (R : Oracle) (grammar : Grammar) (input : String) (id : RuleId) (offset : Nat) (context : Context) :
    Option Attempt := do
  let rule ← (grammar.getRule id).toOption
  match rule.body with
  | .consume _ pattern => consume input id pattern offset context
  | .container kind edges => container R grammar input id rule kind edges offset context
  | .invoke call =>
    let (target, inside) ← (resolveCall grammar call context).toOption
    let attempt ← R target offset inside
    some (wrap noId id call attempt)

/-- The readings inside a number of levels. -/
def within (grammar : Grammar) (input : String) : Nat → Oracle
  | 0 => fun _ _ _ => none
  | levels + 1 => body (within grammar input levels) grammar input

end Reading

end Graft
