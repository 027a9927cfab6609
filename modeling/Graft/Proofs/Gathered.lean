import Graft.Proofs.Reading

/-!
# What a rule may come to

`Body` tells, one step deep, what the body of a rule may come to when the attempts it makes satisfy some property: what a
consume rule matches, what can be gathered from such attempts, and what an invocation makes of one. A property that passes
from the attempts of a rule to the rule itself holds of every reading.
-/

namespace Graft

open Engine

variable [Pattern.Compiler]

/-- A property of attempts of a rule at an offset in a context. -/
abbrev Claim := RuleId → Nat → Context → Attempt → Prop

/-- A lane reads one of some edges, below a live context. -/
structure Engine.Lane.Opens (edges : List Edge) (live : Context) (lane : Lane) : Prop where
  edge : edges[lane.index]? = some lane.edge
  context : lane.context = lane.edge.context live

/-- What may be gathered from an offset on by attempts of some edges that satisfy `P`. -/
inductive Gathered (P : Claim) (edges : List Edge) (live : Context) (offset : Nat) : Gathering → Prop where
  | begin : Gathered P edges live offset (.begin offset)
  | accept {p : Progress} {a : Attempt} : Gathered P edges live offset p.gathering → p.lane.Opens edges live →
      P p.lane.edge.rule p.gathering.cursor p.lane.context a → Gathered P edges live offset (p.accept a).2.gathering

/-- What the body of a rule may come to when the attempts that it makes satisfy `P`. -/
inductive Body (grammar : Grammar) (input : String) (P : Claim) (rule : RuleId) (offset : Nat) (context : Context) :
    Attempt → Prop where
  | unmatched {kind : ConsumeKind} {binding : Binding} {pattern : Pattern}
      (rules : grammar.body? rule = some (.consume kind binding)) (boundary : Text.isBoundary input offset = true) :
      Body grammar input P rule offset context
        (.failure rule ⟨offset, (pattern.matchFront ((Text.bytes input).drop offset)).examined⟩)
  | matched {kind : ConsumeKind} {binding : Binding} {pattern : Pattern} {length : Nat} {text : String} (id : NodeId)
      (rules : grammar.body? rule = some (.consume kind binding))
      (found : (pattern.matchFront ((Text.bytes input).drop offset)).length = some length)
      (cut : Text.slice? input offset (offset + length) = some text) :
      Body grammar input P rule offset context
        (.success (.leaf id ⟨offset, Text.size text⟩ text)
          (.leaf rule ⟨offset, (pattern.matchFront ((Text.bytes input).drop offset)).examined⟩))
  | full {kind : ContainerKind} {edges : List Edge} {g : Gathering} (id : NodeId) (chosen : Option Nat)
      (rules : grammar.body? rule = some (.container kind edges)) (plain : ∀ nonEmpty, kind ≠ .value nonEmpty)
      (gathered : Gathered P edges context offset g) :
      Body grammar input P rule offset context (Reading.succeed id g rule chosen)
  | short {kind : ContainerKind} {edges : List Edge} {g : Gathering}
      (rules : grammar.body? rule = some (.container kind edges)) (gathered : Gathered P edges context offset g) :
      Body grammar input P rule offset context (g.fail rule)
  | valued {nonEmpty : Bool} {edges : List Edge} {g : Gathering} (id inner : NodeId) (name text : String)
      (rules : grammar.body? rule = some (.container (.value nonEmpty) edges))
      (gathered : Gathered P edges context offset g) :
      Body grammar input P rule offset context
        (.success (.value id (g.statement inner).region name text (g.statement inner))
          (.around rule (g.derivation rule none)))
  | called {call : Invocation} {target : RuleId} {inside : Context} {a : Attempt} (id : NodeId)
      (rules : grammar.body? rule = some (.invoke call)) (resolved : resolveCall grammar call context = .ok (target, inside))
      (attempted : P target offset inside a) : Body grammar input P rule offset context (Reading.wrap id rule call a)

/-- A property passes from the attempts that a rule makes to the rule itself. -/
def Claim.Closed (grammar : Grammar) (input : String) (P : Claim) : Prop :=
  ∀ rule offset context a, Body grammar input P rule offset context a → P rule offset context a

/-- A lane begins at its edge, having counted nothing of what its occurrence means there. -/
theorem Engine.Lane.eq_of_open {live : Context} {index : Nat} {edge : Edge} {lane : Lane}
    (h : Lane.open index edge live = .ok lane) :
    ∃ occurrence, (edge.context live).resolveOccurrence edge.occurrence = .ok occurrence ∧
      lane = ⟨index, edge, edge.context live, .start occurrence⟩ := by
  rw [Lane.open] at h
  cases hr : (edge.context live).resolveOccurrence edge.occurrence with
  | error f => rw [hr] at h; cases h
  | ok occurrence =>
    rw [hr] at h
    cases h
    exact ⟨occurrence, rfl, rfl⟩

/-- A lane that was opened reads its edge in the context that it gives. -/
theorem Engine.Lane.opens_of_open {edges : List Edge} {live : Context} {index : Nat} {edge : Edge} {lane : Lane}
    (h : edges[index]? = some edge) (ho : Lane.open index edge live = .ok lane) : lane.Opens edges live := by
  obtain ⟨occurrence, _, rfl⟩ := Lane.eq_of_open ho
  exact ⟨h, rfl⟩

/-- Taking in an attempt leaves a lane at its edge. -/
theorem Engine.Lane.Opens.accept {edges : List Edge} {live : Context} {p : Progress} (h : p.lane.Opens edges live)
    (a : Attempt) : (p.accept a).2.lane.Opens edges live := by
  obtain ⟨h1, h2, h3⟩ := p.lane_accept a
  exact ⟨by rw [h1, h2]; exact h.edge, by rw [h2, h3]; exact h.context⟩

/-! ## Readings -/

namespace Reading

variable {R : Oracle} {P : Claim} {edges : List Edge} {live : Context} {offset : Nat} {input : String}

/-- What a reading of one edge comes to is gathered. -/
theorem readLane_gathered (hR : ∀ r o c a, R r o c = some a → P r o c a) {budget : Nat} {p p' : Progress}
    (h : readLane R budget p = some p') (hg : Gathered P edges live offset p.gathering)
    (hl : p.lane.Opens edges live) : Gathered P edges live offset p'.gathering := by
  induction budget generalizing p with
  | zero => cases h
  | succ budget ih =>
    obtain ⟨_, rfl⟩ | ⟨a, _, ha, hrest⟩ := readLane_cases h
    · exact hg
    · have hg' := Gathered.accept hg hl (hR _ _ _ _ ha)
      obtain ⟨_, hread⟩ | ⟨_, rfl⟩ := hrest
      · exact ih hread hg' (hl.accept a)
      · exact hg'

/-- What a reading of edges in order comes to is gathered. -/
theorem readInOrder_gathered (hR : ∀ r o c a, R r o c = some a → P r o c a) {entries : List (Edge × Nat)}
    {g g' : Gathering} {complete : Bool} (he : ∀ entry ∈ entries, edges[entry.2]? = some entry.1)
    (h : readInOrder R input live entries g = some (complete, g')) (hg : Gathered P edges live offset g) :
    Gathered P edges live offset g' := by
  induction entries generalizing g with
  | nil =>
    cases h
    exact hg
  | cons entry entries ih =>
    obtain ⟨hedge, hedges⟩ := List.forall_mem_cons.1 he
    obtain ⟨lane, p, hl, hp, hrest⟩ := readInOrder_cases h
    have hg' := readLane_gathered hR hp hg (Lane.opens_of_open hedge hl)
    obtain ⟨_, h⟩ | ⟨_, _, rfl⟩ := hrest
    · exact ih hedges h hg'
    · exact hg'

/-- What a reading of the edges of a choice comes to is gathered. -/
theorem readFirst_gathered (hR : ∀ r o c a, R r o c = some a → P r o c a) {entries : List (Edge × Nat)}
    {g g' : Gathering} {choice : Choice} (he : ∀ entry ∈ entries, edges[entry.2]? = some entry.1)
    (h : readFirst R input live entries g = some (choice, g')) (hg : Gathered P edges live offset g) :
    Gathered P edges live offset g' := by
  induction entries generalizing g with
  | nil =>
    cases h
    exact hg
  | cons entry entries ih =>
    obtain ⟨hedge, hedges⟩ := List.forall_mem_cons.1 he
    obtain ⟨lane, p, hl, hp, hrest⟩ := readFirst_cases h
    have hg' := readLane_gathered hR hp hg (Lane.opens_of_open hedge hl)
    obtain ⟨_, _, rfl⟩ | ⟨_, _, _, rfl⟩ | ⟨_, _, h⟩ := hrest
    · exact hg'
    · exact hg'
    · exact ih hedges h hg'

/-- Opened lanes each read an edge of the container. -/
theorem openAll_opens {entries : List (Edge × Nat)} {lanes : List Lane}
    (he : ∀ entry ∈ entries, edges[entry.2]? = some entry.1) (h : openAll live entries = some lanes) :
    ∀ lane ∈ lanes, lane.Opens edges live := by
  induction entries generalizing lanes with
  | nil =>
    cases h
    intro lane hm
    cases hm
  | cons entry entries ih =>
    obtain ⟨hedge, hedges⟩ := List.forall_mem_cons.1 he
    obtain ⟨lane, rest, hl, hr, rfl⟩ := openAll_cases h
    exact List.forall_mem_cons.2 ⟨Lane.opens_of_open hedge hl, ih hedges hr⟩

/-- What a reading of one pass over the open edges comes to is gathered, and leaves them open for more. -/
theorem scan_gathered (hR : ∀ r o c a, R r o c = some a → P r o c a) {lanes lanes' : List Lane} {g g' : Gathering}
    {found : Bool} (h : scan R lanes g = some (found, lanes', g')) (hg : Gathered P edges live offset g)
    (hl : ∀ lane ∈ lanes, lane.Opens edges live) :
    Gathered P edges live offset g' ∧ ∀ lane ∈ lanes', lane.Opens edges live := by
  induction lanes generalizing g found lanes' with
  | nil =>
    cases h
    exact ⟨hg, hl⟩
  | cons lane lanes ih =>
    obtain ⟨hlane, hlanes⟩ := List.forall_mem_cons.1 hl
    obtain ⟨_, rest, hs, rfl⟩ | ⟨p, a, rfl, _, ha, hrest⟩ := scan_cases h
    · obtain ⟨h1, h2⟩ := ih hs hg hlanes
      exact ⟨h1, List.forall_mem_cons.2 ⟨hlane, h2⟩⟩
    · have hg' := Gathered.accept (p := { gathering := g, lane }) hg hlane (hR _ _ _ _ ha)
      have hlane' := Lane.Opens.accept (p := { gathering := g, lane }) hlane a
      obtain ⟨_, _, rfl, rfl⟩ | ⟨_, rest, hs, rfl⟩ := hrest
      · exact ⟨hg', List.forall_mem_cons.2 ⟨hlane', hlanes⟩⟩
      · obtain ⟨h1, h2⟩ := ih hs hg' hlanes
        exact ⟨h1, List.forall_mem_cons.2 ⟨hlane', h2⟩⟩

/-- What a reading of all passes over the open edges comes to is gathered. -/
theorem scanAll_gathered (hR : ∀ r o c a, R r o c = some a → P r o c a) {budget : Nat} {lanes lanes' : List Lane}
    {g g' : Gathering} (h : scanAll R budget lanes g = some (lanes', g')) (hg : Gathered P edges live offset g)
    (hl : ∀ lane ∈ lanes, lane.Opens edges live) : Gathered P edges live offset g' := by
  induction budget generalizing lanes g with
  | zero => cases h
  | succ budget ih =>
    obtain ⟨found, lanes1, g1, hs, hrest⟩ := scanAll_cases h
    obtain ⟨h1, h2⟩ := scan_gathered hR hs hg hl
    obtain ⟨_, hscan⟩ | ⟨_, _, rfl⟩ := hrest
    · exact ih hscan h1 h2
    · exact h1

/-- Numbered edges stand at their numbers. -/
theorem getElem?_of_mem_zipIdx {edges : List Edge} : ∀ entry ∈ edges.zipIdx, edges[entry.2]? = some entry.1 :=
  fun _ hm => List.mem_zipIdx_iff_getElem?.1 hm

variable {grammar : Grammar} {rule : RuleId} {context : Context} {a : Attempt}

/-- What can be gathered by the readings of other rules is what a container in order comes to. -/
theorem inOrder_gathered (hR : ∀ r o c a, R r o c = some a → P r o c a)
    (h : inOrder R input rule edges offset live = some a) :
    ∃ g, Gathered P edges live offset g ∧ (a = succeed noId g rule none ∨ a = g.fail rule) := by
  obtain ⟨⟨complete, g⟩, hr, h⟩ := Option.bind_eq_some_iff.1 h
  refine ⟨g, readInOrder_gathered hR getElem?_of_mem_zipIdx hr .begin, ?_⟩
  cases complete with
  | true => exact Or.inl (Option.some.inj h).symm
  | false => exact Or.inr (Option.some.inj h).symm

/-- A reading of a container comes to what its rule may come to. -/
theorem body_of_container (hR : ∀ r o c a, R r o c = some a → P r o c a) {known : Rule} {kind : ContainerKind}
    (hb : grammar.body? rule = some (.container kind edges))
    (h : container R grammar input rule known kind edges offset live = some a) :
    Body grammar input P rule offset live a := by
  cases kind with
  | inOrder =>
    obtain ⟨g, hg, rfl | rfl⟩ := inOrder_gathered hR h
    · exact .full noId none hb (by simp) hg
    · exact .short hb hg
  | anyOrder =>
    obtain ⟨lanes, hl, h⟩ := Option.bind_eq_some_iff.1 h
    obtain ⟨⟨lanes', g⟩, hs, h⟩ := Option.bind_eq_some_iff.1 h
    have hg := scanAll_gathered hR hs (.begin (P := P)) (openAll_opens getElem?_of_mem_zipIdx hl)
    simp only at h
    split at h
    · cases h
      exact .full noId none hb (by simp) hg
    · cases h
      exact .short hb hg
  | firstOrder =>
    obtain ⟨⟨choice, g⟩, hr, h⟩ := Option.bind_eq_some_iff.1 h
    have hg := readFirst_gathered hR getElem?_of_mem_zipIdx hr (.begin (P := P))
    cases choice with
    | chosen index =>
      cases h
      exact .full noId (some index) hb (by simp) hg
    | broken =>
      cases h
      exact .short hb hg
    | none =>
      cases h
      exact .short hb hg
  | value nonEmpty =>
    obtain ⟨inner, hi, rfl⟩ := Option.map_eq_some_iff.1 h
    obtain ⟨g, hg, rfl | rfl⟩ := inOrder_gathered hR hi
    · rw [valueOf]
      cases hc : nonEmpty && ((succeed noId g rule none).keptBelow grammar).isEmpty with
      | true =>
        simp only [hc, if_true]
        exact .short hb hg
      | false =>
        simp only [hc, Bool.false_eq_true, if_false]
        exact .valued noId noId _ _ hb hg
    · exact .short hb hg

/-- The reading of a rule is something that its body may come to. -/
theorem body_of_body (hR : ∀ r o c a, R r o c = some a → P r o c a)
    (h : body R grammar input rule offset context = some a) : Body grammar input P rule offset context a := by
  obtain ⟨known, hk, h⟩ := Option.bind_eq_some_iff.1 h
  have hb := Grammar.body?_of_getRule (Except.toOption_eq_some_iff.1 hk)
  cases hbody : known.body with
  | consume kind binding =>
    rw [hbody] at hb h
    obtain ⟨pattern, _, h⟩ := Option.bind_eq_some_iff.1 h
    split at h
    · rename_i hbound
      rw [matched] at h
      cases hm : (pattern.matchFront ((Text.bytes input).drop offset)).length with
      | none =>
        simp only [hm] at h
        cases h
        exact .unmatched hb hbound
      | some length =>
        simp only [hm] at h
        obtain ⟨text, ht, rfl⟩ := Option.map_eq_some_iff.1 h
        exact .matched noId hb hm ht
    · cases h
  | container kind edges =>
    rw [hbody] at hb h
    exact body_of_container hR hb h
  | invoke call =>
    rw [hbody] at hb h
    obtain ⟨⟨target, inside⟩, hr, h⟩ := Option.bind_eq_some_iff.1 h
    obtain ⟨inner, hi, h⟩ := Option.bind_eq_some_iff.1 h
    cases h
    exact .called noId hb (Except.toOption_eq_some_iff.1 hr) (hR _ _ _ _ hi)

/-- A property that passes from attempts to rules holds of every reading. -/
theorem within_of_closed (hP : Claim.Closed grammar input P) (levels : Nat) :
    ∀ r o c a, within grammar input levels r o c = some a → P r o c a := by
  induction levels with
  | zero =>
    intro r o c a h
    cases h
  | succ levels ih =>
    intro r o c a h
    exact hP _ _ _ _ (body_of_body ih h)

end Reading

end Graft
