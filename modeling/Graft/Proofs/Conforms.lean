import Graft.Proofs.Whole

/-!
# Trees conform to their grammar

A tree has, node for node, the shape that the rules of its grammar give it: a piece of text for a consume rule, a group of one for
an invocation, a value over a group for a value, and for another container a group whose children were read by its edges, each
edge as often as its occurrence lets it. This is so from the first parse on and through all repairs, where nodes are kept that an
earlier call has read.
-/

namespace Graft

open Engine

section

variable [Pattern.Compiler]

/-- A statement and its derivation conform to a rule in a context. What a child was read by is told by the edge that it is
tagged with, or by the call that its node makes. -/
inductive Conforms (grammar : Grammar) : RuleId → Context → Statement → Derivation → Prop where
  | leaf {rule : RuleId} {context : Context} {kind : ConsumeKind} {pattern : Binding} (id : NodeId) (region interest : Region)
      (text : String) (rules : grammar.body? rule = some (.consume kind pattern)) :
      Conforms grammar rule context (.leaf id region text) (.leaf rule interest)
  | group {rule : RuleId} {context : Context} {kind : ContainerKind} {edges : List Edge} (id : NodeId)
      (region interest : Region) (children : List Taken) (chosen : Option Nat)
      (rules : grammar.body? rule = some (.container kind edges)) (plain : ∀ nonEmpty, kind ≠ .value nonEmpty)
      (arranged : kind.Arranges edges context (children.map (·.edge)) chosen)
      (known : ∀ child ∈ children, ∃ edge, edges[child.edge]? = some edge)
      (below : ∀ child ∈ children, ∀ edge, edges[child.edge]? = some edge →
        Conforms grammar edge.rule (edge.context context) child.statement child.derivation) :
      Conforms grammar rule context (.group id region (children.map (·.statement)))
        (.group rule interest (children.map (·.derivation)) (children.map (·.edge)) chosen)
  | value {rule : RuleId} {context : Context} {owner : Rule} {nonEmpty : Bool} {edges : List Edge} (id inner : NodeId)
      (region within interest seen : Region) (text : String) (children : List Taken)
      (rules : grammar.rule? rule = some owner) (body : owner.body = .container (.value nonEmpty) edges)
      (arranged : (ContainerKind.value nonEmpty).Arranges edges context (children.map (·.edge)) none)
      (known : ∀ child ∈ children, ∃ edge, edges[child.edge]? = some edge)
      (below : ∀ child ∈ children, ∀ edge, edges[child.edge]? = some edge →
        Conforms grammar edge.rule (edge.context context) child.statement child.derivation) :
      Conforms grammar rule context
        (.value id region (owner.name.getD "") text (.group inner within (children.map (·.statement))))
        (.wrap rule interest (.group rule seen (children.map (·.derivation)) (children.map (·.edge)) none))
  | call {rule target : RuleId} {context inside : Context} {call : Invocation} {body : Statement} {inner : Derivation}
      (id : NodeId) (region interest : Region) (rules : grammar.body? rule = some (.invoke call))
      (resolved : resolveCall grammar call context = .ok (target, inside))
      (below : Conforms grammar target inside body inner) :
      Conforms grammar rule context (.group id region [Reading.shown call.shownAs body]) (.wrap rule interest inner)

/-- What an attempt has read conforms to its rule. -/
def Conforming (grammar : Grammar) : Claim := fun rule _ context a =>
  ∀ s, a.statement = some s → Conforms grammar rule context s a.derivation

/-! ## Attempts -/

/-- Attempts that conform are gathered to children that conform to the edges that they are tagged with. -/
theorem Gathered.conforming {grammar : Grammar} {edges : List Edge} {live : Context} {offset : Nat} {g : Gathering}
    (h : Gathered (Conforming grammar) edges live offset g) :
    ∀ child ∈ g.children, ∃ edge, edges[child.edge]? = some edge ∧
      Conforms grammar edge.rule (edge.context live) child.statement child.derivation := by
  induction h with
  | begin => simp [Gathering.begin]
  | @accept p a _ hl ha ih =>
    intro child hm
    rcases Progress.mem_children_accept hm with hm | ⟨s, hs, rfl⟩
    · exact ih child hm
    · have hconforms := ha s hs
      rw [hl.context] at hconforms
      exact ⟨p.lane.edge, hl.edge, hconforms⟩

/-- The edge that a gathered child is tagged with is known, and the child conforms to it. -/
theorem Gathered.known {grammar : Grammar} {edges : List Edge} {live : Context} {offset : Nat} {g : Gathering}
    (h : Gathered (Conforming grammar) edges live offset g) :
    (∀ child ∈ g.children.toList, ∃ edge, edges[child.edge]? = some edge) ∧
      ∀ child ∈ g.children.toList, ∀ edge, edges[child.edge]? = some edge →
        Conforms grammar edge.rule (edge.context live) child.statement child.derivation := by
  have hbelow := h.conforming
  refine ⟨fun child hm => (hbelow child (Array.mem_toList_iff.1 hm)).imp fun _ h => h.1, ?_⟩
  intro child hm edge hedge
  obtain ⟨edge', h1, h2⟩ := hbelow child (Array.mem_toList_iff.1 hm)
  obtain rfl : edge' = edge := Option.some.inj (h1.symm.trans hedge)
  exact h2

/-- Attempts that conform make up rules that do, where their children are arranged. -/
theorem Conforming.passes {grammar : Grammar} {input : String} : (Conforming grammar).Passes grammar input := by
  intro rule offset context a hb harranged s hs
  cases hb with
  | unmatched => cases hs
  | matched id rules =>
    cases hs
    exact .leaf id _ _ _ rules
  | full id chosen rules plain gathered =>
    cases hs
    obtain ⟨known, below⟩ := gathered.known
    exact .group id _ _ _ chosen rules plain (harranged.arranges _ _ _ rfl rules) known below
  | short => cases hs
  | valued id inner name text rules gathered =>
    cases hs
    obtain ⟨known, below⟩ := gathered.known
    have harranges := harranged.arranges _ _ _ rfl rules
    obtain ⟨owner, howner, hbody⟩ := Option.map_eq_some_iff.1 rules
    obtain rfl : name = owner.name.getD "" := Option.some.inj (harranged.named _ owner _ _ rfl howner hbody)
    exact .value id inner _ _ _ _ text _ howner hbody harranges known below
  | @called call target inside a id rules resolved attempted =>
    obtain ⟨t, ha, rfl, hwrap⟩ := Reading.wrap_eq_success hs
    rw [hwrap]
    exact .call id _ _ rules resolved (attempted t ha)

/-! ## Kept nodes -/

namespace Conforms

variable {grammar : Grammar} {rule : RuleId} {context : Context} {s : Statement} {d : Derivation}

/-- Each node has a derivation of its shape. -/
theorem paired (h : Conforms grammar rule context s d) : Paired s d := by
  induction h with
  | leaf => exact .leaf
  | group id region interest children chosen _ _ _ known _ ih =>
    refine .group children fun child hm => ?_
    obtain ⟨edge, hedge⟩ := known child hm
    exact ih child hm edge hedge
  | value id inner region within interest seen text children _ _ _ known _ ih =>
    refine .value (.group children fun child hm => ?_)
    obtain ⟨edge, hedge⟩ := known child hm
    exact ih child hm edge hedge
  | @call _ _ _ _ call _ _ _ _ _ _ _ _ ih => exact .call (ih.shown call.shownAs)

/-- Where the nodes lie does not matter. -/
theorem placed (h : Conforms grammar rule context s d) (v : Region → Region) :
    Conforms grammar rule context (s.placed v) (d.placed v) := by
  have hbelow : ∀ {edges : List Edge} {context : Context} {children : List Taken},
      (∀ child ∈ children, ∀ edge, edges[child.edge]? = some edge →
        Conforms grammar edge.rule (edge.context context) (child.statement.placed v) (child.derivation.placed v)) →
      ∀ child ∈ children.map (Taken.placed v), ∀ edge, edges[child.edge]? = some edge →
        Conforms grammar edge.rule (edge.context context) child.statement child.derivation := by
    intro edges context children ih child hm edge hedge
    obtain ⟨origin, ho, rfl⟩ := List.mem_map.1 hm
    exact ih origin ho edge hedge
  have hknown : ∀ {edges : List Edge} {children : List Taken}, (∀ child ∈ children, ∃ edge, edges[child.edge]? = some edge) →
      ∀ child ∈ children.map (Taken.placed v), ∃ edge, edges[child.edge]? = some edge := by
    intro edges children known child hm
    obtain ⟨origin, ho, rfl⟩ := List.mem_map.1 hm
    exact known origin ho
  induction h with
  | leaf id region interest text rules =>
    rw [Statement.placed_leaf, Derivation.placed_leaf]
    exact .leaf id _ _ text rules
  | group id region interest children chosen rules plain arranged known _ ih =>
    have hgroup := @group _ grammar _ _ _ _ id (v region) (v interest) (children.map (Taken.placed v)) chosen rules plain
      (by simpa [Function.comp_def, Taken.placed] using arranged) (hknown known) (hbelow ih)
    simpa [Function.comp_def, Taken.placed] using hgroup
  | value id inner region within interest seen text children rules body arranged known _ ih =>
    have hvalue := @value _ grammar _ _ _ _ _ id inner (v region) (v within) (v interest) (v seen) text
      (children.map (Taken.placed v)) rules body (by simpa [Function.comp_def, Taken.placed] using arranged) (hknown known)
      (hbelow ih)
    simpa [Function.comp_def, Taken.placed] using hvalue
  | call id region interest rules resolved _ ih =>
    simp only [Statement.placed_group, Derivation.placed_wrap, List.map_cons, List.map_nil, Reading.shown_placed]
    exact .call id _ _ rules resolved ih

/-- A node that conforms may be kept wherever it is revisited, and so may those below it. -/
theorem revisited (h : Conforms grammar rule context s d) (setting : Setting) (shownAs : Option String) :
    Revisited grammar (Keeping (Conforming grammar) setting) shownAs rule context (Reading.shown shownAs s) d := by
  have hhere : ∀ {rule : RuleId} {context : Context} {s : Statement} {d : Derivation} (shownAs : Option String),
      Conforms grammar rule context s d →
      Keeping (Conforming grammar) setting shownAs rule context (Reading.shown shownAs s) d := by
    intro rule context s d shownAs h _
    refine ⟨.success s d, ?_, ?_⟩
    · intro t ht
      cases ht
      exact h
    · simp only [Reading.shownAttempt, Attempt.success, Option.map_some, Reading.shown_shown]
  induction h generalizing shownAs with
  | leaf id region interest text rules =>
    refine .node (hhere shownAs (.leaf id region interest text rules)) ?_ ?_
    · intro kind edges hr
      rw [rules] at hr
      cases hr
    · intro call hr
      rw [rules] at hr
      cases hr
  | @group rule context kind edges id region interest children chosen rules plain arranged known below ih =>
    refine .node (hhere shownAs (.group id region interest children chosen rules plain arranged known below)) ?_ ?_
    · intro kind' edges' hr index edge hedge e he
      rw [rules] at hr
      cases hr
      have hshown : Reading.shown shownAs (.group id region (children.map (·.statement))) =
          .group id region (children.map (·.statement)) := by
        cases shownAs <;> rfl
      rw [hshown, earliersOf_plain plain] at he
      obtain ⟨child, hc, rfl, rfl⟩ := mem_ofEdge_group he
      exact ih child hc edge hedge none
    · intro call hr
      rw [rules] at hr
      cases hr
  | @value rule context owner nonEmpty edges id inner region within interest seen text children rules body arranged known
      below ih =>
    have hbody : grammar.body? rule = some (.container (.value nonEmpty) edges) := by
      rw [Grammar.body?, rules, Option.map_some, body]
    refine .node (hhere shownAs (.value id inner region within interest seen text children rules body arranged known below))
      ?_ ?_
    · intro kind' edges' hr index edge hedge e he
      rw [hbody] at hr
      cases hr
      -- the earlier children of a value are those of its body, under whatever name it is shown
      have he' : e ∈ (groupEarliers (.group inner within (children.map (·.statement)))
          (.group rule seen (children.map (·.derivation)) (children.map (·.edge)) none)).ofEdge index := by
        cases shownAs <;> exact he
      obtain ⟨child, hc, rfl, rfl⟩ := mem_ofEdge_group he'
      exact ih child hc edge hedge none
    · intro call hr
      rw [hbody] at hr
      cases hr
  | @call rule target context inside call body inner id region interest rules resolved below ih =>
    refine .node (hhere shownAs (.call id region interest rules resolved below)) ?_ ?_
    · intro kind edges hr
      rw [rules] at hr
      cases hr
    · intro call' hr e target' inside' he hresolved
      rw [rules] at hr
      cases hr
      rw [resolved] at hresolved
      cases hresolved
      have he' : earlierCall? (.group id region [Reading.shown call.shownAs body]) (.wrap rule interest inner) = some e := by
        cases shownAs <;> exact he
      cases he'
      exact ih call.shownAs

end Conforms

/-! ## Trees -/

/-- Edits move the nodes of a tree that was reached. -/
theorem Tree.Reached.moved {grammar : Grammar} {allowed : Context → Prop} {tree : Tree} (h : tree.Reached grammar allowed)
    {edits : List Edit} {t : EditedTree} (ht : edits.foldlM EditedTree.edit (.ofTree tree) = .ok t) :
    ∃ v, t.statement = tree.statement.placed v ∧ t.derivation = tree.derivation.placed v := by
  obtain ⟨hw, _⟩ | hblank := h.whole
  · obtain ⟨v, hfollows⟩ := hw.follows ht
    exact ⟨v, hfollows.statement, hfollows.derivation⟩
  · obtain ⟨v, hdrifts⟩ := hblank.of_edits ht
    exact ⟨v, hdrifts.statement, hdrifts.derivation⟩

/-- **Trees conform to their grammar.** Every tree that was reached by a parse and repairs in one context has at each node a
derivation of its shape, and conforms to the root rule in that context. -/
theorem conforms_of_reached {grammar : Grammar} {context : Context} {tree : Tree} (h : tree.Reached grammar (· = context)) :
    Paired tree.statement tree.derivation ∧
      Conforms grammar grammar.root context tree.statement tree.derivation := by
  have hconforms : Conforms grammar grammar.root context tree.statement tree.derivation := by
    induction h with
    | parse allows parsed =>
      subst allows
      exact (parse_yields Conforming.passes parsed).1 _ rfl
    | @repair before tree edits options nextId next reached allows repaired ih =>
      subst allows
      obtain ⟨_, rfl⟩ | ⟨t, ht, hcases⟩ := repair_eq_ok repaired
      · exact ih
      · obtain ⟨v, hstatement, hderivation⟩ := reached.moved ht
        have hmoved := ih.placed v
        rw [← hstatement, ← hderivation] at hmoved
        obtain ⟨_, hrederive⟩ | ⟨_, hkeep⟩ := hcases
        · exact (rederive_yields Conforming.passes (hmoved.revisited _ none) hrederive).1 _ rfl
        · obtain ⟨rfl, _⟩ := Grammar.keepTree_eq_ok hkeep
          exact hmoved
  exact ⟨hconforms.paired, hconforms⟩

end

open Pattern.Regex

/-- A container in any order that has read the letter b by the edge that requires it conforms. -/
theorem conforms_of_reached_letterB : ∃ tree : Tree,
    tree.Reached (.anyAndOne .letterA .letterB) (· = .empty) ∧ Paired tree.statement tree.derivation ∧
      Conforms (.anyAndOne .letterA .letterB) ⟨2⟩ .empty tree.statement tree.derivation := by
  have hone : Text.size "b" = 1 := by decide +kernel
  have hsize : Text.size "b" ≤ Options.plain.limits.maxInputSize := by decide +kernel
  obtain ⟨statistics, hparse⟩ := parse_anyAndOne Pattern.matchFront_letterA_b Pattern.letterA_reads.matchFront_nil
    Pattern.matchFront_letterB (by rw [hone]; exact Nat.one_ne_zero) hsize 0
  have hreached : Tree.Reached (.anyAndOne .letterA .letterB) (· = .empty) _ := .parse rfl hparse
  exact ⟨_, hreached, conforms_of_reached hreached⟩

end Graft
