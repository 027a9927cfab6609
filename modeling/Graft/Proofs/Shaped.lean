import Graft.Proofs.Conforms
import Graft.Proofs.Deeds

/-!
# Trees of a grammar

Whatever context a node was read in, the rule of its derivation tells its shape. So an attempt on an earlier node that this rule
has read meets below the node what the rule has left there, and a deed that passes from attempts to rules is done by attempts on
earlier nodes, too, as long as keeping a node does it.
-/

namespace Graft

open Engine

variable [Pattern.Compiler]

/-- A statement and its derivation have, node for node, the shape of what the rules of the derivation read. -/
inductive Shaped (grammar : Grammar) : Statement → Derivation → Prop where
  | leaf {id : NodeId} {region interest : Region} {text : String} {rule : RuleId} {kind : ConsumeKind} {binding : Binding}
      (rules : grammar.body? rule = some (.consume kind binding)) :
      Shaped grammar (.leaf id region text) (.leaf rule interest)
  | group {id : NodeId} {region interest : Region} {rule : RuleId} {chosen : Option Nat} {kind : ContainerKind}
      {edges : List Edge} (children : List Taken) (rules : grammar.body? rule = some (.container kind edges))
      (plain : ∀ nonEmpty, kind ≠ .value nonEmpty)
      (below : ∀ child ∈ children, Shaped grammar child.statement child.derivation) :
      Shaped grammar (.group id region (children.map (·.statement)))
        (.group rule interest (children.map (·.derivation)) (children.map (·.edge)) chosen)
  | value {id inner : NodeId} {region within interest seen : Region} {name text : String} {rule : RuleId}
      {chosen : Option Nat} {nonEmpty : Bool} {edges : List Edge} (children : List Taken)
      (rules : grammar.body? rule = some (.container (.value nonEmpty) edges))
      (below : ∀ child ∈ children, Shaped grammar child.statement child.derivation) :
      Shaped grammar (.value id region name text (.group inner within (children.map (·.statement))))
        (.wrap rule interest (.group rule seen (children.map (·.derivation)) (children.map (·.edge)) chosen))
  | call {id : NodeId} {region interest : Region} {rule : RuleId} {call : Invocation} {body : Statement}
      {inner : Derivation} (rules : grammar.body? rule = some (.invoke call)) (below : Shaped grammar body inner) :
      Shaped grammar (.group id region [Reading.shown call.shownAs body]) (.wrap rule interest inner)

/-- What an attempt has read has the shape of its rules. -/
def Shaping (grammar : Grammar) : Claim := fun _ _ _ a =>
  ∀ s, a.statement = some s → Shaped grammar s a.derivation

omit [Pattern.Compiler] in
/-- The nodes below a group are those of its children. -/
theorem Statement.mem_walk_group {id : NodeId} {region interest : Region} {rule : RuleId} {chosen : Option Nat}
    {children : List Taken} {node : Statement × Derivation} :
    node ∈ (Statement.group id region (children.map (·.statement))).walk
        (.group rule interest (children.map (·.derivation)) (children.map (·.edge)) chosen) ↔
      node = (.group id region (children.map (·.statement)),
        .group rule interest (children.map (·.derivation)) (children.map (·.edge)) chosen) ∨
      ∃ child ∈ children, node ∈ child.statement.walk child.derivation := by
  rw [walk_group, Derivation.children, walkList_map, List.mem_cons, List.mem_flatMap]

namespace Shaped

variable {grammar : Grammar} {s : Statement} {d : Derivation}

theorem paired (h : Shaped grammar s d) : Paired s d := by
  induction h with
  | leaf => exact .leaf
  | group children _ _ _ ih => exact .group children ih
  | value children _ _ ih => exact .value (.group children ih)
  | @call _ _ _ _ call _ _ _ _ ih => exact .call (ih.shown call.shownAs)

/-- The grammar has the rules of the nodes. -/
theorem known (h : Shaped grammar s d) : s.Known grammar d := by
  induction h with
  | leaf rules => simp only [Statement.Known, Derivation.rule, rules, Option.isSome_some]
  | group children rules _ _ ih =>
    simp only [Statement.Known, Derivation.rule, rules, Option.isSome_some, Derivation.children, true_and]
    exact Statement.knownOfList_map grammar children ih
  | value children rules _ ih =>
    simp only [Statement.Known, Derivation.rule, rules, Option.isSome_some, Derivation.children, true_and]
    exact Statement.knownOfList_map grammar children ih
  | call rules _ ih =>
    simp only [Statement.Known, Derivation.rule, rules, Option.isSome_some, Derivation.children, true_and,
      Statement.KnownOfList, Statement.known_shown, and_true]
    exact ih

/-- The name that a value is shown under does not matter. -/
theorem shown (h : Shaped grammar s d) (name : Option String) : Shaped grammar (Reading.shown name s) d := by
  cases name with
  | none => exact h
  | some name =>
    cases h with
    | leaf rules => exact .leaf rules
    | group children rules plain below => exact .group children rules plain below
    | value children rules below => exact .value children rules below
    | call rules below => exact .call rules below

/-- Where the nodes lie does not matter. -/
theorem placed (h : Shaped grammar s d) (v : Region → Region) : Shaped grammar (s.placed v) (d.placed v) := by
  have hbelow : ∀ {children : List Taken},
      (∀ child ∈ children, Shaped grammar (child.statement.placed v) (child.derivation.placed v)) →
      ∀ child ∈ children.map (Taken.placed v), Shaped grammar child.statement child.derivation := by
    intro children ih child hm
    obtain ⟨origin, ho, rfl⟩ := List.mem_map.1 hm
    exact ih origin ho
  induction h with
  | leaf rules =>
    rw [Statement.placed_leaf, Derivation.placed_leaf]
    exact .leaf rules
  | @group id region interest rule chosen kind edges children rules plain _ ih =>
    have hgroup := @group _ grammar id (v region) (v interest) rule chosen kind edges (children.map (Taken.placed v)) rules
      plain (hbelow ih)
    simpa [Function.comp_def, Taken.placed] using hgroup
  | @value id inner region within interest seen name text rule chosen nonEmpty edges children rules _ ih =>
    have hvalue := @value _ grammar id inner (v region) (v within) (v interest) (v seen) name text rule chosen nonEmpty edges
      (children.map (Taken.placed v)) rules (hbelow ih)
    simpa [Function.comp_def, Taken.placed] using hvalue
  | call rules _ ih =>
    simp only [Statement.placed_group, Derivation.placed_wrap, List.map_cons, List.map_nil, Reading.shown_placed]
    exact .call rules ih

/-- The earlier children of a container have the shape of their rules, and are nodes below it. -/
theorem of_mem_earliers (h : Shaped grammar s d) {kind : ContainerKind} {edges : List Edge}
    (hr : grammar.body? d.rule = some (.container kind edges)) {index : Nat} {e : Earlier}
    (he : e ∈ (earliersOf kind s d).ofEdge index) :
    Shaped grammar e.1 e.2 ∧ ∀ node ∈ e.1.walk e.2, node ∈ s.walk d := by
  cases h with
  | leaf rules => cases rules.symm.trans hr
  | group children rules plain below =>
    cases rules.symm.trans hr
    rw [earliersOf_plain plain] at he
    obtain ⟨child, hc, _, rfl⟩ := mem_ofEdge_group he
    exact ⟨below child hc, fun node hm => Statement.mem_walk_group.2 (Or.inr ⟨child, hc, hm⟩)⟩
  | value children rules below =>
    cases rules.symm.trans hr
    simp only [earliersOf, Statement.body?] at he
    obtain ⟨child, hc, _, rfl⟩ := mem_ofEdge_group he
    refine ⟨below child hc, fun node hm => ?_⟩
    rw [Statement.walk_value, Derivation.children]
    exact List.mem_cons_of_mem _ (Statement.mem_walk_group.2 (Or.inr ⟨child, hc, hm⟩))
  | call rules => cases rules.symm.trans hr

/-- The earlier node of an invocation has the shape of its rules, and the name that the invocation shows it under. -/
theorem of_earlierCall (h : Shaped grammar s d) {call : Invocation} (hr : grammar.body? d.rule = some (.invoke call))
    {e : Earlier} (he : earlierCall? s d = some e) :
    Shaped grammar e.1 e.2 ∧ Reading.shown call.shownAs e.1 = e.1 ∧ ∀ node ∈ e.1.walk e.2, node ∈ s.walk d := by
  cases h with
  | leaf rules => cases rules.symm.trans hr
  | group children rules => cases rules.symm.trans hr
  | value children rules => cases rules.symm.trans hr
  | @call _ _ _ _ _ body inner rules below =>
    cases rules.symm.trans hr
    obtain rfl : (Reading.shown call.shownAs body, inner) = e := by simpa [earlierCall?, Statement.children] using he
    refine ⟨below.shown _, Reading.shown_shown _ _, fun node hm => ?_⟩
    rw [Statement.walk_call]
    exact List.mem_cons_of_mem _ hm

end Shaped

/-- What holds of the statements that attempts read holds of the children that they are gathered to. -/
theorem Gathered.children_of {P : Claim} {Q : Statement → Derivation → Prop}
    (hQ : ∀ rule offset context a, P rule offset context a → ∀ s, a.statement = some s → Q s a.derivation) {edges : List Edge}
    {live : Context} {offset : Nat} {g : Gathering} (h : Gathered P edges live offset g) :
    ∀ child ∈ g.children.toList, Q child.statement child.derivation := by
  induction h with
  | begin => simp [Gathering.begin]
  | @accept p a _ _ ha ih =>
    intro child hm
    rcases Progress.mem_children_accept (Array.mem_toList_iff.1 hm) with hm | ⟨s, hs, rfl⟩
    · exact ih child (Array.mem_toList_iff.2 hm)
    · exact hQ _ _ _ a ha s hs

/-- What has the shape of its rules is gathered to children that have. -/
theorem Gathered.shaping {grammar : Grammar} {edges : List Edge} {live : Context} {offset : Nat} {g : Gathering}
    (h : Gathered (Shaping grammar) edges live offset g) :
    ∀ child ∈ g.children.toList, Shaped grammar child.statement child.derivation :=
  h.children_of fun _ _ _ _ ha => ha

/-- Attempts of the shape of their rules make up rules that are. -/
theorem Shaping.closed {grammar : Grammar} {input : String} : Claim.Closed grammar input (Shaping grammar) := by
  intro rule offset context a h s hs
  cases h with
  | unmatched => cases hs
  | matched id rules =>
    cases hs
    exact .leaf rules
  | full id chosen rules plain gathered =>
    cases hs
    exact .group _ rules plain gathered.shaping
  | short => cases hs
  | valued id inner name text rules gathered =>
    cases hs
    exact .value _ rules gathered.shaping
  | called id rules resolved attempted =>
    obtain ⟨t, ha, rfl, hwrap⟩ := Reading.wrap_eq_success hs
    rw [hwrap]
    exact .call rules (attempted t ha)

/-! ## Attempts on earlier nodes -/

/-- A node, if no edit has touched it, may be kept: an attempt that comes to it as it stands, under the name it has, and adds its
text does `P`. -/
def Keeps (P : Deed) (setting : Setting) (node : Earlier) : Prop :=
  setting.modified.contains node.1.id = false → ∀ shownAs, Reading.shown shownAs node.1 = node.1 → ∀ s context,
    P shownAs s node.2.rule node.1.region.offset context (.success node.1 node.2) (s.reusing setting.grammar node)

section

variable {P : Deed} {setting : Setting} {s : Statement} {d : Derivation}

/-- **What passes from attempts to rules is done by attempts on earlier nodes**, if it is done by keeping them. -/
theorem again_does (hP : P.Passes setting) (levels : Nat) {shownAs : Option String} (rule : RuleId) (context : Context)
    (h : Shaped setting.grammar s d)
    (hk : ∀ node ∈ s.walk d, Shaped setting.grammar node.1 node.2 → Keeps P setting node)
    (hshown : Reading.shown shownAs s = s) :
    AgainDoes P (Engine.attempts setting levels) shownAs rule (s, d) context := by
  induction levels generalizing shownAs rule context s d with
  | zero =>
    intro _ _ _ _ hrun
    cases hrun
  | succ levels ih =>
    intro before offset a after hrun
    -- where the rule of the node is attempted, the shape of the node tells what is met below it
    refine reattempt_does hP (fresh_does hP levels) h.known ?_ ?_ ?_ hrun
    · rintro rfl rfl hmark
      exact hk (s, d) (EditedTree.mem_walk_self s d) h hmark shownAs hshown before context
    · rintro rfl kind edges hr index edge _ e he
      obtain ⟨he, hbelow⟩ := h.of_mem_earliers hr he
      exact ih _ _ he (fun node hm => hk node (hbelow node hm)) rfl
    · rintro rfl call hr e target inside he
      obtain ⟨he, hname, hbelow⟩ := h.of_earlierCall hr he
      exact ih _ _ he (fun node hm => hk node (hbelow node hm)) hname

end

/-! ## Whole calls -/

section

variable {P : Deed} {grammar : Grammar} {options : Options} {nextId next : NodeId} {tree : Tree}

/-- A parse that succeeds is an attempt of the root at the start of the text. -/
theorem parse_does {input : String} (hP : P.Passes (.make grammar input options {}))
    (h : grammar.parse input options nextId = .ok (tree, next)) :
    ∃ t : State, P none { nextId } grammar.root 0 options.context (.success tree.statement tree.derivation) t ∧
      t.nextId = next ∧ tree.statistics = t.statistics := by
  obtain ⟨t, hrun, _, hnext, hstatistics⟩ := Grammar.parse_eq_ok h
  exact ⟨t, fresh_does hP _ hrun, hnext.symm, hstatistics⟩

/-- Attempting the root of an edited tree again is an attempt on the earlier root. -/
theorem rederive_does {t : EditedTree} (hP : P.Passes (.make grammar t.text options t.modified))
    (hs : Shaped grammar t.statement t.derivation)
    (hk : ∀ node ∈ t.nodes, Shaped grammar node.1 node.2 → Keeps P (.make grammar t.text options t.modified) node)
    (h : grammar.rederive t options nextId = .ok (tree, next)) :
    ∃ u : State, P none { nextId } grammar.root 0 options.context (.success tree.statement tree.derivation) u ∧
      u.nextId = next ∧ tree.statistics = u.statistics := by
  obtain ⟨u, hrun, _, _, hnext, hstatistics⟩ := Grammar.rederive_eq_ok h
  exact ⟨u, again_does hP _ _ _ hs hk rfl hrun, hnext.symm, hstatistics⟩

end

/-- Trees that were reached have the shape of their rules. -/
theorem Tree.Reached.shaped {grammar : Grammar} {allowed : Context → Prop} {tree : Tree}
    (h : tree.Reached grammar allowed) : Shaped grammar tree.statement tree.derivation := by
  induction h with
  | @parse input options nextId next tree _ parsed =>
    exact (parse_yields Shaping.closed.passes parsed).1 tree.statement rfl
  | @repair before tree edits options nextId next reached _ repaired ih =>
    obtain ⟨_, rfl⟩ | ⟨t, ht, hcases⟩ := repair_eq_ok repaired
    · exact ih
    · obtain ⟨v, hstatement, hderivation⟩ := reached.moved ht
      have hmoved := ih.placed v
      rw [← hstatement, ← hderivation] at hmoved
      obtain ⟨_, hrederive⟩ | ⟨_, hkeep⟩ := hcases
      · have hpasses : (Shaping grammar).deed.Passes (.make grammar t.text options t.modified) :=
          Claim.Closed.deed_passes Shaping.closed
        obtain ⟨u, hdoes, _⟩ := rederive_does hpasses hmoved (fun node _ hs _ _ _ s _ hremembers => by
          refine ⟨?_, hremembers.of_eq (State.memo_reaching _ _)⟩
          intro st hst
          cases hst
          exact hs) hrederive
        exact (hdoes (State.remembers_begin _ nextId)).1 tree.statement rfl
      · obtain ⟨rfl, _⟩ := Grammar.keepTree_eq_ok hkeep
        exact hmoved

/-- A tree that was reached keeps the shape of its rules under edits, and its nodes are moved. -/
theorem Tree.Reached.edited {grammar : Grammar} {allowed : Context → Prop} {tree : Tree} (h : tree.Reached grammar allowed)
    {edits : List Edit} {t : EditedTree} (ht : edits.foldlM EditedTree.edit (.ofTree tree) = .ok t) :
    Shaped grammar t.statement t.derivation ∧ ∃ v, ∀ node ∈ t.nodes, ∃ origin ∈ tree.statement.walk tree.derivation,
      node = (origin.1.placed v, origin.2.placed v) := by
  obtain ⟨v, hstatement, hderivation⟩ := h.moved ht
  refine ⟨?_, v, fun node hm => ?_⟩
  · rw [hstatement, hderivation]
    exact h.shaped.placed v
  · rw [EditedTree.nodes, hstatement, hderivation, h.shaped.paired.walk_placed] at hm
    obtain ⟨origin, ho, rfl⟩ := List.mem_map.1 hm
    exact ⟨origin, ho, rfl⟩

end Graft
