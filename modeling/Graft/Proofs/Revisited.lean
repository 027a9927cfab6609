import Graft.Proofs.Placed
import Graft.Proofs.Tallies

/-!
# Earlier nodes that are revisited

Attempting a rule again on an earlier node may come to keep the node, or to attempt other rules again on nodes below it. A
property that passes from attempts to rules, and that the nodes kept on the way have, is yielded by every run of the engine.
-/

namespace Graft

open Engine

/-- The earlier children of a group are its children, each with its edge. -/
theorem Engine.groupEarliers_group (id : NodeId) (region : Region) (rule : RuleId) (interest : Region) (chosen : Option Nat)
    (children : List Taken) :
    groupEarliers (.group id region (children.map (·.statement)))
      (.group rule interest (children.map (·.derivation)) (children.map (·.edge)) chosen) =
    ⟨children.map fun child => (child.edge, child.statement, child.derivation), chosen⟩ := by
  have hzip : (children.map (·.edge)).zip ((children.map (·.statement)).zip (children.map (·.derivation))) =
      children.map fun child => (child.edge, child.statement, child.derivation) := by
    rw [List.zip_map', List.zip_map']
  simp only [groupEarliers, Statement.children, List.length_map, decide_true, Bool.and_self, if_true, hzip]

/-- The earlier children of a group that an edge read are children that it read. -/
theorem Engine.mem_ofEdge_group {id : NodeId} {region : Region} {rule : RuleId} {interest : Region} {chosen : Option Nat}
    {children : List Taken} {index : Nat} {e : Earlier}
    (h : e ∈ (groupEarliers (.group id region (children.map (·.statement)))
      (.group rule interest (children.map (·.derivation)) (children.map (·.edge)) chosen)).ofEdge index) :
    ∃ child ∈ children, child.edge = index ∧ e = (child.statement, child.derivation) := by
  rw [groupEarliers_group, Earliers.mem_ofEdge] at h
  obtain ⟨child, hc, heq⟩ := List.mem_map.1 h
  cases heq
  exact ⟨child, hc, rfl, rfl⟩

/-- The earlier children of a container that is no value are those of its group. -/
theorem Engine.earliersOf_plain {kind : ContainerKind} (h : ∀ nonEmpty, kind ≠ .value nonEmpty) (s : Statement)
    (d : Derivation) : earliersOf kind s d = groupEarliers s d := by
  cases kind with
  | value nonEmpty => exact absurd rfl (h nonEmpty)
  | inOrder => rfl
  | anyOrder => rfl
  | firstOrder => rfl

variable [Pattern.Compiler]

/-- A condition on earlier nodes, each with the name it is shown under, the rule that is attempted again on it, and the
context. -/
abbrev Condition := Option String → RuleId → Context → Statement → Derivation → Prop

/-- A condition holds of an earlier node and of all nodes below it, wherever they may be revisited. -/
inductive Revisited (grammar : Grammar) (K : Condition) : Condition where
  | node {shownAs : Option String} {rule : RuleId} {context : Context} {s : Statement} {d : Derivation}
      (here : K shownAs rule context s d)
      (children : ∀ kind edges, grammar.body? rule = some (.container kind edges) →
        ∀ index edge, edges[index]? = some edge →
        ∀ e ∈ (earliersOf kind s d).ofEdge index, Revisited grammar K none edge.rule (edge.context context) e.1 e.2)
      (called : ∀ call, grammar.body? rule = some (.invoke call) →
        ∀ e target inside, earlierCall? s d = some e → resolveCall grammar call context = .ok (target, inside) →
        Revisited grammar K call.shownAs target inside e.1 e.2) :
      Revisited grammar K shownAs rule context s d

/-- What follows from two conditions holds wherever both do. -/
theorem Revisited.both {grammar : Grammar} {K K' K'' : Condition} {shownAs : Option String} {rule : RuleId} {context : Context}
    {s : Statement} {d : Derivation} (h : Revisited grammar K shownAs rule context s d)
    (h' : Revisited grammar K' shownAs rule context s d)
    (hK : ∀ shownAs rule context s d, K shownAs rule context s d → K' shownAs rule context s d →
      K'' shownAs rule context s d) : Revisited grammar K'' shownAs rule context s d := by
  induction h with
  | node here _ _ ihchildren ihcalled =>
    obtain ⟨here', children', called'⟩ := h'
    refine .node (hK _ _ _ _ _ here here') ?_ ?_
    · exact fun kind edges hr index edge hedge e he => ihchildren kind edges hr index edge hedge e he
        (children' kind edges hr index edge hedge e he)
    · exact fun call hr e target inside he hc => ihcalled call hr e target inside he hc (called' call hr e target inside he hc)

/-- What holds of every node of a tree, for all rules and contexts, holds wherever its nodes may be revisited. -/
theorem Paired.revisited {grammar : Grammar} {K : Condition} {s : Statement} {d : Derivation} (h : Paired s d)
    (hK : ∀ node ∈ s.walk d, ∀ shownAs rule context, K shownAs rule context node.1 node.2) :
    (∀ index, ∀ e ∈ (groupEarliers s d).ofEdge index, ∀ shownAs rule context,
      Revisited grammar K shownAs rule context e.1 e.2) ∧
      ∀ shownAs rule context, Revisited grammar K shownAs rule context s d := by
  induction h with
  | leaf =>
    have hhere := hK _ (by rw [Statement.walk_leaf]; exact List.mem_cons_self ..)
    refine ⟨by simp [groupEarliers, Earliers.ofEdge_empty], fun shownAs rule context => .node (hhere _ _ _) ?_ ?_⟩
    · intro kind edges _ index edge _ e he
      cases kind <;> simp [earliersOf, groupEarliers, Statement.body?, Earliers.ofEdge_empty] at he
    · intro call _ e target inside he
      simp [earlierCall?, Statement.children] at he
  | @group id region rule interest chosen children _ ih =>
    rw [Statement.walk_group, Derivation.children, Statement.walkList_map] at hK
    have hbelow : ∀ index, ∀ e ∈ (groupEarliers (.group id region (children.map (·.statement)))
        (.group rule interest (children.map (·.derivation)) (children.map (·.edge)) chosen)).ofEdge index,
        ∀ shownAs rule context, Revisited grammar K shownAs rule context e.1 e.2 := by
      intro index e he
      obtain ⟨child, hc, _, rfl⟩ := mem_ofEdge_group he
      exact (ih child hc fun node hm => hK node
        (List.mem_cons_of_mem _ (List.mem_flatMap.2 ⟨child, hc, hm⟩))).2
    refine ⟨hbelow, fun shownAs rule context => .node (hK _ (List.mem_cons_self ..) _ _ _) ?_ ?_⟩
    · intro kind edges _ index edge _ e he
      cases kind with
      | value nonEmpty => simp [earliersOf, Statement.body?, Earliers.ofEdge_empty] at he
      | inOrder => exact hbelow index e he _ _ _
      | anyOrder => exact hbelow index e he _ _ _
      | firstOrder => exact hbelow index e he _ _ _
    · intro call _ e target inside he
      simp only [earlierCall?] at he
      split at he
      · rename_i heq
        cases heq
      · cases he
  | value _ ih =>
    rw [Statement.walk_value, Derivation.children] at hK
    have hbody := ih fun node hm => hK node (List.mem_cons_of_mem _ hm)
    refine ⟨by simp [groupEarliers, Earliers.ofEdge_empty], fun shownAs rule context =>
      .node (hK _ (List.mem_cons_self ..) _ _ _) ?_ ?_⟩
    · intro kind edges _ index edge _ e he
      cases kind with
      | value nonEmpty => exact hbody.1 index e he _ _ _
      | inOrder => simp [earliersOf, groupEarliers, Earliers.ofEdge_empty] at he
      | anyOrder => simp [earliersOf, groupEarliers, Earliers.ofEdge_empty] at he
      | firstOrder => simp [earliersOf, groupEarliers, Earliers.ofEdge_empty] at he
    · intro call _ e target inside he
      simp only [earlierCall?, Statement.children, List.getLast?_singleton, Option.some.injEq] at he
      subst he
      exact fun _ => hbody.2 _ _ _
  | call _ ih =>
    rw [Statement.walk_call] at hK
    have hbody := ih fun node hm => hK node (List.mem_cons_of_mem _ hm)
    refine ⟨by simp [groupEarliers, Earliers.ofEdge_empty], fun shownAs rule context =>
      .node (hK _ (List.mem_cons_self ..) _ _ _) ?_ ?_⟩
    · intro kind edges _ index edge _ e he
      cases kind <;> simp [earliersOf, groupEarliers, Statement.body?, Earliers.ofEdge_empty] at he
    · intro call _ e target inside he
      simp only [earlierCall?, Statement.children, List.getLast?_singleton, Option.some.injEq] at he
      subst he
      exact fun _ => hbody.2 _ _ _

/-! ## Attempts -/

/-- An earlier node that no edit has touched is, under the name it is shown under, what its rule may come to where it
stands. -/
def Keeping (P : Claim) (setting : Setting) : Condition := fun shownAs rule context s d =>
  setting.modified.contains s.id = false →
    ∃ b, P rule s.region.offset context b ∧
      Reading.shownAttempt shownAs (.success s d) = Reading.shownAttempt shownAs b

section

variable {P : Claim} {attempts : Attempts} {setting : Setting} {rule : RuleId} {offset : Nat} {context : Context}

theorem readBody_yields (hA : FreshYields P attempts) :
    Yields P (Body setting.grammar setting.input P rule offset context)
      (readBody setting attempts rule offset context) := by
  rw [readBody]
  refine (Yields.lift _).bind fun known hk => ?_
  have hr := Grammar.body?_of_getRule hk
  cases hbody : known.body with
  | consume kind pattern => exact consume_yields (by rw [hr, hbody]) context
  | container kind edges => exact container_yields hA known (by rw [hr, hbody]) .none
  | invoke call => exact invoke_yields hA (by rw [hr, hbody]) fun e _ _ he => by cases he

theorem rereadBody_yields (hA : FreshYields P attempts) {s : Statement} {d : Derivation}
    (hE : ∀ kind edges, setting.grammar.body? rule = some (.container kind edges) →
      EarliersYield P attempts edges context (earliersOf kind s d))
    (hC : ∀ call, setting.grammar.body? rule = some (.invoke call) → ∀ e target inside, earlierCall? s d = some e →
      resolveCall setting.grammar call context = .ok (target, inside) → AgainYields P attempts call.shownAs target e inside) :
    Yields P (Body setting.grammar setting.input P rule offset context)
      (rereadBody setting attempts rule s d offset context) := by
  rw [rereadBody]
  refine (Yields.lift _).bind fun known hk => ?_
  have hr := Grammar.body?_of_getRule hk
  cases hbody : known.body with
  | consume kind pattern => exact consume_yields (by rw [hr, hbody]) context
  | container kind edges =>
    rw [hbody] at hr
    exact container_yields hA known hr (hE kind edges hr)
  | invoke call =>
    rw [hbody] at hr
    exact invoke_yields hA hr (hC call hr)

variable (hP : P.Passes setting.grammar setting.input)
include hP

/-- An entered rule yields what passes from attempts to rules, also out of the memo. -/
theorem lookUpOrRead_yields (hA : FreshYields P attempts) :
    Yields P (P rule offset context) (lookUpOrRead setting attempts rule offset context) := by
  rw [lookUpOrRead]
  refine (Yields.lookUp setting ⟨rule, offset, context⟩).bind fun found hfound => ?_
  cases found with
  | some a => exact .pure (hfound a rfl)
  | none =>
    refine Yields.mark.bind fun mark _ => ?_
    refine ((readBody_yields hA).beside readBody_arranged).bind fun a ha => ?_
    have hpa := hP _ _ _ _ ha.1 ha.2
    refine (Yields.reach a).bind fun _ _ => (Yields.since mark).bind fun text _ => ?_
    exact (@Yields.remember _ _ setting ⟨rule, offset, context⟩ _ hpa).bind fun _ _ => .pure hpa

/-- An attempt from scratch yields it too. -/
theorem attempt_yields (hA : FreshYields P attempts) :
    Yields P (P rule offset context) (attempt setting attempts rule offset context) := by
  rw [attempt]
  refine (Yields.enter setting rule).bind fun _ _ => ?_
  exact (lookUpOrRead_yields hP hA).bind fun a ha => Yields.leave.bind fun _ _ => .pure ha

omit hP in
/-- Adding the text of a node again comes to no attempt. -/
theorem recollect_yields (grammar : Grammar) (s : Statement) (d : Derivation) :
    Yields P (fun _ => True) (recollect grammar s d) := by
  obtain ⟨text, _, h⟩ := recollect_adds grammar s d
  rw [h]
  exact (Yields.lift text).bind fun added _ => .append added

omit hP in
/-- Keeping a node comes to the node. -/
theorem reuse_yields (s : Statement) (d : Derivation) : Yields P (fun a => a = .success s d) (reuse setting s d) := by
  rw [reuse]
  refine (recollect_yields setting.grammar s d).bind fun _ _ => ?_
  exact (Yields.reach _).bind fun _ _ => (Yields.count _).bind fun _ _ => .pure rfl

/-- An attempt on an earlier node yields what passes from attempts to rules, if the nodes that it keeps have it. -/
theorem reattempt_yields (hA : FreshYields P attempts) {shownAs : Option String} {s : Statement} {d : Derivation}
    (hkept : Keeping P setting shownAs rule context s d)
    (hE : ∀ kind edges, setting.grammar.body? rule = some (.container kind edges) →
      EarliersYield P attempts edges context (earliersOf kind s d))
    (hC : ∀ call, setting.grammar.body? rule = some (.invoke call) → ∀ e target inside, earlierCall? s d = some e →
      resolveCall setting.grammar call context = .ok (target, inside) → AgainYields P attempts call.shownAs target e inside) :
    Yields P (fun a => ∃ b, P rule offset context b ∧ Reading.shownAttempt shownAs a = Reading.shownAttempt shownAs b)
      (reattempt setting attempts rule s d offset context) := by
  rw [reattempt]
  split
  · exact (attempt_yields hP hA).mono fun a ha => ⟨a, ha, rfl⟩
  · split
    · rename_i hkeep
      simp only [Bool.and_eq_true, decide_eq_true_eq, Bool.not_eq_true'] at hkeep
      obtain ⟨rfl, hmark⟩ := hkeep
      refine (reuse_yields s d).mono ?_
      rintro a rfl
      exact hkept hmark
    · refine (Yields.enter setting rule).bind fun _ _ => (Yields.count _).bind fun _ _ => ?_
      refine ((rereadBody_yields hA hE hC).beside (rereadBody_arranged s d)).bind fun a ha => ?_
      have hpa := hP _ _ _ _ ha.1 ha.2
      exact Yields.leave.bind fun _ _ => (Yields.reach a).bind fun _ _ => .pure ⟨a, hpa, rfl⟩

/-- **What passes from attempts to rules is yielded** by every attempt from scratch. -/
theorem fresh_yields (levels : Nat) : FreshYields P (Engine.attempts setting levels) := by
  induction levels with
  | zero => exact fun _ _ _ => .fail _
  | succ levels ih => exact fun _ _ _ => attempt_yields hP ih

/-- It is yielded by attempts on earlier nodes, if the nodes that are kept have it. -/
theorem again_yields (levels : Nat) {shownAs : Option String} {s : Statement} {d : Derivation}
    (h : Revisited setting.grammar (Keeping P setting) shownAs rule context s d) :
    AgainYields P (Engine.attempts setting levels) shownAs rule (s, d) context := by
  induction levels generalizing shownAs rule context s d with
  | zero => exact fun _ => .fail _
  | succ levels ih =>
    obtain ⟨here, children, called⟩ := h
    intro o
    refine reattempt_yields hP (fresh_yields hP levels) here ?_ ?_
    · exact fun kind edges hr index edge hedge e he => ih (children kind edges hr index edge hedge e he)
    · exact fun call hr e target inside he hc => ih (called call hr e target inside he hc)

end

end Graft
