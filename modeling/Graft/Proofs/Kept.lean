import Graft.Engine
import Graft.Proofs.Bytes
import Graft.Proofs.Recast
import Graft.Proofs.Steps

/-!
# Kept texts

The text that a subtree adds to the value around it can be told from the subtree alone: it is the text of its kept leaves
outside of values. This is what an attempt adds while it reads, and what is added again for a subtree that is reused.
-/

namespace Graft

variable [Pattern.Compiler]

/-- What the rule at a place does, if there is one. -/
def Grammar.body? (g : Grammar) (id : RuleId) : Option RuleBody :=
  (g.rule? id).map (·.body)

namespace Statement

mutual

/-- The text that a statement adds to the value around it. -/
def kept (g : Grammar) : Statement → Derivation → String
  | leaf _ _ text, d =>
    match g.body? d.rule with
    | some (.consume .keep _) => text
    | _ => ""
  | group _ _ children, d =>
    match g.body? d.rule with
    | none | some (.consume ..) | some (.container (.value _) _) => ""
    | _ => keptOfList g children d.children
  | value _ _ _ text body, d =>
    match g.body? d.rule with
    | some (.consume .keep _) => text
    | none | some (.consume .skip _) | some (.container (.value _) _) => ""
    | _ =>
      match d.children with
      | [] => ""
      | inner :: _ => kept g body inner

/-- The text that several statements add to the value around them. -/
def keptOfList (g : Grammar) : List Statement → List Derivation → String
  | s :: statements, d :: derivations => kept g s d ++ keptOfList g statements derivations
  | _, _ => ""

end

end Statement

/-- The text that an attempt adds to the value around it. -/
def Attempt.kept (g : Grammar) (a : Attempt) : String :=
  match a.statement with
  | none => ""
  | some s => s.kept g a.derivation

/-- The text that the children of an attempt add to a value. -/
def Attempt.keptBelow (g : Grammar) (a : Attempt) : String :=
  match a.statement with
  | none => ""
  | some s => Statement.keptOfList g s.children a.derivation.children

namespace Engine

/-- The text that a child adds to the value around it. -/
def Taken.kept (g : Grammar) (child : Taken) : String :=
  child.statement.kept g child.derivation

/-- The text that the children gathered so far add to the value around them. -/
def Gathering.kept (g : Grammar) (gathering : Gathering) : String :=
  Statement.keptOfList g (gathering.children.toList.map (·.statement)) (gathering.children.toList.map (·.derivation))

end Engine

/-! ## Laws -/

namespace Statement

/-- Of no statements nothing is kept. -/
theorem keptOfList_nil (g : Grammar) (derivations : List Derivation) : keptOfList g [] derivations = "" := by
  rw [keptOfList]
  simp

/-- What is kept of several statements is kept of the first and then of the others. -/
theorem keptOfList_cons (g : Grammar) (s : Statement) (statements : List Statement) (d : Derivation)
    (derivations : List Derivation) :
    keptOfList g (s :: statements) (d :: derivations) = kept g s d ++ keptOfList g statements derivations := by
  rw [keptOfList]

/-- Several statements keep what each of them keeps, in order. -/
theorem keptOfList_append (g : Grammar) (ss ss' : List Statement) (ds ds' : List Derivation)
    (h : ss.length = ds.length) : keptOfList g (ss ++ ss') (ds ++ ds') = keptOfList g ss ds ++ keptOfList g ss' ds' := by
  induction ss generalizing ds with
  | nil =>
    obtain rfl : ds = [] := List.eq_nil_of_length_eq_zero h.symm
    rw [keptOfList_nil, List.nil_append, List.nil_append, String.empty_append]
  | cons s ss ih =>
    cases ds with
    | nil => cases h
    | cons d ds =>
      rw [List.cons_append, List.cons_append, keptOfList_cons, keptOfList_cons, ih ds (by simpa using h),
        String.append_assoc]

mutual

/-- What is kept does not depend on identities and places. -/
theorem kept_recast (g : Grammar) (m m' : Recasting) (s : Statement) (d : Derivation) :
    kept g (s.recast m) (d.recast m') = kept g s d := by
  cases s with
  | leaf id region text => simp only [recast_leaf, kept, Derivation.rule_recast]
  | group id region children =>
    rw [recast, kept, kept, Derivation.rule_recast, Derivation.children_recast, ← Derivation.recastList_eq_map,
      keptOfList_recast g m m' children d.children]
  | value id region name text body =>
    rw [recast, kept, kept, Derivation.rule_recast, Derivation.children_recast]
    cases d.children with
    | nil => rfl
    | cons inner rest => simp only [List.map_cons, kept_recast g m m' body inner]

/-- Several statements keep the same text however they are recast. -/
theorem keptOfList_recast (g : Grammar) (m m' : Recasting) (statements : List Statement) (derivations : List Derivation) :
    keptOfList g (recastList m statements) (Derivation.recastList m' derivations) =
      keptOfList g statements derivations := by
  match statements, derivations with
  | [], _ => rw [recastList, keptOfList_nil, keptOfList_nil]
  | s :: statements, [] => simp [recastList, Derivation.recastList, keptOfList]
  | s :: statements, d :: derivations =>
    rw [recastList, Derivation.recastList, keptOfList_cons, keptOfList_cons, kept_recast g m m' s d,
      keptOfList_recast g m m' statements derivations]

end

/-- What is kept does not depend on the name of a value. -/
theorem kept_renamed (g : Grammar) (name : String) (s : Statement) (d : Derivation) :
    kept g (s.renamed name) d = kept g s d := by
  cases s with
  | leaf => rfl
  | group => rfl
  | value id region own text body => rw [renamed, kept, kept]

end Statement

/-- An attempt keeps the same text however it is recast. -/
theorem Attempt.kept_recast (g : Grammar) (m : Recasting) (a : Attempt) : (a.recast m).kept g = a.kept g := by
  obtain ⟨statement, d⟩ := a
  cases statement with
  | none => rfl
  | some s => exact Statement.kept_recast g m m s d

/-- An attempt keeps the same text below its node however it is recast. -/
theorem Attempt.keptBelow_recast (g : Grammar) (m : Recasting) (a : Attempt) :
    (a.recast m).keptBelow g = a.keptBelow g := by
  obtain ⟨statement, d⟩ := a
  cases statement with
  | none => rfl
  | some s =>
    have h := Statement.keptOfList_recast g m m s.children d.children
    rw [Statement.recastList_eq_map, Derivation.recastList_eq_map] at h
    simp only [keptBelow, statement_recast, derivation_recast, Option.map_some, Statement.children_recast,
      Derivation.children_recast, h]

namespace Engine.Gathering

/-- To begin with nothing is kept. -/
theorem kept_begin (g : Grammar) (offset : Nat) : (begin offset).kept g = "" :=
  Statement.keptOfList_nil g _

/-- Looking further keeps nothing. -/
theorem kept_look (g : Grammar) (gathering : Gathering) (interest : Region) :
    (gathering.look interest).kept g = gathering.kept g := rfl

/-- A child that is pushed adds what is kept of it. -/
theorem kept_push (g : Grammar) (gathering : Gathering) (child : Taken) :
    (gathering.push child).kept g = gathering.kept g ++ child.kept g := by
  simp only [kept, push, Array.toList_push, List.map_append, List.map_cons, List.map_nil]
  rw [Statement.keptOfList_append g _ _ _ _ (by simp), Statement.keptOfList_cons, Statement.keptOfList_nil,
    String.append_empty, Taken.kept]

/-- A child that keeps nothing may be taken any number of times. -/
theorem kept_pushMany (g : Grammar) (gathering : Gathering) (child : Taken) (count : Nat) (h : child.kept g = "") :
    (gathering.pushMany child count).kept g = gathering.kept g := by
  induction count generalizing gathering with
  | zero => rfl
  | succ count ih => rw [pushMany, ih, kept_push, h, String.append_empty]

/-- What is gathered keeps the same text however it is recast. -/
theorem kept_recast (g : Grammar) (m : Recasting) (gathering : Gathering) :
    (gathering.recast m).kept g = gathering.kept g := by
  have h := Statement.keptOfList_recast g m m (gathering.children.toList.map (·.statement))
    (gathering.children.toList.map (·.derivation))
  rw [Statement.recastList_eq_map, Derivation.recastList_eq_map, List.map_map, List.map_map] at h
  rw [kept, kept, ← h, recast, Array.toList_map, List.map_map, List.map_map]
  rfl

end Engine.Gathering

/-! ## Adding the text of a subtree again -/

namespace Statement

mutual

/-- Whether the grammar has the rules that a statement was derived by. -/
def Known (g : Grammar) : Statement → Derivation → Prop
  | leaf .., d => (g.body? d.rule).isSome
  | group _ _ children, d => (g.body? d.rule).isSome ∧ KnownOfList g children d.children
  | value _ _ _ _ body, d =>
    (g.body? d.rule).isSome ∧
      match d.children with
      | [] => True
      | inner :: _ => Known g body inner

/-- Whether the grammar has the rules that several statements were derived by. -/
def KnownOfList (g : Grammar) : List Statement → List Derivation → Prop
  | s :: statements, d :: derivations => Known g s d ∧ KnownOfList g statements derivations
  | _, _ => True

end

mutual

/-- The rules that a statement was derived by are known however it is recast. -/
theorem known_recast (g : Grammar) (m m' : Recasting) (s : Statement) (d : Derivation) :
    Known g (s.recast m) (d.recast m') ↔ Known g s d := by
  cases s with
  | leaf id region text => simp only [recast_leaf, Known, Derivation.rule_recast]
  | group id region children =>
    rw [recast, Known, Known, Derivation.rule_recast, Derivation.children_recast, ← Derivation.recastList_eq_map,
      knownOfList_recast g m m' children d.children]
  | value id region name text body =>
    rw [recast, Known, Known, Derivation.rule_recast, Derivation.children_recast]
    cases d.children with
    | nil => rfl
    | cons inner rest => simp only [List.map_cons, known_recast g m m' body inner]

/-- The rules that several statements were derived by are known however they are recast. -/
theorem knownOfList_recast (g : Grammar) (m m' : Recasting) (statements : List Statement)
    (derivations : List Derivation) :
    KnownOfList g (recastList m statements) (Derivation.recastList m' derivations) ↔
      KnownOfList g statements derivations := by
  match statements, derivations with
  | [], _ => simp [recastList, KnownOfList]
  | s :: statements, [] => simp [recastList, Derivation.recastList, KnownOfList]
  | s :: statements, d :: derivations =>
    rw [recastList, Derivation.recastList, KnownOfList, KnownOfList, known_recast g m m' s d,
      knownOfList_recast g m m' statements derivations]

end

/-- The rules that a statement was derived by are known under any name. -/
theorem known_renamed (g : Grammar) (name : String) (s : Statement) (d : Derivation) :
    Known g (s.renamed name) d ↔ Known g s d := by
  cases s with
  | leaf => exact Iff.rfl
  | group => exact Iff.rfl
  | value id region own text body => rw [renamed, Known, Known]

/-- The rules of gathered children are known if those of each child are. -/
theorem knownOfList_map (g : Grammar) (children : List Engine.Taken)
    (h : ∀ child ∈ children, Known g child.statement child.derivation) :
    KnownOfList g (children.map (·.statement)) (children.map (·.derivation)) := by
  induction children with
  | nil => simp [KnownOfList]
  | cons child rest ih =>
    rw [List.map_cons, List.map_cons, KnownOfList]
    exact ⟨h child (List.mem_cons_self ..), ih fun c hm => h c (List.mem_cons_of_mem _ hm)⟩

end Statement

/-- A rule that has a body can be got, with that body. -/
theorem Grammar.getRule_of_isSome {g : Grammar} {id : RuleId} (h : (g.body? id).isSome) :
    ∃ rule, g.getRule id = .ok rule ∧ g.body? id = some rule.body := by
  rw [Grammar.body?, Option.isSome_map] at h
  obtain ⟨rule, hr⟩ := Option.isSome_iff_exists.1 h
  exact ⟨rule, by rw [Grammar.getRule, hr], by rw [Grammar.body?, hr, Option.map_some]⟩

/-- A rule that was got stands in the grammar. -/
theorem Grammar.rule?_of_getRule {g : Grammar} {id : RuleId} {rule : Rule} (h : g.getRule id = .ok rule) :
    g.rule? id = some rule := by
  rw [Grammar.getRule] at h
  cases hr : g.rule? id with
  | none => rw [hr] at h; cases h
  | some other => rw [hr] at h; cases h; rfl

/-- A rule that was got has the body that stands in the grammar. -/
theorem Grammar.body?_of_getRule {g : Grammar} {id : RuleId} {rule : Rule} (h : g.getRule id = .ok rule) :
    g.body? id = some rule.body := by
  rw [Grammar.body?, rule?_of_getRule h, Option.map_some]

/-- A run adds a text to the innermost value, the same whatever its state, or fails for want of a rule. -/
def Run.Adds (g : Grammar) (x : Run Unit) : Prop :=
  ∃ text : Except Fault String, (∀ fault, text = .error fault → ∃ id, g.getRule id = .error fault) ∧
    x = (liftM text : Run String) >>= Run.append

namespace Run.Adds

variable {g : Grammar} {x y : Run Unit}

/-- Appending adds the text. -/
theorem append (text : String) : Adds g (Run.append text) :=
  ⟨.ok text, fun _ h => (by cases h), rfl⟩

/-- Doing nothing adds the empty text. -/
theorem nothing : Adds g (pure ()) := by
  refine ⟨.ok "", fun _ h => (by cases h), funext fun s => ?_⟩
  rw [Run.lift_bind, Run.ok_bind, Run.append_apply, State.adding_empty, Run.pure_apply]

/-- What is added after something else is added with it. -/
theorem andThen (hx : Adds g x) (hy : Adds g y) : Adds g (x >>= fun _ => y) := by
  obtain ⟨a, ha, rfl⟩ := hx
  obtain ⟨b, hb, rfl⟩ := hy
  cases a with
  | error fault => exact ⟨.error fault, fun _ h => ha _ h, rfl⟩
  | ok text =>
    cases b with
    | error fault => exact ⟨.error fault, fun _ h => hb _ h, rfl⟩
    | ok more =>
      refine ⟨.ok (text ++ more), fun _ h => (by cases h), funext fun s => ?_⟩
      rw [Run.lift_bind, Run.ok_bind, Run.append_apply, ← State.adding_adding]
      rfl

/-- What follows the look at a rule may depend on the rule, which is the same in every state. -/
theorem rule {id : RuleId} {f : Rule → Run Unit} (h : ∀ known, Adds g (f known)) :
    Adds g ((liftM (g.getRule id) : Run Rule) >>= f) := by
  cases hr : g.getRule id with
  | error fault =>
    refine ⟨.error fault, fun other h => ?_, rfl⟩
    cases h
    exact ⟨id, hr⟩
  | ok known => exact h known

end Run.Adds

namespace Engine

mutual

/-- What is added again for a subtree is what it keeps. -/
theorem recollect_eq (g : Grammar) (s : Statement) (d : Derivation) (state : State) (h : s.Known g d) :
    recollect g s d state = .ok ((), state.adding (s.kept g d)) := by
  have hpure : (pure () : Run Unit) state = .ok ((), state.adding "") := by rw [State.adding_empty, Run.pure_apply]
  cases s with
  | leaf id region text =>
    rw [Statement.Known] at h
    obtain ⟨rule, hr, hb⟩ := Grammar.getRule_of_isSome h
    rw [recollect, hr, Run.lift_bind, Statement.kept, hb]
    simp only [Run.ok_bind]
    rcases hk : rule.body with ⟨_ | _, _⟩ | ⟨_, _⟩ | _
    · exact Run.append_apply text state
    · exact hpure
    · exact hpure
    · exact hpure
  | group id region children =>
    rw [Statement.Known] at h
    obtain ⟨rule, hr, hb⟩ := Grammar.getRule_of_isSome h.1
    have hall := recollectAll_eq g children d.children state h.2
    rw [recollect, hr, Run.lift_bind, Statement.kept, hb]
    simp only [Run.ok_bind]
    rcases hk : rule.body with ⟨_ | _, _⟩ | ⟨_ | _ | _ | _, _⟩ | _
    · exact Run.append_apply "" state
    · exact hpure
    · exact hall
    · exact hall
    · exact hall
    · exact hpure
    · exact hall
  | value id region name text body =>
    rw [Statement.Known] at h
    obtain ⟨rule, hr, hb⟩ := Grammar.getRule_of_isSome h.1
    have hinner :
        (match d.children with
          | [] => (pure () : Run Unit)
          | inner :: _ => recollect g body inner) state =
        .ok ((), state.adding (match d.children with
          | [] => ""
          | inner :: _ => Statement.kept g body inner)) := by
      have h2 := h.2
      cases hd : d.children with
      | nil => exact hpure
      | cons inner rest =>
        rw [hd] at h2
        exact recollect_eq g body inner state h2
    rw [recollect, hr, Run.lift_bind, Statement.kept, hb]
    simp only [Run.ok_bind]
    rcases hk : rule.body with ⟨_ | _, _⟩ | ⟨_ | _ | _ | _, _⟩ | _
    · exact Run.append_apply text state
    · exact hpure
    · exact hinner
    · exact hinner
    · exact hinner
    · exact hpure
    · exact hinner

/-- Collecting the texts of several kept nodes with known rules adds what is kept of them. -/
theorem recollectAll_eq (g : Grammar) (statements : List Statement) (derivations : List Derivation) (state : State)
    (h : Statement.KnownOfList g statements derivations) :
    recollectAll g statements derivations state =
      .ok ((), state.adding (Statement.keptOfList g statements derivations)) := by
  match statements, derivations with
  | [], _ =>
    rw [Statement.keptOfList_nil, State.adding_empty, recollectAll]
    · rfl
    · simp
  | s :: statements, [] => 
    rw [Statement.keptOfList, State.adding_empty, recollectAll]
    · rfl
    · simp
    · simp
  | s :: statements, d :: derivations =>
    rw [Statement.KnownOfList] at h
    rw [recollectAll, Run.bind_apply, recollect_eq g s d state h.1]
    simp only [bind, Except.bind]
    rw [recollectAll_eq g statements derivations _ h.2, State.adding_adding, Statement.keptOfList_cons]

end

mutual

/-- Adding the text of a node again adds one text, whatever the state. -/
theorem recollect_adds (g : Grammar) (s : Statement) (d : Derivation) : Run.Adds g (recollect g s d) := by
  cases s with
  | leaf id region text =>
    rw [recollect]
    refine .rule fun known => ?_
    split
    · exact .append _
    · exact .nothing
  | group id region children =>
    rw [recollect]
    refine .rule fun known => ?_
    split
    · exact .append _
    · exact .nothing
    · exact .nothing
    · exact recollectAll_adds g children d.children
  | value id region name text body =>
    rw [recollect]
    refine .rule fun known => ?_
    split
    · exact .append _
    · exact .nothing
    · exact .nothing
    · split
      · exact .nothing
      · exact recollect_adds g body _

/-- Collecting the texts of several kept nodes adds a text or fails for want of a rule. -/
theorem recollectAll_adds (g : Grammar) (statements : List Statement) (derivations : List Derivation) :
    Run.Adds g (recollectAll g statements derivations) := by
  match statements, derivations with
  | s :: statements, d :: derivations =>
    rw [recollectAll]
    exact (recollect_adds g s d).andThen (recollectAll_adds g statements derivations)
  | [], _ =>
    rw [recollectAll]
    · exact .nothing
    · simp
  | _ :: _, [] =>
    rw [recollectAll]
    · exact .nothing
    · simp

end

end Engine

end Graft
