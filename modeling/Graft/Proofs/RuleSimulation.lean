import Graft.Proofs.Simulation

/-!
# Rules come to their readings

Containers, values, invocations and consume rules, run on attempts that come to readings, come to the readings of the rules.
With the memo around them so do whole attempts, level by level.
-/

namespace Graft

open Filter Engine

variable [Pattern.Compiler]

/-! ## Readings of containers -/

namespace Reading

/-- An edge none of whose attempts succeeded leaves the children as they were. -/
theorem children_of_unmatched {R : Oracle} {budget : Nat} {q q1 : Progress} (h : readLane R budget q = some q1)
    (hm : q1.matched = false) : q.matched = false ∧ q1.gathering.children = q.gathering.children := by
  induction budget generalizing q with
  | zero => cases h
  | succ budget ih =>
    obtain ⟨_, rfl⟩ | ⟨a, _, _, ⟨_, hrest⟩ | ⟨_, rfl⟩⟩ := readLane_cases h
    · exact ⟨hm, rfl⟩
    · obtain ⟨hmatched, hchildren⟩ := ih hrest
      obtain ⟨hq, hs⟩ := (q.matched_accept a).1 hmatched
      rw [Progress.accept_failure hs] at hchildren
      exact ⟨hq, hchildren⟩
    · obtain ⟨hq, hs⟩ := (q.matched_accept a).1 hm
      rw [Progress.accept_failure hs]
      exact ⟨hq, rfl⟩

/-- A choice that comes to nothing has gathered nothing. -/
theorem children_of_none {R : Oracle} {input : String} {live : Context} {entries : List (Edge × Nat)} {g g1 : Gathering}
    (h : readFirst R input live entries g = some (.none, g1)) : g1.children = g.children := by
  induction entries generalizing g with
  | nil =>
    cases h
    rfl
  | cons entry entries ih =>
    obtain ⟨lane, q, _, hq, ⟨_, hc, _⟩ | ⟨_, _, hc, _⟩ | ⟨_, hm, hrest⟩⟩ := readFirst_cases h
    · cases hc
    · cases hc
    · rw [ih hrest, (children_of_unmatched hq hm).2]

theorem keptBelow_succeed (grammar : Grammar) (id : NodeId) (g : Gathering) (rule : RuleId) (chosen : Option Nat) :
    (succeed id g rule chosen).keptBelow grammar = g.kept grammar := rfl

/-- A container that is no value keeps what its children keep. -/
theorem kept_succeed {grammar : Grammar} {rule : RuleId} {kind : ContainerKind} {edges : List Edge}
    (hr : grammar.body? rule = some (.container kind edges)) (hk : ∀ nonEmpty, kind ≠ .value nonEmpty) (id : NodeId)
    (g : Gathering) (chosen : Option Nat) : (succeed id g rule chosen).kept grammar = g.kept grammar := by
  simp only [succeed, Attempt.kept, Attempt.success, Gathering.statement, Gathering.derivation, Statement.kept,
    Derivation.rule, hr]
  cases kind with
  | value nonEmpty => exact absurd rfl (hk nonEmpty)
  | inOrder => rfl
  | anyOrder => rfl
  | firstOrder => rfl

/-- A value keeps nothing for what is around it. -/
theorem kept_valueOf {grammar : Grammar} {rule : RuleId} {nonEmpty : Bool} {edges : List Edge}
    (hr : grammar.body? rule = some (.container (.value nonEmpty) edges)) (name : String) (body : Attempt) :
    (valueOf grammar rule name nonEmpty body).kept grammar = "" := by
  rw [valueOf]
  cases body.statement with
  | none => rfl
  | some s =>
    cases hc : nonEmpty && (body.keptBelow grammar).isEmpty with
    | true => simp only [hc, if_true]; rfl
    | false =>
      simp only [hc, Bool.false_eq_true, if_false, Attempt.kept, Attempt.success, Statement.kept, Derivation.around,
        Derivation.rule, hr]

/-- An invocation keeps what its target keeps. -/
theorem kept_wrap {grammar : Grammar} {rule : RuleId} {call : Invocation}
    (hr : grammar.body? rule = some (.invoke call)) (id : NodeId) (a : Attempt) :
    (wrap id rule call a).kept grammar = a.kept grammar := by
  obtain ⟨statement, d⟩ := a
  cases statement with
  | none => rfl
  | some s =>
    simp only [wrap, Attempt.kept, Attempt.success, Statement.kept, Derivation.around, Derivation.rule, hr,
      Derivation.children]
    rw [Statement.keptOfList_cons, Statement.keptOfList_nil, String.append_empty, Statement.kept_shown]

/-- What a container that is no value comes to keeps what its children keep. -/
theorem kept_container {grammar : Grammar} {input : String} {R : Oracle} {rule : RuleId} {known : Rule}
    {kind : ContainerKind} {edges : List Edge} {offset : Nat} {live : Context} {b : Attempt}
    (hr : grammar.body? rule = some (.container kind edges)) (hk : ∀ nonEmpty, kind ≠ .value nonEmpty)
    (h : container R grammar input rule known kind edges offset live = some b) :
    b.kept grammar = b.keptBelow grammar := by
  have hbody := body_of_container (P := fun _ _ _ _ => True) (fun _ _ _ _ _ => trivial) hr h
  cases hbody with
  | unmatched => rfl
  | matched id rules => rw [hr] at rules; cases rules
  | full id chosen rules plain gathered => exact kept_succeed hr hk id _ chosen
  | short => rfl
  | valued id inner name text rules =>
    rw [hr] at rules
    cases rules
    exact absurd rfl (hk _)
  | called id rules => rw [hr] at rules; cases rules

end Reading

/-! ## Rules -/

section

variable {setting : Setting} {excused : Prop} {ℓ : Filter Nat} [ℓ.NeBot] {depth : Nat} {m : Recasting}
  {attempts : Attempts} {R : Nat → Reading.Oracle} {edges : List Edge} {live : Context} {offset : Nat} {s : State}
  (hm : ∀ id, m.identity id = Reading.noId)
  (hR : ∀ n, Reading.Sound setting.grammar setting.input (R n))
  (hA : FreshDecides setting excused ℓ depth m attempts R) (hb : Text.isBoundary setting.input offset = true)

omit [ℓ.NeBot] in
/-- What a run and a reading have gathered makes containers that agree. -/
theorem Synced.succeed {base : State} {g g' : Gathering} (hm : ∀ id, m.identity id = Reading.noId)
    (h : Synced setting ℓ depth m R edges live offset base s g g') (rule : RuleId) (chosen : Option Nat) :
    Decides excused ℓ
      (fun a t b => a.recast m = b.recast m ∧ base.Steady setting depth t (b.keptBelow setting.grammar))
      (fun _ => some (Reading.succeed Reading.noId g' rule chosen)) (g.succeed rule chosen s) := by
  refine .ok ⟨Reading.succeed_same hm h.same _ _ rule chosen, ?_⟩
  rw [Reading.keptBelow_succeed]
  exact h.steady.of_eq rfl rfl rfl

omit [ℓ.NeBot] in
/-- What a run and a reading have gathered makes failures that agree, once the text is taken back. -/
theorem Synced.fail {base : State} {g g' : Gathering} (h : Synced setting ℓ depth m R edges live offset base s g g')
    (rule : RuleId) :
    Decides excused ℓ
      (fun a t b => a.recast m = b.recast m ∧ base.Steady setting depth t (b.keptBelow setting.grammar))
      (fun _ => some (g'.fail rule))
      ((Run.rollback (Text.size (Run.innermost base.collected)) >>= fun _ => pure (g.fail rule)) s) :=
  .ok ⟨Reading.fail_same h.same rule, h.steady.rollback⟩

include hm hR hA hb in
/-- A container in order comes to its reading, and adds what its children keep. -/
theorem inOrder_decides (rule : RuleId) {earliers : Earliers}
    (hE : EarliersDecide setting excused ℓ depth m attempts R edges live earliers) (hs : s.Ready setting depth) :
    Decides excused ℓ
      (fun a t b => a.recast m = b.recast m ∧ s.Steady setting depth t (b.keptBelow setting.grammar))
      (fun n => Reading.inOrder (R n) setting.input rule edges offset live)
      (inOrder setting attempts rule edges earliers offset live s) := by
  rw [inOrder, Run.mark_bind]
  simp only [Reading.inOrder, Option.bind_eq_bind]
  refine Decides.bind
    (readInOrder_decides hR hA hb rule hE Reading.getElem?_of_mem_zipIdx (.begin (m := m) (ℓ := ℓ) hs)) ?_
  rintro ⟨complete, g⟩ t ⟨complete', g'⟩ ⟨h1, h2⟩ _
  simp only at h1 h2
  subst h1
  cases complete with
  | true => exact h2.succeed hm rule none
  | false => exact h2.fail rule

include hm hR hA hb in
/-- A container in any order, none of whose children was read before, comes to its reading. -/
theorem anyOrder_decides (rule : RuleId) {earliers : Earliers} (he : earliers.children = [])
    (hs : s.Ready setting depth) :
    Decides excused ℓ
      (fun a t b => a.recast m = b.recast m ∧ s.Steady setting depth t (b.keptBelow setting.grammar))
      (fun n => Reading.anyOrder (R n) setting.input rule edges offset live)
      (anyOrder setting attempts rule edges earliers offset live s) := by
  rw [anyOrder, Run.mark_bind]
  simp only [Reading.anyOrder, Option.bind_eq_bind]
  refine Decides.bind openAll_decides ?_
  rintro lanes t lanes' ⟨rfl, rfl⟩ hlanes
  obtain ⟨_, hlanes⟩ := hlanes.exists
  rw [he, replay, LawfulMonad.pure_bind]
  refine Decides.bind (scanAll_decides hR hA hb rule _ (Reading.openAll_opens Reading.getElem?_of_mem_zipIdx hlanes)
    (.begin (m := m) (ℓ := ℓ) hs)) ?_
  rintro ⟨lanes1, g⟩ t1 ⟨lanes1', g'⟩ ⟨h1, h2⟩ _
  simp only at h1 h2
  subst h1
  cases hv : lanes1.all (·.counter.isValid) with
  | true =>
    simp only [if_true]
    exact h2.succeed hm rule none
  | false =>
    simp only [Bool.false_eq_true, if_false]
    exact h2.fail rule

include hm hR hA hb in
/-- A container of the first that fits comes to its reading. -/
theorem firstOrder_decides (rule : RuleId) {earliers : Earliers}
    (hE : EarliersDecide setting excused ℓ depth m attempts R edges live earliers) (hs : s.Ready setting depth) :
    Decides excused ℓ
      (fun a t b => a.recast m = b.recast m ∧ s.Steady setting depth t (b.keptBelow setting.grammar))
      (fun n => Reading.firstOrder (R n) setting.input rule edges offset live)
      (firstOrder setting attempts rule edges earliers offset live s) := by
  rw [firstOrder, Run.mark_bind]
  simp only [Reading.firstOrder, Option.bind_eq_bind]
  refine Decides.bind
    (readFirst_decides hR hA hb rule hE Reading.getElem?_of_mem_zipIdx (.begin (m := m) (ℓ := ℓ) hs)) ?_
  rintro ⟨choice, g⟩ t ⟨choice', g'⟩ ⟨h1, h2⟩ hlevel
  simp only at h1 h2
  subst h1
  cases choice with
  | chosen index => exact h2.succeed hm rule (some index)
  | broken => exact h2.fail rule
  | none =>
    -- no edge has matched, so there is no text to take back
    obtain ⟨_, hn⟩ := hlevel.exists
    have hkept : g'.kept setting.grammar = "" := by
      rw [Gathering.kept, Reading.children_of_none hn]
      exact Gathering.kept_begin setting.grammar offset
    refine .ok ⟨Reading.fail_same h2.same rule, ?_⟩
    have h3 := h2.steady
    rw [hkept] at h3
    exact h3

include hm in
/-- What a value makes of its body agrees with the value of a reading that its body agrees with. -/
theorem valueOf_same {a b : Attempt} {rule : RuleId} {name : String} {nonEmpty : Bool}
    (h : a.recast m = b.recast m) :
    (Reading.valueOf setting.grammar rule name nonEmpty a).recast m =
      (Reading.valueOf setting.grammar rule name nonEmpty b).recast m := by
  rw [Reading.valueOf_recast m (hm _), Reading.valueOf_recast m (hm _), h]

include hm hR hA hb in
/-- A value comes to its reading, and adds nothing to the value around it. -/
theorem value_decides {rule : RuleId} (name : String) {nonEmpty : Bool}
    (hr : setting.grammar.body? rule = some (.container (.value nonEmpty) edges)) {earliers : Earliers}
    (hE : EarliersDecide setting excused ℓ depth m attempts R edges live earliers) (hs : s.Ready setting depth) :
    Decides excused ℓ (Agrees setting depth m none s)
      (fun n => (Reading.inOrder (R n) setting.input rule edges offset live).map
        (Reading.valueOf setting.grammar rule name nonEmpty))
      (value setting attempts rule name nonEmpty edges earliers offset live s) := by
  rw [value, Run.openValue_bind]
  have hopen : State.Ready setting depth { s with collected := "" :: s.collected } :=
    ⟨hs.depth, List.cons_ne_nil _ _, hs.memo⟩
  simp only [Option.map_eq_bind]
  refine Decides.bind (inOrder_decides hm hR hA hb rule hE hopen) ?_
  rintro a t b ⟨h1, h2⟩ _
  have htext : Run.innermost t.collected = a.keptBelow setting.grammar := by
    rw [h2.collected, ← Attempt.keptBelow_recast setting.grammar m a, h1, Attempt.keptBelow_recast]
    exact String.empty_append
  have houter : t.collected.drop 1 = s.collected := by
    rw [h2.collected]
    rfl
  have hsame : (Reading.valueOf setting.grammar rule name nonEmpty a).recast m =
      (Reading.valueOf setting.grammar rule name nonEmpty b).recast m := valueOf_same hm h1
  have hsteady : ∀ u : State, u.memo = t.memo → u.depth = t.depth → u.collected = t.collected.drop 1 →
      s.Steady setting depth u ((Reading.valueOf setting.grammar rule name nonEmpty b).kept setting.grammar) := by
    intro u hm hd hc
    rw [Reading.kept_valueOf hr]
    refine ⟨⟨by rw [hd]; exact h2.ready.depth, ?_, by rw [hm]; exact h2.ready.memo⟩, ?_⟩
    · rw [hc, houter]
      exact hs.collected
    · rw [hc, houter, State.adding_empty]
  rw [Run.closeValue_bind, htext]
  rw [← Reading.shownAttempt_none (Reading.valueOf setting.grammar rule name nonEmpty a),
    ← Reading.shownAttempt_none (Reading.valueOf setting.grammar rule name nonEmpty b), Reading.valueOf] at hsame
  cases ha : a.statement with
  | none =>
    simp only [ha] at hsame
    exact .ok ⟨hsame, hsteady _ rfl rfl rfl⟩
  | some statement =>
    simp only [ha] at hsame
    cases he : nonEmpty && (a.keptBelow setting.grammar).isEmpty with
    | true =>
      simp only [he, if_true] at hsame
      exact .ok ⟨hsame, hsteady _ rfl rfl rfl⟩
    | false =>
      simp only [he, Bool.false_eq_true, if_false] at hsame
      refine .ok ⟨?_, hsteady _ rfl rfl rfl⟩
      rw [← hsame]
      simp only [Reading.shownAttempt_none, Attempt.success_recast, Statement.recast_value, hm]

/-- How an earlier tree may help a container: its edges may attempt their children again, and where it is in any order it
comes to its reading on them. -/
structure EarliersHelp (setting : Setting) (excused : Prop) (ℓ : Filter Nat) (depth : Nat) (m : Recasting)
    (attempts : Attempts) (R : Nat → Reading.Oracle) (kind : ContainerKind) (edges : List Edge) (live : Context)
    (earliers : Earliers) : Prop where
  again : EarliersDecide setting excused ℓ depth m attempts R edges live earliers
  replayed : kind = .anyOrder → ∀ rule offset s, Text.isBoundary setting.input offset = true → s.Ready setting depth →
    Decides excused ℓ
      (fun a t b => a.recast m = b.recast m ∧ s.Steady setting depth t (b.keptBelow setting.grammar))
      (fun n => Reading.anyOrder (R n) setting.input rule edges offset live)
      (anyOrder setting attempts rule edges earliers offset live s)

include hm hR hA in
theorem EarliersHelp.none (kind : ContainerKind) :
    EarliersHelp setting excused ℓ depth m attempts R kind edges live {} :=
  ⟨.none, fun _ rule _ _ hb hs => anyOrder_decides hm hR hA hb rule rfl hs⟩

include hm hR hA hb in
/-- Every container comes to its reading. -/
theorem container_decides {rule : RuleId} (known : Rule) {kind : ContainerKind}
    (hr : setting.grammar.body? rule = some (.container kind edges)) {earliers : Earliers}
    (hE : EarliersHelp setting excused ℓ depth m attempts R kind edges live earliers) (hs : s.Ready setting depth) :
    Decides excused ℓ (Agrees setting depth m none s)
      (fun n => Reading.container (R n) setting.grammar setting.input rule known kind edges offset live)
      (container setting attempts rule known kind edges earliers offset live s) := by
  have hplain : ∀ (hk : ∀ nonEmpty, kind ≠ .value nonEmpty) {x : Except Fault (Attempt × State)},
      Decides excused ℓ
        (fun a t b => a.recast m = b.recast m ∧ s.Steady setting depth t (b.keptBelow setting.grammar))
        (fun n => Reading.container (R n) setting.grammar setting.input rule known kind edges offset live) x →
      Decides excused ℓ (Agrees setting depth m Option.none s)
        (fun n => Reading.container (R n) setting.grammar setting.input rule known kind edges offset live) x := by
    intro hk x hx
    refine hx.mono ?_
    rintro a t b ⟨h1, h2⟩ hlevel
    obtain ⟨_, hn⟩ := hlevel.exists
    refine ⟨by rw [Reading.shownAttempt_none, Reading.shownAttempt_none, h1], ?_⟩
    rw [Reading.kept_container hr hk hn]
    exact h2
  cases kind with
  | inOrder => exact hplain (by simp) (inOrder_decides hm hR hA hb rule hE.again hs)
  | anyOrder => exact hplain (by simp) (hE.replayed rfl rule offset s hb hs)
  | firstOrder => exact hplain (by simp) (firstOrder_decides hm hR hA hb rule hE.again hs)
  | value nonEmpty => exact value_decides hm hR hA hb _ hr hE.again hs

omit [ℓ.NeBot] in
/-- Attempts that agree still do so under another name. -/
theorem Agrees.shown {a b : Attempt} {t : State} (h : Agrees setting depth m none s a t b) (name : Option String) :
    Agrees setting depth m name s a t b := by
  have h1 := h.same
  rw [Reading.shownAttempt_none, Reading.shownAttempt_none] at h1
  refine ⟨?_, h.steady⟩
  rw [Reading.shownAttempt_recast, Reading.shownAttempt_recast, h1]

omit [ℓ.NeBot] in
include hm in
/-- What an invocation makes of an attempt agrees with what it makes of a reading. -/
theorem wrap_decides {rule : RuleId} {call : Invocation} (hr : setting.grammar.body? rule = some (.invoke call))
    {a b : Attempt} {t : State} (h : Agrees setting depth m call.shownAs s a t b) :
    Decides excused ℓ (Agrees setting depth m none s) (fun _ => some (Reading.wrap Reading.noId rule call b))
      (wrap rule call a t) := by
  have hsame : ∀ id, (Reading.wrap id rule call a).recast m = (Reading.wrap Reading.noId rule call b).recast m := by
    intro id
    rw [← Reading.wrap_shownAttempt, ← Reading.wrap_shownAttempt _ _ _ b, Reading.wrap_recast, Reading.wrap_recast, h.same,
      hm, hm]
  have hsteady : s.Steady setting depth t ((Reading.wrap Reading.noId rule call b).kept setting.grammar) := by
    rw [Reading.kept_wrap hr]
    exact h.steady
  cases hstatement : a.statement with
  | none =>
    rw [Reading.wrap_of_none hstatement]
    exact .ok ⟨by rw [Reading.shownAttempt_none, Reading.shownAttempt_none]; exact hsame Reading.noId, hsteady⟩
  | some statement =>
    rw [Reading.wrap_of_some hstatement]
    refine .ok ⟨?_, hsteady.of_eq rfl rfl rfl⟩
    rw [Reading.shownAttempt_none, Reading.shownAttempt_none]
    exact hsame t.nextId

omit [ℓ.NeBot] in
include hm hA hb in
/-- An invocation comes to its reading, also on an earlier node of its target. -/
theorem invoke_decides {rule : RuleId} {call : Invocation} (hr : setting.grammar.body? rule = some (.invoke call))
    {earlier : Option Earlier} {context : Context}
    (hE : ∀ e target inside, earlier = some e → resolveCall setting.grammar call context = .ok (target, inside) →
      AgainDecides setting excused ℓ depth m attempts R call.shownAs target e inside)
    (hs : s.Ready setting depth) :
    Decides excused ℓ (Agrees setting depth m none s)
      (fun n => (resolveCall setting.grammar call context).toOption.bind fun callee =>
        (R n callee.1 offset callee.2).bind fun a => some (Reading.wrap Reading.noId rule call a))
      (invoke setting attempts rule call earlier offset context s) := by
  rw [invoke]
  refine Decides.lift_during (resolveCall_resolves _ _ _) ?_
  rintro ⟨target, inside⟩ hc
  cases earlier with
  | none =>
    refine Decides.bind (hA target offset inside s hb hs) ?_
    intro a t b hab _
    exact wrap_decides hm hr (hab.shown _)
  | some e =>
    refine Decides.bind (hE e target inside rfl hc offset s hb hs) ?_
    intro a t b hab _
    exact wrap_decides hm hr hab

omit [ℓ.NeBot] in
include hm hb in
/-- A consume rule comes to its reading. -/
theorem consume_decides {rule : RuleId} {kind : ConsumeKind} {binding : Binding}
    (hr : setting.grammar.body? rule = some (.consume kind binding)) {context : Context} (hs : s.Ready setting depth) :
    Decides excused ℓ (Agrees setting depth m none s)
      (fun _ => Reading.consume setting.input rule binding offset context)
      (consume setting rule kind binding offset context s) := by
  rw [consume]
  simp only [Reading.consume, Option.bind_eq_bind]
  refine Decides.lift_during (context.resolvePattern_resolves _) ?_
  intro pattern _
  rw [Run.matchAt_bind]
  simp only [hb, if_true, Reading.matched]
  cases hl : (pattern.matchFront ((Text.bytes setting.input).drop offset)).length with
  | none => exact .ok ⟨rfl, hs.steady⟩
  | some length =>
    simp only
    cases hc : Text.slice? setting.input offset (offset + length) with
    | none => exact .error (by simp [Fault.of, Fault.kind, Fault.Cause.kind])
    | some text =>
      simp only [Option.map_some]
      cases kind with
      | keep =>
        refine .ok ⟨by simp [hm], ?_⟩
        simp only [Attempt.kept, Attempt.success, Statement.kept, Derivation.rule, hr]
        exact (hs.steady_adding text).of_eq rfl rfl rfl
      | skip =>
        refine .ok ⟨by simp [hm], ?_⟩
        simp only [Attempt.kept, Attempt.success, Statement.kept, Derivation.rule, hr]
        exact hs.steady.of_eq rfl rfl rfl

end

end Graft
