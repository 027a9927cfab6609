import Graft.Proofs.Lanes
import Graft.Proofs.Likeness

/-!
# Rules side by side

The loops and rules of the engine, run on attempts that are alike, are alike. What they gather is the same up to identities at
every step, so they take the same turns and attempt the same rules at the same offsets, from scratch and on the same earlier
nodes.
-/

namespace Graft

open Engine

variable [Pattern.Compiler]

section

variable {σ τ : Setting} {L : Likeness σ τ} {A B : Attempts}

/-! ## Lanes -/

omit [Pattern.Compiler] in
/-- Gatherings that are the same up to identities go on at the same offset. -/
theorem Engine.Gathering.cursor_eq {g g' : Gathering} (h : g.recast .bare = g'.recast .bare) : g.cursor = g'.cursor :=
  Nat.add_right_cancel (congrArg Gathering.cursor h)

/-- What has been read of an edge is the same up to identities when what has been gathered is. -/
theorem Engine.Progress.same {g g' : Gathering} (h : g.recast .bare = g'.recast .bare) (lane : Lane) (matched : Bool) :
    Progress.recast .bare { gathering := g, lane, matched } = Progress.recast .bare { gathering := g', lane, matched } := by
  rw [Progress.recast, Progress.recast, h]

/-- The lane and its first match are told by no identity. -/
theorem Engine.Progress.of_same {q q' : Progress} (h : q.recast .bare = q'.recast .bare) :
    q.lane = q'.lane ∧ q.matched = q'.matched ∧ q.gathering.recast .bare = q'.gathering.recast .bare :=
  ⟨(congrArg Progress.lane h :), (congrArg Progress.matched h :), (congrArg Progress.gathering h :)⟩

/-- Earlier children are read again alike: each attempt begins where the other one does, and ends a turn when that does. -/
theorem readAgain_alike {earlier : List Earlier} (he : ∀ node ∈ earlier, L.Again A B node) {q q' : Progress}
    (h : q.recast .bare = q'.recast .bare) :
    L.Alike (fun r r' => r.1 = r'.1 ∧ r.2.recast .bare = r'.2.recast .bare) (readAgain A earlier q)
      (readAgain B earlier q') := by
  induction earlier generalizing q q' with
  | nil => exact L.pure ⟨rfl, h⟩
  | cons node rest ih =>
    obtain ⟨hlane, _, hgathering⟩ := Progress.of_same h
    obtain ⟨hfirst, hrest⟩ := List.forall_mem_cons.1 he
    rw [readAgain_cons, readAgain_cons, hlane, Gathering.cursor_eq hgathering]
    split
    · refine L.bind (hfirst _ _ _) fun a b hab => ?_
      obtain ⟨hstep, hprogress⟩ := Progress.accept_congr h hab
      rw [hstep]
      split
      · exact ih hrest hprogress
      · exact L.pure ⟨rfl, hprogress⟩
    · exact L.pure ⟨rfl, h⟩

/-- A container in any order replays its earlier children alike. -/
theorem replay_alike {children : List (Nat × Earlier)} (he : ∀ child ∈ children, L.Again A B child.2) (lanes : List Lane)
    {g g' : Gathering} (h : g.recast .bare = g'.recast .bare) :
    L.Alike (fun r r' => r.1 = r'.1 ∧ r.2.recast .bare = r'.2.recast .bare) (replay A children lanes g)
      (replay B children lanes g') := by
  induction children generalizing lanes g g' with
  | nil => exact L.pure ⟨rfl, h⟩
  | cons child rest ih =>
    rw [replay, replay, Gathering.cursor_eq h]
    split
    · exact L.pure ⟨rfl, h⟩
    · rename_i lane _
      split
      · refine L.bind (he child (List.mem_cons_self ..) _ _ _) fun a b hab => ?_
        obtain ⟨hstep, hprogress⟩ := Progress.accept_congr (Progress.same h lane false) hab
        obtain ⟨hlane, _, hgathering⟩ := Progress.of_same hprogress
        simp only [hstep, hlane]
        split
        · exact L.pure ⟨rfl, hgathering⟩
        · exact ih (fun c hc => he c (List.mem_cons_of_mem _ hc)) _ hgathering
      · exact L.pure ⟨rfl, h⟩

variable (hA : L.Fresh A B)
include hA

/-- An edge is read from scratch alike, in as many turns. -/
theorem readFresh_alike (owner : RuleId) (budget : Nat) {q q' : Progress} (h : q.recast .bare = q'.recast .bare) :
    L.Alike (fun p p' => p.recast .bare = p'.recast .bare) (readFresh A owner budget q) (readFresh B owner budget q') := by
  induction budget generalizing q q' with
  | zero => exact L.fail _
  | succ budget ih =>
    obtain ⟨hlane, hmatched, hgathering⟩ := Progress.of_same h
    rw [readFresh_succ, readFresh_succ, hlane, Gathering.cursor_eq hgathering]
    split
    · refine L.bind (hA _ _ _) fun a b hab => ?_
      obtain ⟨hstep, hprogress⟩ := Progress.accept_congr h hab
      rw [hstep]
      split
      · exact ih hprogress
      · exact L.pure hprogress
    · exact L.pure h

/-- What is left of the text bounds the turns of an edge on both sides, so the edge is read alike, again and then from scratch.
-/
theorem readLane_alike (owner : RuleId) {earlier : List Earlier} (he : ∀ node ∈ earlier, L.Again A B node) (lane : Lane)
    {g g' : Gathering} (h : g.recast .bare = g'.recast .bare) :
    L.Alike (fun p p' => p.recast .bare = p'.recast .bare) (readLane σ A owner earlier { gathering := g, lane })
      (readLane τ B owner earlier { gathering := g', lane }) := by
  rw [readLane, readLane]
  refine L.bind (readAgain_alike he (Progress.same h lane false)) ?_
  rintro ⟨done, q⟩ ⟨done', q'⟩ ⟨h1, h2⟩
  simp only at h1 h2
  subst h1
  cases done with
  | true => exact L.pure h2
  | false =>
    have hbudget : τ.remaining q'.gathering.cursor = σ.remaining q.gathering.cursor := by
      rw [L.remaining_eq, Gathering.cursor_eq (Progress.of_same h2).2.2]
    simp only [Bool.false_eq_true, if_false, hbudget]
    exact readFresh_alike hA owner _ h2

/-! ## Loops over edges -/

section

variable {earliers : Earliers} (he : ∀ child ∈ earliers.children, L.Again A B child.2)
include he

omit hA in
/-- The earlier children of one edge are among those of the container. -/
theorem ofEdge_alike (index : Nat) : ∀ node ∈ earliers.ofEdge index, L.Again A B node :=
  fun node hnode => he (index, node) (Earliers.mem_ofEdge.1 hnode)

/-- Edges are read one after the other alike. -/
theorem readInOrder_alike (owner : RuleId) (live : Context) (entries : List (Edge × Nat)) {g g' : Gathering}
    (h : g.recast .bare = g'.recast .bare) :
    L.Alike (fun r r' => r.1 = r'.1 ∧ r.2.recast .bare = r'.2.recast .bare)
      (readInOrder σ A owner live earliers entries g) (readInOrder τ B owner live earliers entries g') := by
  induction entries generalizing g g' with
  | nil => exact L.pure ⟨rfl, h⟩
  | cons entry entries ih =>
    rw [readInOrder, readInOrder]
    refine L.bind (L.lift _) ?_
    rintro lane _ rfl
    refine L.bind (readLane_alike hA owner (ofEdge_alike he entry.2) lane h) fun p p' hp => ?_
    obtain ⟨hlane, _, hgathering⟩ := Progress.of_same hp
    rw [hlane]
    split
    · exact ih hgathering
    · exact L.pure ⟨rfl, hgathering⟩

/-- The first edge that will do is the same on both sides. -/
theorem readFirst_alike (owner : RuleId) (live : Context) (entries : List (Edge × Nat)) {g g' : Gathering}
    (h : g.recast .bare = g'.recast .bare) :
    L.Alike (fun r r' => r.1 = r'.1 ∧ r.2.recast .bare = r'.2.recast .bare)
      (readFirst σ A owner live earliers entries g) (readFirst τ B owner live earliers entries g') := by
  induction entries generalizing g g' with
  | nil => exact L.pure ⟨rfl, h⟩
  | cons entry entries ih =>
    have hchosen := Earliers.forall_mem_chosen (ofEdge_alike he entry.2)
    rw [readFirst, readFirst]
    refine L.bind (L.lift _) ?_
    rintro lane _ rfl
    refine L.bind (readLane_alike hA owner hchosen lane h) fun p p' hp => ?_
    obtain ⟨hlane, hmatched, hgathering⟩ := Progress.of_same hp
    rw [hlane, hmatched]
    split
    · exact L.pure ⟨rfl, hgathering⟩
    · split
      · exact L.pure ⟨rfl, hgathering⟩
      · exact ih hgathering

end

omit hA in
/-- Opening lanes takes no attempt. -/
theorem openAll_alike (live : Context) (entries : List (Edge × Nat)) :
    L.Alike (· = ·) (entries.mapM fun entry => (liftM (Lane.open entry.2 entry.1 live) : Run Lane))
      (entries.mapM fun entry => (liftM (Lane.open entry.2 entry.1 live) : Run Lane)) := by
  rw [Run.mapM_liftM]
  exact L.lift _

/-- A scan tries the same edges and finds something where the other one does. -/
theorem scan_alike (lanes : List Lane) {g g' : Gathering} (h : g.recast .bare = g'.recast .bare) :
    L.Alike (fun r r' => r.1 = r'.1 ∧ r.2.1 = r'.2.1 ∧ r.2.2.recast .bare = r'.2.2.recast .bare) (scan A lanes g)
      (scan B lanes g') := by
  induction lanes generalizing g g' with
  | nil => exact L.pure ⟨rfl, rfl, h⟩
  | cons lane lanes ih =>
    rw [scan, scan, Gathering.cursor_eq h]
    split
    · refine L.bind (hA _ _ _) fun a b hab => ?_
      obtain ⟨hstep, hprogress⟩ := Progress.accept_congr (Progress.same h lane false) hab
      obtain ⟨hlane, _, hgathering⟩ := Progress.of_same hprogress
      simp only [hstep, hlane]
      split
      · exact L.pure ⟨rfl, rfl, hgathering⟩
      · refine L.bind (ih hgathering) ?_
        rintro ⟨found, lanes1, g1⟩ ⟨found', lanes1', g1'⟩ ⟨h1, h2, h3⟩
        simp only at h1 h2
        exact L.pure ⟨h1, by simp only [h2], h3⟩
    · refine L.bind (ih h) ?_
      rintro ⟨found, lanes1, g1⟩ ⟨found', lanes1', g1'⟩ ⟨h1, h2, h3⟩
      simp only at h1 h2
      exact L.pure ⟨h1, by simp only [h2], h3⟩

/-- Both sides scan as often. -/
theorem scanAll_alike (owner : RuleId) (budget : Nat) (lanes : List Lane) {g g' : Gathering}
    (h : g.recast .bare = g'.recast .bare) :
    L.Alike (fun r r' => r.1 = r'.1 ∧ r.2.recast .bare = r'.2.recast .bare) (scanAll A owner budget lanes g)
      (scanAll B owner budget lanes g') := by
  induction budget generalizing lanes g g' with
  | zero => exact L.fail _
  | succ budget ih =>
    rw [scanAll, scanAll]
    refine L.bind (scan_alike hA lanes h) ?_
    rintro ⟨found, lanes1, g1⟩ ⟨found', lanes1', g1'⟩ ⟨h1, h2, h3⟩
    simp only at h1 h2
    subst h1 h2
    cases found with
    | true => exact ih _ h3
    | false => exact L.pure ⟨rfl, h3⟩

/-! ## Containers -/

omit hA in
/-- What is gathered becomes the same group, under an identity of its own on each side. -/
theorem succeed_alike {g g' : Gathering} (h : g.recast .bare = g'.recast .bare) (rule : RuleId) (chosen : Option Nat) :
    L.Alike Attempt.Same (g.succeed rule chosen) (g'.succeed rule chosen) :=
  L.bind L.freshId fun id id' _ => L.pure (Reading.succeed_same (fun _ => rfl) h id id' rule chosen)

section

variable {earliers : Earliers} (he : ∀ child ∈ earliers.children, L.Again A B child.2)
include he

/-- A container in order is read alike. -/
theorem inOrder_alike (rule : RuleId) (edges : List Edge) (offset : Nat) (live : Context) :
    L.Alike Attempt.Same (inOrder σ A rule edges earliers offset live) (inOrder τ B rule edges earliers offset live) := by
  rw [inOrder, inOrder]
  refine L.marked (readInOrder_alike hA he rule live edges.zipIdx (g := .begin offset) rfl) ?_
  rintro ⟨complete, g⟩ ⟨complete', g'⟩ ⟨h1, h2⟩
  simp only at h1 h2
  subst h1
  cases complete with
  | true => exact Or.inl fun _ _ => succeed_alike h2 rule none
  | false => exact Or.inr ⟨g.fail rule, g'.fail rule, Reading.fail_same h2 rule, fun _ => rfl, fun _ => rfl⟩

/-- A container in any order is read alike: its earlier children first, then its scans. -/
theorem anyOrder_alike (rule : RuleId) (edges : List Edge) (offset : Nat) (live : Context) :
    L.Alike Attempt.Same (anyOrder σ A rule edges earliers offset live)
      (anyOrder τ B rule edges earliers offset live) := by
  -- all that is read stands between the mark and what becomes of it
  have hread : L.Alike (fun r r' => r.1 = r'.1 ∧ r.2.recast .bare = r'.2.recast .bare)
      ((edges.zipIdx.mapM fun entry => (liftM (Lane.open entry.2 entry.1 live) : Run Lane)) >>= fun lanes =>
        replay A earliers.children lanes (.begin offset) >>= fun r =>
          scanAll A rule (σ.remaining r.2.cursor + 1) r.1 r.2)
      ((edges.zipIdx.mapM fun entry => (liftM (Lane.open entry.2 entry.1 live) : Run Lane)) >>= fun lanes =>
        replay B earliers.children lanes (.begin offset) >>= fun r =>
          scanAll B rule (τ.remaining r.2.cursor + 1) r.1 r.2) := by
    refine L.bind (openAll_alike live edges.zipIdx) ?_
    rintro lanes _ rfl
    refine L.bind (replay_alike he lanes (g := .begin offset) rfl) ?_
    rintro ⟨lanes1, g1⟩ ⟨lanes1', g1'⟩ ⟨h1, h2⟩
    simp only at h1 h2
    subst h1
    simp only [L.remaining_eq, Gathering.cursor_eq h2]
    exact scanAll_alike hA rule _ lanes1 h2
  have h := L.marked (S := Attempt.Same)
    (f := fun mark r => if r.1.all (·.counter.isValid) then r.2.succeed rule none else Run.giveUp mark (r.2.fail rule))
    (g := fun mark r => if r.1.all (·.counter.isValid) then r.2.succeed rule none else Run.giveUp mark (r.2.fail rule))
    hread ?_
  · simp only [bind_assoc] at h
    exact h
  · rintro ⟨lanes, g⟩ ⟨lanes', g'⟩ ⟨h1, h2⟩
    simp only at h1 h2
    subst h1
    simp only
    split
    · exact Or.inl fun _ _ => succeed_alike h2 rule none
    · exact Or.inr ⟨_, _, Reading.fail_same h2 rule, fun _ => rfl, fun _ => rfl⟩

/-- A container of the first of its children that fits is read alike. -/
theorem firstOrder_alike (rule : RuleId) (edges : List Edge) (offset : Nat) (live : Context) :
    L.Alike Attempt.Same (firstOrder σ A rule edges earliers offset live)
      (firstOrder τ B rule edges earliers offset live) := by
  rw [firstOrder, firstOrder]
  refine L.marked (readFirst_alike hA he rule live edges.zipIdx (g := .begin offset) rfl) ?_
  rintro ⟨choice, g⟩ ⟨choice', g'⟩ ⟨h1, h2⟩
  simp only at h1 h2
  subst h1
  cases choice with
  | chosen index => exact Or.inl fun _ _ => succeed_alike h2 rule (some index)
  | broken => exact Or.inr ⟨g.fail rule, g'.fail rule, Reading.fail_same h2 rule, fun _ => rfl, fun _ => rfl⟩
  | none => exact Or.inl fun _ _ => L.pure (Reading.fail_same h2 rule)

/-- A value is read alike. Both sides collect its text, whose length says whether it may stand. -/
theorem value_alike (rule : RuleId) (name : String) (nonEmpty : Bool) (edges : List Edge) (offset : Nat) (live : Context) :
    L.Alike Attempt.Same (value σ A rule name nonEmpty edges earliers offset live)
      (value τ B rule name nonEmpty edges earliers offset live) := by
  rw [value, value]
  refine L.valued (inOrder_alike hA he rule edges offset live) fun a b text hsame => ?_
  have hderivation := Attempt.derivation_of_same hsame
  obtain ⟨sa, da⟩ := a
  obtain ⟨sb, db⟩ := b
  simp only at hderivation
  subst hderivation
  cases sa with
  | none =>
    obtain rfl : sb = none := Attempt.statement_none_of_same hsame rfl
    exact L.pure rfl
  | some u =>
    obtain ⟨v, rfl, hu⟩ : ∃ v, sb = some v ∧ u.recast .bare = v.recast .bare := Attempt.statement_some_of_same hsame rfl
    simp only
    split
    · exact L.pure rfl
    · refine L.bind L.freshId fun id id' _ => L.pure ?_
      rw [Attempt.Same, Attempt.success_recast, Attempt.success_recast, Statement.recast_value, Statement.recast_value, hu,
        Statement.region_of_same hu]
      rfl

/-- A container of any kind is read alike. -/
theorem container_alike (id : RuleId) (rule : Rule) (kind : ContainerKind) (edges : List Edge) (offset : Nat)
    (live : Context) :
    L.Alike Attempt.Same (container σ A id rule kind edges earliers offset live)
      (container τ B id rule kind edges earliers offset live) := by
  cases kind with
  | inOrder => exact inOrder_alike hA he id edges offset live
  | anyOrder => exact anyOrder_alike hA he id edges offset live
  | firstOrder => exact firstOrder_alike hA he id edges offset live
  | value nonEmpty => exact value_alike hA he id _ nonEmpty edges offset live

end

/-! ## Bodies of rules -/

omit hA in
/-- What a call comes to is shown alike. -/
theorem wrap_alike (rule : RuleId) (call : Invocation) {a b : Attempt} (h : a.Same b) :
    L.Alike Attempt.Same (wrap rule call a) (wrap rule call b) := by
  have hwrap : ∀ id id', (Reading.wrap id rule call a).Same (Reading.wrap id' rule call b) := by
    intro id id'
    rw [Attempt.Same, Reading.wrap_recast, Reading.wrap_recast, h]
    rfl
  cases ha : a.statement with
  | none =>
    rw [Reading.wrap_of_none ha, Reading.wrap_of_none (Attempt.statement_none_of_same h ha)]
    exact L.pure (hwrap Reading.noId Reading.noId)
  | some u =>
    obtain ⟨v, hv, _⟩ := Attempt.statement_some_of_same h ha
    rw [Reading.wrap_of_some ha, Reading.wrap_of_some hv]
    exact L.bind L.freshId fun id id' _ => L.pure (hwrap id id')

/-- A call resolves its target without an attempt, so it attempts the same rule on both sides. -/
theorem invoke_alike (rule : RuleId) (call : Invocation) {earlier : Option Earlier}
    (he : ∀ node ∈ earlier, L.Again A B node) (offset : Nat) (context : Context) :
    L.Alike Attempt.Same (invoke σ A rule call earlier offset context) (invoke τ B rule call earlier offset context) := by
  rw [invoke, invoke, L.grammar]
  refine L.bind (L.lift _) ?_
  rintro ⟨target, inside⟩ _ rfl
  cases earlier with
  | none => exact L.bind (hA target offset inside) fun a b hab => wrap_alike rule call hab
  | some node => exact L.bind (he node rfl target offset inside) fun a b hab => wrap_alike rule call hab

omit hA in
/-- A pattern is matched alike, as both sides read the same text there. -/
theorem consume_alike (rule : RuleId) (kind : ConsumeKind) (pattern : Binding) (offset : Nat) (context : Context) :
    L.Alike Attempt.Same (consume σ rule kind pattern offset context) (consume τ rule kind pattern offset context) := by
  rw [consume, consume]
  refine L.bind (L.lift _) ?_
  rintro pattern _ rfl
  refine L.bind (L.matchAt pattern offset) ?_
  rintro outcome _ rfl
  rw [L.input]
  cases outcome.length with
  | none => exact L.pure rfl
  | some length =>
    simp only
    cases Text.slice? σ.input offset (offset + length) with
    | none => exact L.fail _
    | some text =>
      cases kind with
      | keep => exact L.bind (L.append text) fun _ _ _ => L.bind L.freshId fun id id' _ => L.pure rfl
      | skip => exact L.bind L.freshId fun id id' _ => L.pure rfl

/-- The body of a rule is read alike from scratch. -/
theorem readBody_alike (id : RuleId) (offset : Nat) (context : Context) :
    L.Alike Attempt.Same (readBody σ A id offset context) (readBody τ B id offset context) := by
  rw [readBody, readBody, L.grammar]
  refine L.bind (L.lift _) ?_
  rintro rule _ rfl
  cases rule.body with
  | consume kind pattern => exact consume_alike id kind pattern offset context
  | container kind edges => exact container_alike hA (fun _ hc => absurd hc List.not_mem_nil) id rule kind edges offset context
  | invoke call => exact invoke_alike hA id call (fun _ hn => absurd hn (Option.not_mem_none _)) offset context

/-- A body is read again alike where all attempts again are alike. -/
theorem rereadBody_alike (hB : ∀ node, L.Again A B node) (id : RuleId) (s : Statement) (d : Derivation) (offset : Nat)
    (context : Context) :
    L.Alike Attempt.Same (rereadBody σ A id s d offset context) (rereadBody τ B id s d offset context) := by
  rw [rereadBody, rereadBody, L.grammar]
  refine L.bind (L.lift _) ?_
  rintro rule _ rfl
  cases rule.body with
  | consume kind pattern => exact consume_alike id kind pattern offset context
  | container kind edges => exact container_alike hA (fun child _ => hB child.2) id rule kind edges offset context
  | invoke call => exact invoke_alike hA id call (fun node _ => hB node) offset context

end

/-! ## Kept nodes -/

section

variable {σ τ : Setting} {L : Likeness σ τ}

/-- What a kept node adds to the value around it does not depend on the run. -/
theorem recollect_alike (grammar : Grammar) (s : Statement) (d : Derivation) :
    L.Alike (fun _ _ => True) (recollect grammar s d) (recollect grammar s d) := by
  obtain ⟨text, _, h⟩ := recollect_adds grammar s d
  rw [h]
  refine L.bind (L.lift text) ?_
  rintro added _ rfl
  exact L.append added

end

end Graft
