import Graft.Proofs.Earlier
import Graft.Proofs.Edits

/-!
# Readings under edits

A tree that is a reading of its text, up to identities, fits the rules of its nodes after it was moved by edits. A node that no
edit has touched is a reading of the edited text, because its rule looked at nothing that has changed; and the nodes below a
node were read by the rules that may attempt them again.
-/

namespace Graft

open Engine

/-! ## Trees that differ in identities -/

/-- Statements like those of some children are those of other children like them. -/
theorem Engine.Taken.exists_alike {f : Statement → Statement} {statements : List Statement} {children : List Taken}
    (h : statements.map f = (children.map (·.statement)).map f) :
    ∃ others : List Taken, statements = others.map (·.statement) ∧
      children.map (·.derivation) = others.map (·.derivation) ∧ children.map (·.edge) = others.map (·.edge) ∧
      ∀ other ∈ others, ∃ child ∈ children,
        other.edge = child.edge ∧ other.derivation = child.derivation ∧ f other.statement = f child.statement := by
  induction children generalizing statements with
  | nil =>
    obtain rfl : statements = [] := by simpa using h
    exact ⟨[], rfl, rfl, rfl, by simp⟩
  | cons child rest ih =>
    cases statements with
    | nil => cases h
    | cons s statements =>
      simp only [List.map_cons, List.cons.injEq] at h
      obtain ⟨others, h1, h2, h3, h4⟩ := ih h.2
      refine ⟨⟨child.edge, s, child.derivation⟩ :: others, ?_, ?_, ?_, ?_⟩
      · rw [List.map_cons, ← h1]
      · rw [List.map_cons, List.map_cons, h2]
      · rw [List.map_cons, List.map_cons, h3]
      · intro other hm
        rcases List.mem_cons.1 hm with rfl | hm
        · exact ⟨child, List.mem_cons_self .., rfl, rfl, h.1⟩
        · obtain ⟨found, h5, h6⟩ := h4 other hm
          exact ⟨found, List.mem_cons_of_mem _ h5, h6⟩

namespace Formed

/-- Whether a tree is well-formed does not depend on identities. -/
theorem congr {s t : Statement} {d : Derivation} (h : Formed t d) (hs : s.recast .bare = t.recast .bare) :
    Formed s d := by
  induction h generalizing s with
  | leaf hsits hn =>
    cases s <;> simp at hs
    obtain ⟨rfl, rfl⟩ := hs
    exact .leaf hsits hn
  | @group id region rule interest chosen children hsits hf hi ih =>
    cases s with
    | leaf => simp at hs
    | value => simp at hs
    | group id' region' statements =>
      simp only [Statement.recast_group, Recasting.identity_bare, Recasting.distance_bare, Region.movedBy_zero,
        Statement.group.injEq, true_and] at hs
      obtain ⟨rfl, hs⟩ := hs
      obtain ⟨others, rfl, h2, h3, h4⟩ := Taken.exists_alike hs
      rw [h2, h3]
      refine .group others hsits ?_ ?_
      · intro other hm
        obtain ⟨child, hc, _, h5, h6⟩ := h4 other hm
        rw [h5]
        exact ih child hc h6
      · intro other hm
        obtain ⟨child, hc, _, h5, h6⟩ := h4 other hm
        have h7 : other.statement.region = child.statement.region := by
          have h8 := congrArg Statement.region h6
          rw [Statement.region_recast, Statement.region_recast] at h8
          exact h8
        rw [h5, h7]
        exact hi child hc
  | @value id name text rule body inner hf ih =>
    cases s with
    | leaf => simp at hs
    | group => simp at hs
    | value id' region' name' text' body' =>
      simp only [Statement.recast_value, Recasting.identity_bare, Recasting.distance_bare, Region.movedBy_zero,
        Statement.value.injEq, true_and] at hs
      obtain ⟨rfl, rfl, rfl, hs⟩ := hs
      have h1 : body'.region = body.region := by
        have h2 := congrArg Statement.region hs
        rw [Statement.region_recast, Statement.region_recast] at h2
        exact h2
      rw [← h1]
      exact .value (ih hs)
  | @call id rule body inner hf ih =>
    cases s with
    | leaf => simp at hs
    | value => simp at hs
    | group id' region' statements =>
      simp only [Statement.recast_group, Recasting.identity_bare, Recasting.distance_bare, Region.movedBy_zero,
        Statement.group.injEq, true_and, List.map_cons, List.map_nil] at hs
      obtain ⟨rfl, hs⟩ := hs
      obtain ⟨body', rfl⟩ : ∃ body', statements = [body'] := List.length_eq_one_iff.1 (by simpa using congrArg List.length hs)
      have hbody : body'.recast .bare = body.recast .bare := by simpa using hs
      have h1 : body'.region = body.region := by
        have h2 := congrArg Statement.region hbody
        rw [Statement.region_recast, Statement.region_recast] at h2
        exact h2
      rw [← h1]
      exact .call (ih hbody)

/-- Whether a tree is well-formed does not depend on the name it is shown under. -/
theorem of_shown {s : Statement} {d : Derivation} {name : Option String} (h : Formed (Reading.shown name s) d) :
    Formed s d := by
  cases name with
  | none => exact h
  | some name =>
    cases s with
    | leaf => exact h
    | group => exact h
    | value id region own text body =>
      cases h with
      | value hf => exact .value hf

end Formed

namespace Reading

/-- Only a group shows like a group. -/
theorem same_of_shown_group {name : Option String} {s : Statement} {id : NodeId} {region : Region}
    {children : List Statement}
    (h : (shown name s).recast .bare = (shown name (.group id region children)).recast .bare) :
    s.recast .bare = (Statement.group id region children).recast .bare := by
  cases name with
  | none => exact h
  | some name =>
    cases s with
    | leaf => exact h
    | group => exact h
    | value => simp [shown, Statement.renamed] at h

/-- Only a value shows like a value. -/
theorem same_of_shown_value {name : Option String} {s : Statement} {id : NodeId} {region : Region} {own text : String}
    {body : Statement}
    (h : (shown name s).recast .bare = (shown name (.value id region own text body)).recast .bare) :
    ∃ id' region' own' text' body', s = .value id' region' own' text' body' ∧
      body'.recast .bare = body.recast .bare := by
  cases s with
  | leaf => cases name <;> simp [shown, Statement.renamed] at h
  | group => cases name <;> simp [shown, Statement.renamed] at h
  | value id' region' own' text' body' =>
    refine ⟨id', region', own', text', body', rfl, ?_⟩
    cases name <;> simp [shown, Statement.renamed] at h
    · exact h.2.2.2
    · exact h.2.2

end Reading

variable [Pattern.Compiler]

/-! ## Where children come from -/

/-- Every child that was gathered was read by its edge, at a boundary. -/
theorem Gathered.child {grammar : Grammar} {input : String} {P : Claim}
    (hP : ∀ r o c a, P r o c a → Covers grammar input r o c a) {edges : List Edge} {live : Context} {offset : Nat}
    (hb : Text.isBoundary input offset = true) {g : Gathering} (h : Gathered P edges live offset g) :
    ∀ child ∈ g.children, ∃ edge o, edges[child.edge]? = some edge ∧ Text.isBoundary input o = true ∧
      P edge.rule o (edge.context live) (.success child.statement child.derivation) := by
  induction h with
  | begin => simp [Gathering.begin]
  | @accept p a hg hl ha ih =>
    have hcursor := (Text.slice?_eq_some_iff.1 (hg.covers hP hb).text).2.1
    cases hs : a.statement with
    | none =>
      rw [Progress.accept_failure hs]
      exact ih
    | some s =>
      have hnew : ∃ edge o, edges[p.lane.index]? = some edge ∧ Text.isBoundary input o = true ∧
          P edge.rule o (edge.context live) (.success s a.derivation) := by
        refine ⟨p.lane.edge, p.gathering.cursor, hl.edge, hcursor, ?_⟩
        rw [← hl.context, Attempt.success, ← hs]
        exact ha
      have hpush : ∀ g' : Gathering, (∀ child ∈ g'.children, ∃ edge o, edges[child.edge]? = some edge ∧
          Text.isBoundary input o = true ∧ P edge.rule o (edge.context live) (.success child.statement child.derivation)) →
          ∀ child ∈ (g'.push ⟨p.lane.index, s, a.derivation⟩).children, ∃ edge o, edges[child.edge]? = some edge ∧
            Text.isBoundary input o = true ∧
            P edge.rule o (edge.context live) (.success child.statement child.derivation) := by
        intro g' hg' child hm
        rcases Array.mem_push.1 hm with hm | rfl
        · exact hg' child hm
        · exact hnew
      cases he : s.region.isEmpty with
      | true =>
        rw [Progress.accept_empty hs he]
        simp only
        generalize p.lane.counter.missing = count
        have hlook := (show ∀ child ∈ (p.gathering.look a.interest).children, _ from ih)
        generalize p.gathering.look a.interest = g' at hlook
        induction count generalizing g' with
        | zero => exact hlook
        | succ count ih2 => exact ih2 _ (hpush g' hlook)
      | false =>
        rw [Progress.accept_consumed hs he]
        exact hpush _ ih

/-! ## Nodes that no edit has touched -/

namespace Reading

/-- A tree that shows like a reading is as well-formed as that. -/
theorem formed_of_same {grammar : Grammar} {u : String} {n : Nat} {rule : RuleId} {o : Nat} {context : Context}
    {a : Attempt} (h : within grammar u n rule o context = some a) {shownAs : Option String} {s : Statement}
    {d : Derivation}
    (hs : (shownAttempt shownAs (.success s d)).recast .bare = (shownAttempt shownAs a).recast .bare) :
    Formed s d ∧ s.region.offset = o ∧ d = a.derivation := by
  obtain ⟨t, ht, hsame, rfl⟩ := shown_of_same hs
  obtain ⟨h1, h2⟩ := (laid h).2 t ht
  have hregion := Statement.region_of_same hsame
  rw [region_shown, region_shown] at hregion
  exact ⟨((h2.shown shownAs).congr hsame).of_shown, (congrArg Region.offset hregion).trans h1, rfl⟩

/-- A reading that was carried as a whole is a reading of the edited text. -/
theorem of_carried {grammar : Grammar} {u w : String} {n : Nat} {rule : RuleId} {o : Nat} {context : Context}
    {a : Attempt} (h : within grammar u n rule o context = some a) (hb : Text.isBoundary u o = true)
    {shownAs : Option String} {s : Statement} {d : Derivation}
    (hs : (shownAttempt shownAs (.success s d)).recast .bare = (shownAttempt shownAs a).recast .bare)
    {v : Region → Region} {p : Nat} (hc : Region.Carried u w v d.interest p) :
    (v s.region).offset = p ∧ ∃ b, within grammar w n rule p context = some b ∧
      (shownAttempt shownAs (.success (s.placed v) (d.placed v))).recast .bare = (shownAttempt shownAs b).recast .bare := by
  obtain ⟨hformed, ho, rfl⟩ := formed_of_same h hs
  have hsits := hformed.sits
  have hinterest : a.derivation.interest.offset = o := (laid h).1
  have hplace : (v s.region).offset = p := by
    have h1 := hsits.offset
    have h2 := hsits.stop
    have h3 := hsits.seen
    have h4 := hc.moves s.region ⟨by omega, h2, by simp only [Region.stop] at *; omega⟩
    have h5 := congrArg Region.offset h4
    simp only [Region.offset_movedBy] at h5
    omega
  have halike := hc.alike
  rw [hinterest] at halike
  obtain ⟨b, hb', hshift⟩ := within_local grammar u w (Nat.le_refl n) rule o p context a hb h halike
  refine ⟨hplace, b, hb', ?_⟩
  -- moved back to where it was read, the tree is the reading
  obtain ⟨h1, h2⟩ := hformed.recast_placed hc.moves (.self _)
  rw [hinterest] at h1 h2
  have hback : (shownAttempt shownAs (.success (s.placed v) (a.derivation.placed v))).recast (.moved o) =
      (shownAttempt shownAs (.success s a.derivation)).recast (.moved p) := by
    rw [shownAttempt_recast, shownAttempt_recast, Attempt.success_recast, Attempt.success_recast, h1, h2]
  apply Attempt.recast_moved_inj (k := o)
  rw [Attempt.recast_recast, Recasting.bare_andThen_moved, ← Attempt.recast_recast, hback, Attempt.recast_recast,
    ← Recasting.bare_andThen_moved, ← Attempt.recast_recast, hs, Attempt.recast_recast, Recasting.bare_andThen_moved,
    ← Attempt.recast_recast, shownAttempt_recast, hshift, ← shownAttempt_recast, Attempt.recast_recast,
    ← Recasting.bare_andThen_moved, ← Attempt.recast_recast]

end Reading

/-! ## Trees fit -/

section

variable {setting : Setting} {u : String} {v : Region → Region}

/-- A tree that is a reading, with so many levels, of the text before the edits fits its rule after it was moved by them. -/
def ReadingsFit (setting : Setting) (u : String) (v : Region → Region) (n : Nat) : Prop :=
  ∀ {rule : RuleId} {o : Nat} {context : Context} {a : Attempt} {shownAs : Option String} {s : Statement} {d : Derivation},
    Reading.within setting.grammar u n rule o context = some a → Text.isBoundary u o = true →
      (Reading.shownAttempt shownAs (.success s d)).recast .bare = (Reading.shownAttempt shownAs a).recast .bare →
      (∀ node ∈ s.walk d, setting.modified.contains node.1.id = false →
        ∃ p, Region.Carried u setting.input v node.2.interest p) →
      Fits setting shownAs rule context (s.placed v) (d.placed v)

/-- The children of a group that was gathered by readings fit the edges that read them. -/
theorem fits_of_gathered {n : Nat} (ih : ReadingsFit setting u v n)
    {edges : List Edge} {live : Context} {offset : Nat} (hb : Text.isBoundary u offset = true) {g : Gathering}
    (hg : Gathered (fun r o c a => Reading.within setting.grammar u n r o c = some a) edges live offset g)
    {s : Statement} {id : NodeId} (hs : s.recast .bare = (g.statement id).recast .bare) (rule : RuleId)
    (chosen : Option Nat)
    (hcarried : ∀ node ∈ s.walk (g.derivation rule chosen), setting.modified.contains node.1.id = false →
      ∃ p, Region.Carried u setting.input v node.2.interest p) :
    ∀ index edge, edges[index]? = some edge →
      ∀ e ∈ (groupEarliers (s.placed v) ((g.derivation rule chosen).placed v)).ofEdge index,
        Fits setting none edge.rule (edge.context live) e.1 e.2 := by
  intro index edge hedge e he
  cases s with
  | leaf => simp [Gathering.statement] at hs
  | value => simp [Gathering.statement] at hs
  | group id' region statements =>
    simp only [Gathering.statement, Statement.recast_group, Statement.group.injEq] at hs
    obtain ⟨_, _, hs⟩ := hs
    obtain ⟨others, rfl, h2, h3, h4⟩ := Taken.exists_alike hs
    rw [Gathering.derivation, h2, h3] at he hcarried
    have hmap : ((others.map (·.statement)).map (Statement.placed v) =
          (others.map (Taken.placed v)).map (·.statement) ∧
        (others.map (·.derivation)).map (Derivation.placed v) = (others.map (Taken.placed v)).map (·.derivation)) ∧
        others.map (·.edge) = (others.map (Taken.placed v)).map (·.edge) := by
      simp [Taken.placed, Function.comp_def]
    rw [Statement.placed_group, Derivation.placed_group, hmap.1.1, hmap.1.2, hmap.2] at he
    obtain ⟨moved, hmoved, hindex, rfl⟩ := mem_ofEdge_group he
    obtain ⟨other, ho, rfl⟩ := List.mem_map.1 hmoved
    obtain ⟨child, hc, h5, h6, h7⟩ := h4 other ho
    obtain ⟨edge', o, h8, h9, h10⟩ :=
      hg.child (fun _ _ _ _ h => Reading.covers h) hb child (Array.mem_toList_iff.1 hc)
    obtain rfl : edge' = edge := by
      rw [← h5, show other.edge = index from hindex, hedge] at h8
      exact (Option.some.inj h8).symm
    refine ih h10 h9 ?_ ?_
    · rw [Reading.shownAttempt_none, Reading.shownAttempt_none, Attempt.success_recast, Attempt.success_recast, h6, h7]
    · intro node hm
      apply hcarried node
      rw [Statement.walk_group, Derivation.children, Statement.walkList_map]
      exact List.mem_cons_of_mem _ (List.mem_flatMap.2 ⟨other, ho, hm⟩)

/-- The node that an invocation has read fits the target of its call. -/
theorem fits_of_called {n : Nat} (ih : ReadingsFit setting u v n) {call : Invocation} {target : RuleId} {inside : Context}
    {o : Nat} {a : Attempt} (h : Reading.within setting.grammar u n target o inside = some a)
    (hb : Text.isBoundary u o = true) {id : NodeId} {region : Region} {t : Statement} (ht : a.statement = some t)
    {s : Statement}
    (hs : s.recast .bare = (Statement.group id region [Reading.shown call.shownAs t]).recast .bare) {rule : RuleId}
    (hcarried : ∀ node ∈ s.walk (.around rule a.derivation), setting.modified.contains node.1.id = false →
      ∃ p, Region.Carried u setting.input v node.2.interest p)
    {e : Earlier} (he : earlierCall? (s.placed v) ((Derivation.around rule a.derivation).placed v) = some e) :
    Fits setting call.shownAs target inside e.1 e.2 := by
  cases s with
  | leaf => simp at hs
  | value => simp at hs
  | group id' region' statements =>
    simp only [Statement.recast_group, Statement.group.injEq] at hs
    obtain ⟨_, _, hs⟩ := hs
    obtain ⟨body, rfl⟩ : ∃ body, statements = [body] := List.length_eq_one_iff.1 (by simpa using congrArg List.length hs)
    have hbody : body.recast .bare = (Reading.shown call.shownAs t).recast .bare := by simpa using hs
    simp only [Derivation.around, Statement.placed_group, List.map_cons, List.map_nil, Derivation.placed_wrap, earlierCall?,
      Statement.children, List.getLast?_singleton, Option.some.injEq] at he
    subst he
    refine ih h hb ?_ ?_
    · simp only [Reading.shownAttempt_recast, Attempt.success_recast, hbody, Derivation.recast_bare]
      simp only [Reading.shownAttempt, Attempt.success, Attempt.recast, ht, Option.map_some, Reading.shown_recast,
        Reading.shown_shown, Derivation.recast_bare]
    · intro node hm
      apply hcarried node
      simp only [Derivation.around, Statement.walk_call]
      exact List.mem_cons_of_mem _ hm

/-- **Edited readings fit** their rules, with any number of levels. -/
theorem readings_fit (n : Nat) : ReadingsFit setting u v n := by
  intro rule o context a shownAs s d h hb hs hcarried
  induction n generalizing rule o context a shownAs s d with
  | zero => cases h
  | succ n ih =>
    obtain ⟨hformed, ho, rfl⟩ := Reading.formed_of_same h hs
    have hbody := Reading.body_of_body (P := fun r o c a => Reading.within setting.grammar u n r o c = some a)
      (fun _ _ _ _ h => h) h
    refine .node ?_ ?_ ?_
    · intro _ hmark
      rw [Statement.id_placed] at hmark
      obtain ⟨p, hc⟩ := hcarried (s, a.derivation) (EditedTree.mem_walk_self s a.derivation) hmark
      obtain ⟨h1, b, h2, h3⟩ := Reading.of_carried h hb hs hc
      rw [Statement.region_placed, h1]
      exact ⟨n + 1, b, h2, h3⟩
    · intro kind edges hr
      cases hbody with
      | unmatched => cases congrArg Attempt.statement hs
      | matched id rules =>
        rw [hr] at rules
        cases rules
      | @full kind' edges' g id chosen rules plain gathered =>
        rw [hr] at rules
        cases rules
        have hgroup := Reading.same_of_shown_group (Option.some.inj (congrArg Attempt.statement hs))
        intro index edge hedge e he
        rw [show (Reading.succeed id g rule chosen).derivation = g.derivation rule chosen from rfl] at he hcarried
        rw [earliersOf_plain plain] at he
        exact fits_of_gathered ih hb gathered hgroup rule chosen hcarried index edge hedge e he
      | short => cases congrArg Attempt.statement hs
      | @valued nonEmpty edges' g id inner name text rules gathered =>
        rw [hr] at rules
        cases rules
        obtain ⟨id', region', name', text', body', rfl, hbody'⟩ :=
          Reading.same_of_shown_value (Option.some.inj (congrArg Attempt.statement hs))
        intro index edge hedge e he
        simp only [Attempt.success, Derivation.around, Statement.placed_value, Derivation.placed_wrap, earliersOf,
          Statement.body?] at he
        refine fits_of_gathered ih hb gathered hbody' rule none ?_ index edge hedge e he
        intro node hm
        apply hcarried node
        rw [Statement.walk_value]
        exact List.mem_cons_of_mem _ hm
      | called id rules =>
        rw [hr] at rules
        cases rules
    · intro call hr e target inside he hresolve
      cases hbody with
      | unmatched => cases congrArg Attempt.statement hs
      | matched id rules =>
        rw [hr] at rules
        cases rules
      | full id chosen rules =>
        rw [hr] at rules
        cases rules
      | short => cases congrArg Attempt.statement hs
      | valued id inner name text rules =>
        rw [hr] at rules
        cases rules
      | @called call' target' inside' a1 id rules resolved attempted =>
        rw [hr] at rules
        cases rules
        rw [hresolve] at resolved
        cases resolved
        obtain ⟨_, hwrapped, _⟩ := Reading.shown_of_same hs
        obtain ⟨t, ht, rfl, hwrap⟩ := Reading.wrap_eq_success hwrapped
        rw [hwrap] at hs hcarried he
        have hgroup := Reading.same_of_shown_group (Option.some.inj (congrArg Attempt.statement hs))
        exact fits_of_called ih attempted hb ht hgroup hcarried he

end

end Graft
