import Graft.Proofs.AnyOrder
import Graft.Proofs.Deeds
import Graft.Proofs.Exhaustion
import Graft.Proofs.Tiles

/-!
# Containers match maximally

Every container that a parse completes has been read as far as it goes: where an edge was left its occurrence was used up, or its
rule brings no text there. This holds of the nodes of the tree, of containers that were dropped again on the way, and of what came
out of the memo. A container in any order fails only when scanning has come to such an end and some count is not valid.
-/

namespace Graft

open Filter Engine

/-! ## Marks -/

/-- The earlier children of a container, marked. -/
def Engine.Earliers.marks (earliers : Earliers) : List (Nat × Nat) :=
  earliers.children.map fun child => (child.1, child.2.1.region.stop)

/-- Whether an attempt is fruitless does not depend on identities. -/
theorem Attempt.Fruitless.congr {a b : Attempt} (h : b.Fruitless) (hs : a.recast .bare = b.recast .bare) : a.Fruitless := by
  intro s ha
  obtain ⟨t, hb, hst⟩ := Attempt.statement_some_of_same hs ha
  rw [Statement.region_of_same hst]
  exact h t hb

namespace Engine

/-- What was gathered ends at the cursor. -/
theorem Gathering.Laid.stop_statement {offset : Nat} {g : Gathering} (h : g.Laid offset) (id : NodeId) :
    (g.statement id).region.stop = g.cursor := by
  have hstart := h.start
  have hcursor := h.cursor
  change g.start + (g.cursor - g.start) = g.cursor
  omega

/-- The earlier children of what was gathered carry its marks. -/
theorem Gathering.marks_groupEarliers (g : Gathering) (id : NodeId) (rule : RuleId) (chosen : Option Nat) :
    (groupEarliers (g.statement id) (g.derivation rule chosen)).marks = g.marks ∧
      (groupEarliers (g.statement id) (g.derivation rule chosen)).chosen = chosen := by
  rw [Gathering.statement, Gathering.derivation, groupEarliers_group, Earliers.marks, List.map_map]
  exact ⟨rfl, rfl⟩

/-- How children are marked depends on where they end only. -/
theorem marks_zip (edges : List Nat) (statements : List Statement) (derivations : List Derivation) (chosen : Option Nat) :
    Earliers.marks ⟨edges.zip (statements.zip derivations), chosen⟩ =
      edges.zip (((statements.map (·.region.stop)).zip derivations).map (·.1)) := by
  rw [List.zip_map_left, List.map_map, List.zip_map_right]
  rfl

theorem groupEarliers_congr {s t : Statement} (h : s.recast .bare = t.recast .bare) (d : Derivation) :
    (groupEarliers s d).marks = (groupEarliers t d).marks ∧ (groupEarliers s d).chosen = (groupEarliers t d).chosen := by
  have hchildren : s.children.map (Statement.recast .bare) = t.children.map (Statement.recast .bare) := by
    rw [← Statement.children_recast, h, Statement.children_recast]
  have hlength : s.children.length = t.children.length := by simpa using congrArg List.length hchildren
  have hstops : s.children.map (·.region.stop) = t.children.map (·.region.stop) := by
    have hmap := congrArg (List.map (·.region.stop)) hchildren
    simpa [Function.comp_def] using hmap
  cases d with
  | group rule interest derivations edges chosen =>
    rw [groupEarliers, groupEarliers, hlength]
    split
    · exact ⟨by rw [marks_zip, marks_zip, hstops], rfl⟩
    · exact ⟨rfl, rfl⟩
  | leaf => exact ⟨rfl, rfl⟩
  | wrap => exact ⟨rfl, rfl⟩

/-- The earlier children of nodes that differ in identities are marked alike. -/
theorem earliersOf_congr (kind : ContainerKind) {s t : Statement} (h : s.recast .bare = t.recast .bare) (d : Derivation) :
    (earliersOf kind s d).marks = (earliersOf kind t d).marks ∧ (earliersOf kind s d).chosen = (earliersOf kind t d).chosen := by
  cases kind with
  | inOrder => exact groupEarliers_congr h d
  | anyOrder => exact groupEarliers_congr h d
  | firstOrder => exact groupEarliers_congr h d
  | value nonEmpty =>
    have hbody : s.body?.map (Statement.recast .bare) = t.body?.map (Statement.recast .bare) := by
      cases s <;> cases t <;> simp [Statement.body?] at h ⊢
      exact h.2.2.2
    simp only [earliersOf]
    cases hs : s.body? with
    | none =>
      rw [hs, Option.map_none, eq_comm, Option.map_eq_none_iff] at hbody
      rw [hbody]
      exact ⟨rfl, rfl⟩
    | some body =>
      rw [hs, Option.map_some, eq_comm, Option.map_eq_some_iff] at hbody
      obtain ⟨other, ht, hsame⟩ := hbody
      rw [ht]
      cases d with
      | wrap rule interest inner => exact groupEarliers_congr hsame.symm inner
      | leaf => exact ⟨rfl, rfl⟩
      | group => exact ⟨rfl, rfl⟩

/-- The earlier children of a node do not depend on the name that it is shown under. -/
theorem earliersOf_shown (kind : ContainerKind) (name : Option String) (s : Statement) (d : Derivation) :
    earliersOf kind (Reading.shown name s) d = earliersOf kind s d := by
  cases name with
  | none => rfl
  | some name => cases s <;> cases kind <;> rfl

end Engine

theorem Engine.Gathering.marks_recast (g : Gathering) : (g.recast .bare).marks = g.marks := by
  simp [Gathering.marks, Gathering.recast, Taken.recast, Function.comp_def]

section

variable [Pattern.Compiler]

/-! ## Attempts of a parse -/

/-- What the memo of a parse may hold: it was filled by attempts from scratch, each at a boundary of the text and with some text
being collected. -/
inductive Setting.Learns (setting : Setting) : Std.HashMap MemoKey MemoEntry → Prop where
  | empty : Learns setting {}
  | attempt {levels : Nat} {rule : RuleId} {offset : Nat} {context : Context} {s t : State} {a : Attempt}
      (learns : Learns setting s.memo) (collects : s.collected ≠ []) (boundary : Text.isBoundary setting.input offset = true)
      (run : (attempts setting levels).fresh rule offset context s = .ok (a, t)) : Learns setting t.memo

/-- A state in which a parse may attempt a rule at an offset. -/
structure Setting.Visits (setting : Setting) (offset : Nat) (s : State) : Prop where
  learns : setting.Learns s.memo
  collects : s.collected ≠ []
  boundary : Text.isBoundary setting.input offset = true

/-- What attempts of a parse come to. -/
def Setting.Makes (setting : Setting) : Claim := fun rule offset context a =>
  ∃ levels s t, setting.Visits offset s ∧ (attempts setting levels).fresh rule offset context s = .ok (a, t)

/-- Where rules bring no text in a parse: attempted on its own a rule fails or reads nothing, and so does every attempt of the
parse. -/
def Setting.Fruitless (setting : Setting) : Places := fun rule offset context =>
  (∃ depth a, setting.grammar.comesTo setting.input depth rule offset context = some a ∧ a.Fruitless) ∧
    ∀ a, setting.Makes rule offset context a → a.Fruitless

/-- A node that a container has read leaves nothing to the edges of the container. -/
def Setting.Exhausts (setting : Setting) : Condition := fun _ rule context s d =>
  ∀ kind edges, setting.grammar.body? rule = some (.container kind edges) →
    kind.Exhausts setting.Fruitless edges context s.region.offset s.region.stop (earliersOf kind s d).marks
      (earliersOf kind s d).chosen

/-- What a container in any order has gathered when it fails: its edges bring nothing more at the cursor, and one of them is
lacking. -/
structure Engine.Gathering.Saturates (setting : Setting) (edges : List Edge) (live : Context) (g : Gathering) : Prop where
  exhausts : ContainerKind.anyOrder.Exhausts setting.Fruitless edges live g.start g.cursor g.marks none
  lacking : ∃ (index : Nat) (edge : Edge), edges[index]? = some edge ∧ edge.Lacking live (g.tags.count index)

/-! ## Attempts come to readings -/

namespace Setting

variable {setting : Setting} {rule : RuleId} {offset : Nat} {context : Context} {a : Attempt}

/-- What the memo of a parse holds are readings. -/
theorem Visits.ready {s : State} (h : setting.Visits offset s) : s.Ready setting s.depth := by
  obtain ⟨hlearns, hcollects, _⟩ := h
  generalize hm : s.memo = memo at hlearns
  induction hlearns generalizing s with
  | empty =>
    refine ⟨rfl, hcollects, fun _ key entry he => ?_⟩
    simp [hm] at he
  | @attempt levels rule offset context before after a _ collects boundary run ih =>
    have hdecides := fresh_decides setting levels before.depth rule offset context before boundary (ih collects rfl)
    rw [run] at hdecides
    obtain ⟨_, _, hagrees⟩ := hdecides
    exact ⟨rfl, hcollects, by rw [hm]; exact hagrees.steady.ready.memo⟩

theorem Makes.boundary (h : setting.Makes rule offset context a) : Text.isBoundary setting.input offset = true := by
  obtain ⟨_, _, _, hvisits, _⟩ := h
  exact hvisits.boundary

/-- An attempt of a parse comes to the reading of its rule, up to identities. -/
theorem Makes.reading (h : setting.Makes rule offset context a) :
    ∃ b, (∀ᶠ n in atTop, Reading.within setting.grammar setting.input n rule offset context = some b) ∧
      a.recast .bare = b.recast .bare := by
  obtain ⟨levels, s, t, hvisits, hrun⟩ := h
  have hdecides := fresh_decides setting levels s.depth rule offset context s hvisits.boundary hvisits.ready
  rw [hrun] at hdecides
  obtain ⟨b, hb, hagrees⟩ := hdecides
  have hsame := hagrees.same
  rw [Reading.shownAttempt_none, Reading.shownAttempt_none] at hsame
  exact ⟨b, hb, hsame⟩

/-- Where a reading is fruitless the rule brings no text in a parse. -/
theorem fruitless_of_within {n : Nat} (h : Reading.within setting.grammar setting.input n rule offset context = some a)
    (hb : Text.isBoundary setting.input offset = true) (hf : a.Fruitless) : setting.Fruitless rule offset context := by
  refine ⟨?_, fun b hmakes => ?_⟩
  · have hsame := setting.grammar.comesTo_eq setting.input n rule context hb
    rw [h, Option.map_some] at hsame
    obtain ⟨b, hcomes, hsame⟩ := Option.map_eq_some_iff.1 hsame
    exact ⟨n, b, hcomes, hf.congr hsame⟩
  · obtain ⟨c, hc, hsame⟩ := hmakes.reading
    obtain ⟨k, hk, hle⟩ := (hc.and (eventually_ge_atTop n)).exists
    rw [Reading.within_mono hle hb h] at hk
    cases hk
    exact hf.congr hsame

end Setting

/-! ## Nodes -/

/-- The reading of a rule that is a container is that of the container. -/
theorem Reading.container_of_body {R : Oracle} {grammar : Grammar} {input : String} {rule : RuleId} {kind : ContainerKind}
    {edges : List Edge} {offset : Nat} {context : Context} {a : Attempt} (hr : grammar.body? rule = some (.container kind edges))
    (h : body R grammar input rule offset context = some a) :
    ∃ known, container R grammar input rule known kind edges offset context = some a := by
  obtain ⟨known, hk, h⟩ := Option.bind_eq_some_iff.1 h
  have hknown := Grammar.body?_of_getRule (Except.toOption_eq_some_iff.1 hk)
  rw [hr, Option.some.injEq] at hknown
  rw [← hknown] at h
  exact ⟨known, h⟩

/-- A value is read only where its body is. -/
theorem Reading.valueOf_eq_success {grammar : Grammar} {rule : RuleId} {name : String} {nonEmpty : Bool} {body : Attempt}
    {s : Statement} (h : (valueOf grammar rule name nonEmpty body).statement = some s) :
    ∃ t text, body.statement = some t ∧ s = .value noId t.region name text t ∧
      valueOf grammar rule name nonEmpty body = .success s (.around rule body.derivation) := by
  cases hb : body.statement with
  | none =>
    rw [valueOf, hb] at h
    cases h
  | some t =>
    rw [valueOf, hb] at h ⊢
    cases hc : nonEmpty && (body.keptBelow grammar).isEmpty with
    | true =>
      simp only [hc, if_true] at h
      cases h
    | false =>
      simp only [hc, Bool.false_eq_true, if_false] at h ⊢
      cases h
      exact ⟨t, _, rfl, rfl, rfl⟩

namespace Setting.Exhausts

variable {setting : Setting} {rule : RuleId} {context : Context} {s t : Statement} {d : Derivation}

/-- What shows like a node that leaves nothing leaves nothing either. -/
theorem congr {name other another : Option String} (h : setting.Exhausts other rule context t d)
    (hs : (Reading.shown name s).recast .bare = (Reading.shown name t).recast .bare) :
    setting.Exhausts another rule context s d := by
  intro kind edges hr
  obtain ⟨hmarks, hchosen⟩ := earliersOf_congr kind hs d
  have hregion := Statement.region_of_same hs
  rw [earliersOf_shown, earliersOf_shown] at hmarks hchosen
  rw [Reading.region_shown, Reading.region_shown] at hregion
  rw [hmarks, hchosen, hregion]
  exact h kind edges hr

/-- A container whose edges were left exhausted leaves nothing to them. -/
theorem of_gathered {kind : ContainerKind} {edges : List Edge} (hr : setting.grammar.body? rule = some (.container kind edges))
    (hplain : ∀ nonEmpty, kind ≠ .value nonEmpty) {offset : Nat} {g : Gathering} (hg : g.Laid offset) {chosen : Option Nat}
    (h : kind.Exhausts setting.Fruitless edges context g.start g.cursor g.marks chosen) (name : Option String) (id : NodeId) :
    setting.Exhausts name rule context (g.statement id) (g.derivation rule chosen) := by
  intro kind' edges' hr'
  rw [hr] at hr'
  cases hr'
  obtain ⟨hmarks, hchosen⟩ := g.marks_groupEarliers id rule chosen
  rw [earliersOf_plain hplain, hmarks, hchosen, hg.stop_statement id]
  exact h

/-- A value whose body was left with exhausted edges leaves nothing to them. -/
theorem of_body {nonEmpty : Bool} {edges : List Edge}
    (hr : setting.grammar.body? rule = some (.container (.value nonEmpty) edges)) {g : Gathering}
    (h : ContainerKind.inOrder.Exhausts setting.Fruitless edges context g.start g.cursor g.marks none) (name : Option String)
    (id inner : NodeId) (own text : String) :
    setting.Exhausts name rule context (.value id (g.statement inner).region own text (g.statement inner))
      (.around rule (g.derivation rule none)) := by
  intro kind edges' hr'
  rw [hr] at hr'
  cases hr'
  obtain ⟨hmarks, hchosen⟩ := g.marks_groupEarliers inner rule none
  change ContainerKind.Exhausts _ _ _ _ _ _ (groupEarliers (g.statement inner) (g.derivation rule none)).marks _
  rw [hmarks]
  exact h

/-- So does what differs from it in identities only. -/
theorem of_same {other another : Option String} (h : setting.Exhausts other rule context t d)
    (hs : s.recast .bare = t.recast .bare) : setting.Exhausts another rule context s d :=
  @congr _ _ _ _ _ _ _ none _ _ h hs

end Setting.Exhausts

section

variable {setting : Setting} {rule : RuleId} {offset : Nat} {context : Context} {n : Nat}
  (hb : Text.isBoundary setting.input offset = true)
include hb

/-- Where scanning has come to its end all edges are exhausted. -/
theorem Setting.scanned_exhausts {edges : List Edge} {lanes : List Lane} {g : Gathering}
    (h : Reading.scanned (Reading.within setting.grammar setting.input n) setting.input edges offset context =
      some (lanes, g)) :
    g.Laid offset ∧ ContainerKind.anyOrder.Exhausts setting.Fruitless edges context g.start g.cursor g.marks none := by
  obtain ⟨hg, hexhausted⟩ := Reading.scanned_exhausts (Reading.sound_within setting.grammar setting.input n)
    (fun _ _ _ _ ha hb hf => Setting.fruitless_of_within ha hb hf) hb h
  refine ⟨hg.laid fun _ _ _ _ ha => Reading.laid ha, fun index edge he => ?_⟩
  rw [Gathering.map_marks]
  exact hexhausted index edge he

/-- If not all counts are valid there, some edge is lacking. -/
theorem Setting.scanned_saturates {edges : List Edge} {lanes : List Lane} {g : Gathering}
    (h : Reading.scanned (Reading.within setting.grammar setting.input n) setting.input edges offset context =
      some (lanes, g)) (hv : lanes.all (·.counter.isValid) = false) : g.Saturates setting edges context :=
  ⟨(Setting.scanned_exhausts hb h).2, Reading.scanned_lacking h hv⟩

/-- So are the edges of a container in order that succeeds, each where its children end. -/
theorem Setting.inOrder_exhausts {edges : List Edge} {a : Attempt}
    (h : Reading.inOrder (Reading.within setting.grammar setting.input n) setting.input rule edges offset context = some a)
    {s : Statement} (hs : a.statement = some s) :
    ∃ g, a = Reading.succeed Reading.noId g rule none ∧ g.Laid offset ∧
      ContainerKind.inOrder.Exhausts setting.Fruitless edges context g.start g.cursor g.marks none := by
  obtain ⟨g, hg, rfl, hexhausted⟩ := Reading.inOrder_exhausts (Reading.sound_within setting.grammar setting.input n)
    (fun _ _ _ _ ha hb hf => Setting.fruitless_of_within ha hb hf) hb h hs
  have hlaid := hg.laid fun _ _ _ _ ha => Reading.laid ha
  refine ⟨g, rfl, hlaid, fun index edge he => ?_⟩
  rw [Gathering.map_marks, hlaid.start]
  exact hexhausted index edge he

/-- And the edge that was chosen. -/
theorem Setting.firstOrder_exhausts {edges : List Edge} {a : Attempt}
    (h : Reading.firstOrder (Reading.within setting.grammar setting.input n) setting.input rule edges offset context = some a)
    {s : Statement} (hs : a.statement = some s) :
    ∃ g chosen, a = Reading.succeed Reading.noId g rule chosen ∧ g.Laid offset ∧
      ContainerKind.firstOrder.Exhausts setting.Fruitless edges context g.start g.cursor g.marks chosen := by
  obtain ⟨⟨choice, g⟩, hr, h⟩ := Option.bind_eq_some_iff.1 h
  cases choice with
  | chosen index =>
    obtain ⟨hg, edge, he, hexhausted⟩ := Reading.readFirst_exhausts (Reading.sound_within setting.grammar setting.input n)
      (fun _ _ _ _ ha hb hf => Setting.fruitless_of_within ha hb hf) hb Reading.getElem?_of_mem_zipIdx .begin rfl hr
    have hlaid := hg.laid fun _ _ _ _ ha => Reading.laid ha
    refine ⟨g, some index, (Option.some.inj h).symm, hlaid, index, edge, rfl, he, ?_⟩
    rw [Gathering.map_marks, hlaid.start]
    exact hexhausted
  | broken =>
    cases h
    cases hs
  | none =>
    cases h
    cases hs

/-- **Readings leave nothing**: a node that was read leaves nothing to the edges of its container. -/
theorem Setting.exhausts_of_within {a : Attempt}
    (h : Reading.within setting.grammar setting.input n rule offset context = some a) {s : Statement}
    (hs : a.statement = some s) (name : Option String) : setting.Exhausts name rule context s a.derivation := by
  cases n with
  | zero => cases h
  | succ n =>
    intro kind edges hr
    obtain ⟨known, h⟩ := Reading.container_of_body hr h
    cases kind with
    | inOrder =>
      obtain ⟨g, rfl, hg, hexhausts⟩ := Setting.inOrder_exhausts hb h hs
      cases hs
      exact Exhausts.of_gathered hr (by simp) hg hexhausts name Reading.noId _ _ hr
    | anyOrder =>
      change Reading.anyOrder _ _ _ _ _ _ = _ at h
      rw [Reading.anyOrder_eq] at h
      obtain ⟨⟨lanes, g⟩, hscanned, rfl⟩ := Option.map_eq_some_iff.1 h
      obtain ⟨hg, hexhausts⟩ := Setting.scanned_exhausts hb hscanned
      cases hv : lanes.all (·.counter.isValid) with
      | true =>
        simp only [hv, if_true] at hs ⊢
        cases hs
        exact Exhausts.of_gathered hr (by simp) hg hexhausts name Reading.noId _ _ hr
      | false =>
        simp only [hv, Bool.false_eq_true, if_false] at hs
        cases hs
    | firstOrder =>
      obtain ⟨g, chosen, rfl, hg, hexhausts⟩ := Setting.firstOrder_exhausts hb h hs
      cases hs
      exact Exhausts.of_gathered hr (by simp) hg hexhausts name Reading.noId _ _ hr
    | value nonEmpty =>
      obtain ⟨body, hbody, rfl⟩ := Option.map_eq_some_iff.1 h
      obtain ⟨t, text, ht, rfl, hvalue⟩ := Reading.valueOf_eq_success hs
      obtain ⟨g, rfl, _, hexhausts⟩ := Setting.inOrder_exhausts hb hbody ht
      cases ht
      rw [hvalue]
      exact Exhausts.of_body hr hexhausts name _ _ _ _ _ _ hr

/-- A container in any order that a reading fails with was saturated. -/
theorem Setting.anyOrder_failed_of_within {edges : List Edge} {a : Attempt}
    (hr : setting.grammar.body? rule = some (.container .anyOrder edges))
    (h : Reading.within setting.grammar setting.input n rule offset context = some a) (ha : a.statement = none) :
    ∃ levels lanes g, Reading.scanned (Reading.within setting.grammar setting.input levels) setting.input edges offset context =
      some (lanes, g) ∧ g.Saturates setting edges context := by
  cases n with
  | zero => cases h
  | succ n =>
    obtain ⟨known, h⟩ := Reading.container_of_body hr h
    change Reading.anyOrder _ _ _ _ _ _ = _ at h
    rw [Reading.anyOrder_eq] at h
    obtain ⟨⟨lanes, g⟩, hscanned, rfl⟩ := Option.map_eq_some_iff.1 h
    cases hv : lanes.all (·.counter.isValid) with
    | true =>
      simp only [hv, if_true] at ha
      cases ha
    | false => exact ⟨n, lanes, g, hscanned, Setting.scanned_saturates hb hscanned hv⟩

end

/-! ## Scans of a parse -/

/-- Whether a container is saturated does not depend on identities. -/
theorem Engine.Gathering.Saturates.of_same {setting : Setting} {edges : List Edge} {live : Context} {g g' : Gathering}
    (h : g'.Saturates setting edges live) (hs : g.recast .bare = g'.recast .bare) : g.Saturates setting edges live := by
  have hmarks : g.marks = g'.marks := by rw [← marks_recast, hs, marks_recast]
  have hstart : g.start = g'.start := Nat.add_right_cancel (congrArg Gathering.start hs)
  have hcursor : g.cursor = g'.cursor := Reading.cursor_eq_of_recast hs
  refine ⟨?_, ?_⟩
  · rw [hstart, hcursor, hmarks]
    exact h.exhausts
  · rw [← map_marks, hmarks, map_marks]
    exact h.lacking

section

variable {setting : Setting} {offset : Nat} {s t : State} {context : Context} {edges : List Edge} {levels : Nat}
  {owner : RuleId} {opened lanes : List Lane} {g : Gathering}

/-- The scans of a parse come to their end where those of readings do, up to identities. -/
theorem Setting.Visits.scanned (hs : setting.Visits offset s) (hl : Reading.openAll context edges.zipIdx = some opened)
    (h : scanAll (attempts setting levels) owner (setting.remaining offset + 1) opened (.begin offset) s =
      .ok ((lanes, g), t)) :
    ∃ n g', Reading.scanned (Reading.within setting.grammar setting.input n) setting.input edges offset context =
      some (lanes, g') ∧ g.recast .bare = g'.recast .bare := by
  have hdecides := scanAll_decides (Reading.sound_within setting.grammar setting.input) (fresh_decides setting levels s.depth)
    hs.boundary owner (setting.remaining offset + 1) (Reading.openAll_opens Reading.getElem?_of_mem_zipIdx hl)
    (.begin (m := .bare) (ℓ := atTop) hs.ready)
  rw [h] at hdecides
  obtain ⟨⟨lanes', g'⟩, hread, hlanes, hsynced⟩ := hdecides
  obtain ⟨n, hn⟩ := hread.exists
  refine ⟨n, g', ?_, hsynced.same⟩
  simp only at hlanes
  rw [Reading.scanned, hl, hlanes]
  exact hn

/-- A container in any order fails in a parse only where scanning has come to an end at which it is saturated. -/
theorem Setting.Visits.anyOrder_failed (hs : setting.Visits offset s) {rule : RuleId} {a : Attempt}
    (hr : setting.grammar.body? rule = some (.container .anyOrder edges))
    (h : readBody setting (attempts setting levels) rule offset context s = .ok (a, t)) (ha : a.statement = none) :
    ∃ opened lanes g u, Reading.openAll context edges.zipIdx = some opened ∧
      scanAll (attempts setting levels) rule (setting.remaining offset + 1) opened (.begin offset) s = .ok ((lanes, g), u) ∧
      g.Saturates setting edges context := by
  obtain ⟨known, hk, h⟩ := Run.lift_bind_eq_ok.1 h
  have hbody := Grammar.body?_of_getRule hk
  rw [hr, Option.some.injEq] at hbody
  rw [← hbody] at h
  change anyOrder _ _ _ _ _ _ _ _ = _ at h
  rw [anyOrder, Run.mark_bind] at h
  obtain ⟨opened, _, hopen, h⟩ := Run.bind_eq_ok.1 h
  obtain ⟨hl, rfl⟩ := openAll_eq_ok hopen
  rw [replay, Run.bind_apply, Run.pure_apply, Run.ok_bind] at h
  obtain ⟨⟨lanes, g⟩, u, hscan, h⟩ := Run.bind_eq_ok.1 h
  obtain ⟨n, g', hscanned, hsame⟩ := hs.scanned hl hscan
  simp only at h
  cases hv : lanes.all (·.counter.isValid) with
  | true =>
    simp only [hv, if_true] at h
    cases h
    cases ha
  | false => exact ⟨opened, lanes, g, u, hl, hscan, (Setting.scanned_saturates hs.boundary hscanned hv).of_same hsame⟩

end

/-! ## Trees -/

/-- The nodes of a tree begin at boundaries of its text. -/
theorem Tree.boundaries_of_parse {grammar : Grammar} {input : String} {options : Options} {nextId next : NodeId} {tree : Tree}
    (parsed : grammar.parse input options nextId = .ok (tree, next)) (shownAs : Option String) (rule : RuleId)
    (context : Context) :
    Revisited grammar (fun _ _ _ s _ => Text.isBoundary input s.region.offset = true) shownAs rule context tree.statement
      tree.derivation := by
  obtain ⟨htiled, _⟩ := parse_yields (@Tiled.closed _ grammar input).passes parsed
  have htiles := (htiled (Text.isBoundary_zero input) tree.statement rfl).2
  refine ((whole_of_parse parsed).1.formed.paired.revisited fun node hm shownAs rule context => ?_).2 shownAs rule context
  exact (Text.slice?_eq_some_iff.1 (htiles.of_mem_walk hm).slice).1

/-- The nodes of a tree that was parsed are readings of its text. -/
theorem Tree.readings_of_parse {grammar : Grammar} {input : String} {options : Options} {nextId next : NodeId} {tree : Tree}
    (parsed : grammar.parse input options nextId = .ok (tree, next)) :
    Fits (.make grammar input options {}) none grammar.root options.context tree.statement tree.derivation := by
  have hsettles := parse_settles grammar input options nextId
  rw [parsed] at hsettles
  obtain ⟨hwhole, rfl⟩ := whole_of_parse parsed
  obtain ⟨n, b, hread, hsame⟩ := hsettles.isReading.same
  have hfollows := EditedTree.Follows.begin hwhole.formed (u := tree.text) (by rw [hwhole.region]; exact Nat.le_of_eq (Nat.zero_add _))
  have hfits := @readings_fit _ (.make grammar tree.text options {}) tree.text (fun r => r) n _ _ _ _ _ _ _ hread
    (Text.isBoundary_zero tree.text) hsame hfollows.carried
  rw [Statement.placed_id, Derivation.placed_id] at hfits
  exact hfits

/-- **Containers match maximally.** Each node of a tree that was parsed, if a container has read it, leaves nothing to the edges of
the container: those of a container in order, or of a value, have used up their occurrences, or their rules bring no text where
their children end; so has the edge that a choice fell on; and those of a container in any order bring nothing more at its end. In
the setting of a parse, with anything in the memo that its attempts have put there:
1. A container that an attempt succeeds with leaves nothing either, also out of the memo, and also if it is dropped later.
2. A container in any order fails only when scanning has come to an end where its edges bring nothing more, and one of them was
   not read as often as its occurrence wants.
3. Where the failure may come out of the memo, scanning by readings comes to such an end. -/
theorem containers_match_maximally :
    (∀ (grammar : Grammar) input options nextId tree next, grammar.parse input options nextId = .ok (tree, next) →
      Revisited grammar (Setting.make grammar input options {}).Exhausts none grammar.root options.context tree.statement
        tree.derivation) ∧
    ∀ setting : Setting,
      (∀ rule offset context a s, setting.Makes rule offset context a → a.statement = some s →
        setting.Exhausts none rule context s a.derivation) ∧
      (∀ levels rule offset context edges s a t, setting.Visits offset s →
        setting.grammar.body? rule = some (.container .anyOrder edges) →
        readBody setting (attempts setting levels) rule offset context s = .ok (a, t) → a.statement = none →
        ∃ opened lanes g u, Reading.openAll context edges.zipIdx = some opened ∧
          scanAll (attempts setting levels) rule (setting.remaining offset + 1) opened (.begin offset) s = .ok ((lanes, g), u) ∧
          g.Saturates setting edges context) ∧
      ∀ rule offset context edges a, setting.Makes rule offset context a →
        setting.grammar.body? rule = some (.container .anyOrder edges) → a.statement = none →
        ∃ levels lanes g, Reading.scanned (Reading.within setting.grammar setting.input levels) setting.input edges offset
            context = some (lanes, g) ∧ g.Saturates setting edges context := by
  refine ⟨?_, fun setting => ⟨?_, ?_, ?_⟩⟩
  · intro grammar input options nextId tree next parsed
    refine (Tree.readings_of_parse parsed).both (Tree.boundaries_of_parse parsed none grammar.root options.context) ?_
    intro shownAs rule context s d hfitting hboundary
    obtain ⟨n, b, hread, hsame⟩ := hfitting hboundary (by simp [Setting.make])
    obtain ⟨t, ht, hshown, rfl⟩ := Reading.shown_of_same hsame
    exact (Setting.exhausts_of_within hboundary hread ht shownAs).congr hshown
  · intro rule offset context a s hmakes hs
    obtain ⟨b, hread, hsame⟩ := hmakes.reading
    obtain ⟨n, hn⟩ := hread.exists
    obtain ⟨t, ht, hst⟩ := Attempt.statement_some_of_same hsame hs
    rw [Attempt.derivation_of_same hsame]
    exact (Setting.exhausts_of_within hmakes.boundary hn ht none).of_same hst
  · intro levels rule offset context edges s a t hvisits hr hrun hfailed
    exact hvisits.anyOrder_failed hr hrun hfailed
  · intro rule offset context edges a hmakes hr hfailed
    obtain ⟨b, hread, hsame⟩ := hmakes.reading
    obtain ⟨n, hn⟩ := hread.exists
    exact Setting.anyOrder_failed_of_within hmakes.boundary hr hn (Attempt.statement_none_of_same hsame hfailed)

end

open Pattern.Regex

/-- The letter b is read by the edge that requires one, and neither edge brings more behind it. On the letter a the same container
fails: the edge that comes first has read the letter, and the one that is required is lacking at the end. -/
theorem containers_match_maximally_letters :
    (∃ tree next, (Grammar.anyAndOne .letterA .letterB).parse "b" .plain ⟨0⟩ = .ok (tree, next) ∧
      Revisited (.anyAndOne .letterA .letterB) (Setting.make (.anyAndOne .letterA .letterB) "b" .plain {}).Exhausts none ⟨2⟩
        .empty tree.statement tree.derivation) ∧
    (∃ a s, (Setting.make (.anyAndOne .letterA .letterB) "b" .plain {}).Makes ⟨2⟩ 0 .empty a ∧ a.statement = some s ∧
      (Setting.make (.anyAndOne .letterA .letterB) "b" .plain {}).Exhausts none ⟨2⟩ .empty s a.derivation) ∧
    (∃ a t lanes g u, readBody (.make (.anyAndOne .letterA .letterB) "a" .plain {})
        (attempts (.make (.anyAndOne .letterA .letterB) "a" .plain {}) 512) ⟨2⟩ 0 .empty { depth := 1, nextId := ⟨0⟩ } =
        .ok (a, t) ∧ a.statement = none ∧
      scanAll (attempts (.make (.anyAndOne .letterA .letterB) "a" .plain {}) 512) ⟨2⟩ 2 [anyLane 0, oneLane 0] (.begin 0)
        { depth := 1, nextId := ⟨0⟩ } = .ok ((lanes, g), u) ∧
      g.Saturates (.make (.anyAndOne .letterA .letterB) "a" .plain {})
        [⟨⟨0⟩, .occurrence .any, .empty⟩, ⟨⟨1⟩, .occurrence .once, .empty⟩] .empty) ∧
    ∃ a levels lanes g, (Setting.make (.anyAndOne .letterA .letterB) "a" .plain {}).Makes ⟨2⟩ 0 .empty a ∧ a.statement = none ∧
      Reading.scanned (Reading.within (.anyAndOne .letterA .letterB) "a" levels) "a"
        [⟨⟨0⟩, .occurrence .any, .empty⟩, ⟨⟨1⟩, .occurrence .once, .empty⟩] 0 .empty = some (lanes, g) ∧
      g.Saturates (.make (.anyAndOne .letterA .letterB) "a" .plain {})
        [⟨⟨0⟩, .occurrence .any, .empty⟩, ⟨⟨1⟩, .occurrence .once, .empty⟩] .empty := by
  have hone : Text.size "b" = 1 := by decide +kernel
  have hne : Text.size "b" ≠ 0 := by rw [hone]; exact Nat.one_ne_zero
  have hne' : Text.size "a" ≠ 0 := by decide +kernel
  have hsize : Text.size "b" ≤ Options.plain.limits.maxInputSize := by decide +kernel
  have hvisits : ∀ (setting : Setting) (depth : Nat), setting.Visits 0 { depth, nextId := ⟨0⟩ } :=
    fun setting depth => ⟨.empty, List.cons_ne_nil _ _, Text.isBoundary_zero _⟩
  obtain ⟨hparsed, hsettings⟩ := containers_match_maximally
  refine ⟨?_, ?_, ?_, ?_⟩
  · obtain ⟨statistics, hparse⟩ := parse_anyAndOne Pattern.matchFront_letterA_b Pattern.letterA_reads.matchFront_nil
      Pattern.matchFront_letterB hne hsize 0
    exact ⟨_, _, hparse, hparsed _ _ _ _ _ _ hparse⟩
  · obtain ⟨t, ht, _⟩ := anyAndOne_read Pattern.matchFront_letterA_b Pattern.letterA_reads.matchFront_nil
      Pattern.matchFront_letterB hne 0 { nextId := ⟨0⟩ } ⟨rfl, rfl, trivial⟩
    have hmakes : (Setting.make (.anyAndOne .letterA .letterB) "b" .plain {}).Makes ⟨2⟩ 0 .empty _ :=
      ⟨_, _, t, hvisits _ 0, ht⟩
    exact ⟨_, _, hmakes, rfl, (hsettings _).1 _ _ _ _ _ hmakes rfl⟩
  · obtain ⟨g, hg⟩ := readBody_anyAndOne_taken (p := .letterA) (q := .letterB)
      (by rw [Pattern.matchFront_letterA]; decide +kernel) Pattern.letterA_reads.matchFront_nil
      Pattern.letterB_reads.matchFront_nil hne' 0
    obtain ⟨t, ht, _⟩ := hg { depth := 1, nextId := ⟨0⟩ } ⟨rfl, rfl, trivial⟩
    obtain ⟨_, hfails, _⟩ := hsettings (.make (.anyAndOne .letterA .letterB) "a" .plain {})
    obtain ⟨opened, lanes, g', u, hl, hscan, hsaturates⟩ := hfails 512 _ _ _ _ _ _ _ (hvisits _ 1) rfl ht rfl
    cases hl
    exact ⟨_, t, lanes, g', u, ht, rfl, hscan, hsaturates⟩
  · obtain ⟨g, hg⟩ := anyAndOne_taken (p := .letterA) (q := .letterB)
      (by rw [Pattern.matchFront_letterA]; decide +kernel) Pattern.letterA_reads.matchFront_nil
      Pattern.letterB_reads.matchFront_nil hne' 0
    obtain ⟨t, ht, _⟩ := hg { nextId := ⟨0⟩ } ⟨rfl, rfl, trivial⟩
    have hmakes : (Setting.make (.anyAndOne .letterA .letterB) "a" .plain {}).Makes ⟨2⟩ 0 .empty (g.fail ⟨2⟩) :=
      ⟨_, _, t, hvisits _ 0, ht⟩
    obtain ⟨levels, lanes, g', hscanned, hsaturates⟩ := (hsettings _).2.2 _ _ _ _ _ hmakes rfl rfl
    exact ⟨_, levels, lanes, g', hmakes, rfl, hscanned, hsaturates⟩

end Graft
