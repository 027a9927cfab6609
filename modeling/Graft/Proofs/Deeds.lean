import Graft.Proofs.Effects

/-!
# What attempts do to the state

An attempt that comes to a result goes from one state to another. A `Deed` is something that attempts may do on the way. `Gathers`
tells what is gathered by attempts that do it, each in the state that the one before has left, and `Does` tells, one step deep,
what the body of a rule comes to and which state it leaves when the attempts that it makes do it. A deed that passes from the
attempts of a rule to the rule itself is done by every attempt from scratch.
-/

namespace Graft

open Engine

variable [Pattern.Compiler]

/-- What an attempt may do, whose result will be shown under some name: the state before it, the rule, the offset and the
context that it is made in, what it comes to, and the state that it leaves. -/
abbrev Deed := Option String → State → RuleId → Nat → Context → Attempt → State → Prop

/-- What is gathered from an offset on by attempts of some edges, each of which does `P` to the state that the one before
left. -/
inductive Gathers (P : Deed) (edges : List Edge) (live : Context) (offset : Nat) (s : State) : Gathering → State → Prop where
  | begin : Gathers P edges live offset s (.begin offset) s
  | accept {p : Progress} {a : Attempt} {t u : State} (gathers : Gathers P edges live offset s p.gathering t)
      (opens : p.lane.Opens edges live) (does : P none t p.lane.edge.rule p.gathering.cursor p.lane.context a u) :
      Gathers P edges live offset s (p.accept a).2.gathering u

/-- What the body of a rule comes to, and which state it leaves, when the attempts that it makes do `P`. -/
inductive Does (setting : Setting) (P : Deed) (s : State) (rule : RuleId) (offset : Nat) (context : Context) :
    Attempt → State → Prop where
  | unmatched {kind : ConsumeKind} {binding : Binding} {pattern : Pattern}
      (rules : setting.grammar.body? rule = some (.consume kind binding))
      (boundary : Text.isBoundary setting.input offset = true) :
      Does setting P s rule offset context
        (.failure rule ⟨offset, (pattern.matchFront ((Text.bytes setting.input).drop offset)).examined⟩) s
  | matched {kind : ConsumeKind} {binding : Binding} {pattern : Pattern} {length : Nat} {text : String}
      (rules : setting.grammar.body? rule = some (.consume kind binding))
      (found : (pattern.matchFront ((Text.bytes setting.input).drop offset)).length = some length)
      (cut : Text.slice? setting.input offset (offset + length) = some text) :
      Does setting P s rule offset context
        (.success (.leaf s.nextId ⟨offset, Text.size text⟩ text)
          (.leaf rule ⟨offset, (pattern.matchFront ((Text.bytes setting.input).drop offset)).examined⟩))
        (s.consuming kind text).issued
  | full {kind : ContainerKind} {edges : List Edge} {g : Gathering} {t : State} (chosen : Option Nat)
      (rules : setting.grammar.body? rule = some (.container kind edges)) (plain : ∀ nonEmpty, kind ≠ .value nonEmpty)
      (gathers : Gathers P edges context offset s g t) :
      Does setting P s rule offset context (Reading.succeed t.nextId g rule chosen) t.issued
  | short {kind : ContainerKind} {edges : List Edge} {g : Gathering} {t : State}
      (rules : setting.grammar.body? rule = some (.container kind edges)) (plain : ∀ nonEmpty, kind ≠ .value nonEmpty)
      (gathers : Gathers P edges context offset s g t) :
      Does setting P s rule offset context (g.fail rule) (s.restored t)
  -- no edge has read anything, so the text is not taken back
  | missed {edges : List Edge} {g : Gathering} {t : State}
      (rules : setting.grammar.body? rule = some (.container .firstOrder edges))
      (gathers : Gathers P edges context offset s g t) (nothing : g.children = #[]) :
      Does setting P s rule offset context (g.fail rule) t
  | valued {nonEmpty : Bool} {edges : List Edge} {g : Gathering} {t : State} (name : String)
      (rules : setting.grammar.body? rule = some (.container (.value nonEmpty) edges))
      (gathers : Gathers P edges context offset s.opened g t) :
      Does setting P s rule offset context
        (.success
          (.value t.nextId.next (g.statement t.nextId).region name (Run.innermost t.collected) (g.statement t.nextId))
          (.around rule (g.derivation rule none)))
        t.issued.closed.issued
  | hollow {nonEmpty : Bool} {edges : List Edge} {g : Gathering} {t : State}
      (rules : setting.grammar.body? rule = some (.container (.value nonEmpty) edges))
      (gathers : Gathers P edges context offset s.opened g t) :
      Does setting P s rule offset context (g.fail rule) t.issued.closed
  | unvalued {nonEmpty : Bool} {edges : List Edge} {g : Gathering} {t : State}
      (rules : setting.grammar.body? rule = some (.container (.value nonEmpty) edges))
      (gathers : Gathers P edges context offset s.opened g t) :
      Does setting P s rule offset context (g.fail rule) (s.opened.restored t).closed
  | called {call : Invocation} {target : RuleId} {inside : Context} {body : Statement} {inner : Derivation} {t : State}
      (rules : setting.grammar.body? rule = some (.invoke call))
      (resolved : resolveCall setting.grammar call context = .ok (target, inside))
      (does : P call.shownAs s target offset inside (.success body inner) t) :
      Does setting P s rule offset context
        (.success (.group t.nextId body.region [Reading.shown call.shownAs body]) (.around rule inner)) t.issued
  | uncalled {call : Invocation} {target : RuleId} {inside : Context} {a : Attempt} {t : State}
      (rules : setting.grammar.body? rule = some (.invoke call))
      (resolved : resolveCall setting.grammar call context = .ok (target, inside))
      (failed : a.statement = none) (does : P call.shownAs s target offset inside a t) :
      Does setting P s rule offset context (.failure rule a.interest) t

/-- Attempts from scratch do `P`. -/
def FreshDoes (P : Deed) (attempts : Attempts) : Prop :=
  ∀ {shownAs s rule offset context a t}, attempts.fresh rule offset context s = .ok (a, t) →
    P shownAs s rule offset context a t

/-- Attempts on an earlier node, which is shown under some name, do `P`. -/
def AgainDoes (P : Deed) (attempts : Attempts) (shownAs : Option String) (rule : RuleId) (e : Earlier) (context : Context) :
    Prop :=
  ∀ {s offset a t}, attempts.again rule e.1 e.2 offset context s = .ok (a, t) → P shownAs s rule offset context a t

/-- Attempts on earlier children of a container do `P`. -/
def EarliersDo (P : Deed) (attempts : Attempts) (edges : List Edge) (live : Context) (earliers : Earliers) : Prop :=
  ∀ index edge, edges[index]? = some edge → ∀ e ∈ earliers.ofEdge index,
    AgainDoes P attempts none edge.rule e (edge.context live)

/-- Without earlier children there is nothing to do. -/
theorem EarliersDo.none {P : Deed} {attempts : Attempts} {edges : List Edge} {live : Context} :
    EarliersDo P attempts edges live {} := by
  intro index edge _ e hm
  rw [Earliers.ofEdge_empty] at hm
  cases hm

/-! ## Lanes -/

/-- What came of reading an edge: where no attempt of it has succeeded, there are no more children than before. -/
def Engine.Progress.Grows (p q : Progress) : Prop :=
  q.matched = false → p.matched = false ∧ q.gathering.children = p.gathering.children

theorem Engine.Progress.Grows.refl (p : Progress) : p.Grows p := fun h => ⟨h, rfl⟩

/-- What grows in two steps grows. -/
theorem Engine.Progress.Grows.trans {p q r : Progress} (h : p.Grows q) (h' : q.Grows r) : p.Grows r := by
  intro hr
  obtain ⟨h1, h2⟩ := h' hr
  obtain ⟨h3, h4⟩ := h h1
  exact ⟨h3, h2.trans h4⟩

/-- An attempt brings no children unless it succeeds. -/
theorem Engine.Progress.grows_accept (p : Progress) (a : Attempt) : p.Grows (p.accept a).2 := by
  intro h
  obtain ⟨hp, hs⟩ := (p.matched_accept a).1 h
  rw [accept_failure hs]
  exact ⟨hp, rfl⟩

section

variable {P : Deed} {attempts : Attempts} {setting : Setting} {edges : List Edge} {live : Context} {offset : Nat}
  {s t u : State} {p q : Progress} {g g' : Gathering}

/-- Attempts on an edge from scratch are gathered, each in the state that the one before has left. -/
theorem readFresh_gathers (hA : FreshDoes P attempts) {owner : RuleId} {budget : Nat}
    (h : readFresh attempts owner budget p t = .ok (q, u)) (hl : p.lane.Opens edges live)
    (hg : Gathers P edges live offset s p.gathering t) :
    Gathers P edges live offset s q.gathering u ∧ p.Grows q := by
  induction budget generalizing p t with
  | zero => cases h
  | succ budget ih =>
    rw [readFresh_succ] at h
    split at h
    · obtain ⟨a, v, ha, h⟩ := Run.bind_eq_ok.1 h
      have hg' := hg.accept hl (hA ha)
      have hgrows := p.grows_accept a
      split at h
      · obtain ⟨h1, h2⟩ := ih h (hl.accept a) hg'
        exact ⟨h1, hgrows.trans h2⟩
      · cases h
        exact ⟨hg', hgrows⟩
    · cases h
      exact ⟨hg, .refl _⟩

/-- Attempts on earlier children of an edge are gathered, and leave the edge open for more. -/
theorem readAgain_gathers {earlier : List Earlier} {done : Bool} (h : readAgain attempts earlier p t = .ok ((done, q), u))
    (hl : p.lane.Opens edges live) (hE : ∀ e ∈ earlier, AgainDoes P attempts none p.lane.edge.rule e p.lane.context)
    (hg : Gathers P edges live offset s p.gathering t) :
    Gathers P edges live offset s q.gathering u ∧ q.lane.Opens edges live ∧ p.Grows q := by
  induction earlier generalizing p t with
  | nil =>
    cases h
    exact ⟨hg, hl, .refl _⟩
  | cons e rest ih =>
    obtain ⟨hfirst, hrest⟩ := List.forall_mem_cons.1 hE
    rw [readAgain_cons] at h
    split at h
    · obtain ⟨a, v, ha, h⟩ := Run.bind_eq_ok.1 h
      have hg' := hg.accept hl (hfirst ha)
      have hgrows := p.grows_accept a
      split at h
      · obtain ⟨_, hedge, hcontext⟩ := p.lane_accept a
        rw [← hedge, ← hcontext] at hrest
        obtain ⟨h1, h2, h3⟩ := ih h (hl.accept a) hrest hg'
        exact ⟨h1, h2, hgrows.trans h3⟩
      · cases h
        exact ⟨hg', hl.accept a, hgrows⟩
    · cases h
      exact ⟨hg, hl, .refl _⟩

/-- Reading an edge from its beginning. -/
theorem readLane_gathers (hA : FreshDoes P attempts) {owner : RuleId} {earlier : List Earlier} {edge : Edge} {index : Nat}
    {lane : Lane} (h : readLane setting attempts owner earlier { gathering := g, lane } t = .ok (q, u))
    (he : edges[index]? = some edge) (hl : Lane.open index edge live = .ok lane)
    (hE : ∀ e ∈ earlier, AgainDoes P attempts none edge.rule e (edge.context live))
    (hg : Gathers P edges live offset s g t) :
    Gathers P edges live offset s q.gathering u ∧ (q.matched = false → q.gathering.children = g.children) := by
  have hopens := Lane.opens_of_open he hl
  obtain ⟨occurrence, _, rfl⟩ := Lane.eq_of_open hl
  rw [readLane] at h
  obtain ⟨⟨done, p1⟩, v, hagain, h⟩ := Run.bind_eq_ok.1 h
  obtain ⟨hg1, hl1, hgrows⟩ := readAgain_gathers hagain hopens hE hg
  cases done with
  | true =>
    cases h
    exact ⟨hg1, fun hm => (hgrows hm).2⟩
  | false =>
    obtain ⟨hg2, hgrows'⟩ := readFresh_gathers hA h hl1 hg1
    exact ⟨hg2, fun hm => ((hgrows.trans hgrows') hm).2⟩

/-! ## Containers -/

/-- What edges in order come to is gathered edge by edge. -/
theorem readInOrder_gathers (hA : FreshDoes P attempts) {owner : RuleId} {earliers : Earliers}
    (hE : EarliersDo P attempts edges live earliers) {entries : List (Edge × Nat)} {complete : Bool}
    (he : ∀ entry ∈ entries, edges[entry.2]? = some entry.1)
    (h : readInOrder setting attempts owner live earliers entries g t = .ok ((complete, g'), u))
    (hg : Gathers P edges live offset s g t) : Gathers P edges live offset s g' u := by
  induction entries generalizing g t with
  | nil =>
    cases h
    exact hg
  | cons entry entries ih =>
    obtain ⟨hedge, hedges⟩ := List.forall_mem_cons.1 he
    rw [readInOrder] at h
    obtain ⟨lane, hl, h⟩ := Run.lift_bind_eq_ok.1 h
    obtain ⟨q, v, hq, h⟩ := Run.bind_eq_ok.1 h
    obtain ⟨hg', _⟩ := readLane_gathers hA hq hedge hl (hE _ _ hedge) hg
    split at h
    · exact ih hedges h hg'
    · cases h
      exact hg'

/-- Where no edge is chosen, and none has broken its occurrence, no edge has read anything. -/
theorem readFirst_gathers (hA : FreshDoes P attempts) {owner : RuleId} {earliers : Earliers}
    (hE : EarliersDo P attempts edges live earliers) {entries : List (Edge × Nat)} {choice : Choice}
    (he : ∀ entry ∈ entries, edges[entry.2]? = some entry.1)
    (h : readFirst setting attempts owner live earliers entries g t = .ok ((choice, g'), u))
    (hg : Gathers P edges live offset s g t) :
    Gathers P edges live offset s g' u ∧ (choice = .none → g'.children = g.children) := by
  induction entries generalizing g t with
  | nil =>
    cases h
    exact ⟨hg, fun _ => rfl⟩
  | cons entry entries ih =>
    obtain ⟨hedge, hedges⟩ := List.forall_mem_cons.1 he
    have hearlier := Earliers.forall_mem_chosen (hE _ _ hedge)
    rw [readFirst] at h
    obtain ⟨lane, hl, h⟩ := Run.lift_bind_eq_ok.1 h
    obtain ⟨q, v, hq, h⟩ := Run.bind_eq_ok.1 h
    obtain ⟨hg', hunmatched⟩ := readLane_gathers hA hq hedge hl hearlier hg
    split at h
    · cases h
      exact ⟨hg', fun hc => by cases hc⟩
    · split at h
      · cases h
        exact ⟨hg', fun hc => by cases hc⟩
      · rename_i hmatched
        obtain ⟨h1, h2⟩ := ih hedges h hg'
        exact ⟨h1, fun hc => (h2 hc).trans (hunmatched (Bool.not_eq_true _ ▸ hmatched))⟩

/-- Opening the edges of a container leaves the state as it is. -/
theorem openAll_eq_ok {entries : List (Edge × Nat)} {lanes : List Lane}
    (h : (entries.mapM fun entry => (liftM (Lane.open entry.2 entry.1 live) : Run Lane)) s = .ok (lanes, t)) :
    Reading.openAll live entries = some lanes ∧ t = s := by
  rw [Run.mapM_liftM] at h
  exact (Run.lift_eq_ok.1 h).imp_left Reading.openAll_eq_some_iff.2

/-- What replayed children come to is gathered child by child, and leaves the edges open for more. -/
theorem replay_gathers {children : List (Nat × Earlier)} {lanes lanes' : List Lane}
    (hE : ∀ child ∈ children, ∀ edge, edges[child.1]? = some edge →
      AgainDoes P attempts none edge.rule child.2 (edge.context live))
    (h : replay attempts children lanes g t = .ok ((lanes', g'), u)) (hl : ReadAll edges live lanes)
    (hg : Gathers P edges live offset s g t) :
    Gathers P edges live offset s g' u ∧ ∀ lane ∈ lanes', lane.Opens edges live := by
  induction children generalizing lanes g t with
  | nil =>
    cases h
    exact ⟨hg, hl.opens⟩
  | cons child rest ih =>
    obtain ⟨index, earlier⟩ := child
    rw [replay] at h
    cases hi : lanes[index]? with
    | none =>
      rw [hi] at h
      cases h
      exact ⟨hg, hl.opens⟩
    | some lane =>
      have hlane := hl index lane hi
      simp only [hi] at h
      split at h
      · obtain ⟨a, v, ha, h⟩ := Run.bind_eq_ok.1 h
        rw [hlane.opens.context] at ha
        have hdoes := hE _ (List.mem_cons_self ..) _ hlane.edge ha
        rw [← hlane.opens.context] at hdoes
        have hg' := Gathers.accept (p := { gathering := g, lane }) hg hlane.opens hdoes
        have hl' := hl.set (hlane.accept (p := { gathering := g, lane }) a)
        split at h
        · cases h
          exact ⟨hg', hl'.opens⟩
        · exact ih (fun child hm => hE child (List.mem_cons_of_mem _ hm)) h hl' hg'
      · cases h
        exact ⟨hg, hl.opens⟩

/-- What one pass over the open edges comes to is gathered. -/
theorem scan_gathers (hA : FreshDoes P attempts) {lanes lanes' : List Lane} {found : Bool}
    (h : scan attempts lanes g t = .ok ((found, lanes', g'), u)) (hl : ∀ lane ∈ lanes, lane.Opens edges live)
    (hg : Gathers P edges live offset s g t) :
    Gathers P edges live offset s g' u ∧ ∀ lane ∈ lanes', lane.Opens edges live := by
  induction lanes generalizing g t found lanes' with
  | nil =>
    cases h
    exact ⟨hg, hl⟩
  | cons lane lanes ih =>
    obtain ⟨hlane, hlanes⟩ := List.forall_mem_cons.1 hl
    rw [scan] at h
    split at h
    · obtain ⟨a, v, ha, h⟩ := Run.bind_eq_ok.1 h
      have hg' := Gathers.accept (p := { gathering := g, lane }) hg hlane (hA ha)
      have hl' := Lane.Opens.accept (p := { gathering := g, lane }) hlane a
      simp only at h
      split at h
      · cases h
        exact ⟨hg', List.forall_mem_cons.2 ⟨hl', hlanes⟩⟩
      · obtain ⟨⟨found1, rest, g1⟩, w, hs, h⟩ := Run.bind_eq_ok.1 h
        cases h
        obtain ⟨h1, h2⟩ := ih hs hlanes hg'
        exact ⟨h1, List.forall_mem_cons.2 ⟨hl', h2⟩⟩
    · obtain ⟨⟨found1, rest, g1⟩, w, hs, h⟩ := Run.bind_eq_ok.1 h
      cases h
      obtain ⟨h1, h2⟩ := ih hs hlanes hg
      exact ⟨h1, List.forall_mem_cons.2 ⟨hlane, h2⟩⟩

/-- What all passes over the open edges come to is gathered. -/
theorem scanAll_gathers (hA : FreshDoes P attempts) {owner : RuleId} {budget : Nat} {lanes lanes' : List Lane}
    (h : scanAll attempts owner budget lanes g t = .ok ((lanes', g'), u)) (hl : ∀ lane ∈ lanes, lane.Opens edges live)
    (hg : Gathers P edges live offset s g t) : Gathers P edges live offset s g' u := by
  induction budget generalizing lanes g t with
  | zero => cases h
  | succ budget ih =>
    rw [scanAll] at h
    obtain ⟨⟨found, lanes1, g1⟩, v, hs, h⟩ := Run.bind_eq_ok.1 h
    obtain ⟨h1, h2⟩ := scan_gathers hA hs hl hg
    simp only at h
    split at h
    · exact ih h h2 h1
    · cases h
      exact h1

/-! ## Bodies of rules -/

variable {rule : RuleId} {a : Attempt}

/-- A container in order ends with what it has gathered, as a success without a choice or as a failure that takes its text
back. -/
theorem inOrder_eq_ok (hA : FreshDoes P attempts) {earliers : Earliers} (hE : EarliersDo P attempts edges live earliers)
    (h : inOrder setting attempts rule edges earliers offset live s = .ok (a, u)) :
    ∃ g t, Gathers P edges live offset s g t ∧
      (a = Reading.succeed t.nextId g rule none ∧ u = t.issued ∨ a = g.fail rule ∧ u = s.restored t) := by
  rw [inOrder, Run.mark_bind] at h
  obtain ⟨⟨complete, g⟩, t, hread, h⟩ := Run.bind_eq_ok.1 h
  refine ⟨g, t, readInOrder_gathers hA hE Reading.getElem?_of_mem_zipIdx hread .begin, ?_⟩
  cases complete with
  | true =>
    cases h
    exact Or.inl ⟨rfl, rfl⟩
  | false =>
    cases h
    exact Or.inr ⟨rfl, rfl⟩

/-- A container without order does what its rule may do. -/
theorem anyOrder_does (hA : FreshDoes P attempts) {earliers : Earliers} (hE : EarliersDo P attempts edges live earliers)
    (hr : setting.grammar.body? rule = some (.container .anyOrder edges))
    (h : anyOrder setting attempts rule edges earliers offset live s = .ok (a, u)) :
    Does setting P s rule offset live a u := by
  have hchildren : ∀ child ∈ earliers.children, ∀ edge, edges[child.1]? = some edge →
      AgainDoes P attempts none edge.rule child.2 (edge.context live) :=
    fun child hm edge hedge => hE child.1 edge hedge child.2 (Earliers.mem_ofEdge.2 hm)
  rw [anyOrder, Run.mark_bind] at h
  obtain ⟨lanes, t0, hopen, h⟩ := Run.bind_eq_ok.1 h
  obtain ⟨hlanes, rfl⟩ := openAll_eq_ok hopen
  obtain ⟨⟨lanes1, g1⟩, t1, hreplay, h⟩ := Run.bind_eq_ok.1 h
  obtain ⟨h1, h2⟩ := replay_gathers hchildren hreplay (ReadAll.of_edges hlanes) .begin
  obtain ⟨⟨lanes2, g⟩, t, hscan, h⟩ := Run.bind_eq_ok.1 h
  have hg := scanAll_gathers hA hscan h2 h1
  simp only at h
  split at h
  · cases h
    exact .full none hr (by simp) hg
  · cases h
    exact .short hr (by simp) hg

/-- A choice does what its rule may do. -/
theorem firstOrder_does (hA : FreshDoes P attempts) {earliers : Earliers} (hE : EarliersDo P attempts edges live earliers)
    (hr : setting.grammar.body? rule = some (.container .firstOrder edges))
    (h : firstOrder setting attempts rule edges earliers offset live s = .ok (a, u)) :
    Does setting P s rule offset live a u := by
  rw [firstOrder, Run.mark_bind] at h
  obtain ⟨⟨choice, g⟩, t, hread, h⟩ := Run.bind_eq_ok.1 h
  obtain ⟨hg, hnothing⟩ := readFirst_gathers hA hE Reading.getElem?_of_mem_zipIdx hread .begin
  cases choice with
  | chosen index =>
    cases h
    exact .full (some index) hr (by simp) hg
  | broken =>
    cases h
    exact .short hr (by simp) hg
  | none =>
    cases h
    exact .missed hr hg (hnothing rfl)

/-- A value does what its rule may do. -/
theorem value_does (hA : FreshDoes P attempts) {earliers : Earliers} (hE : EarliersDo P attempts edges live earliers)
    {nonEmpty : Bool} (hr : setting.grammar.body? rule = some (.container (.value nonEmpty) edges)) {name : String}
    (h : value setting attempts rule name nonEmpty edges earliers offset live s = .ok (a, u)) :
    Does setting P s rule offset live a u := by
  rw [value, Run.openValue_bind] at h
  obtain ⟨body, v, hbody, h⟩ := Run.bind_eq_ok.1 h
  obtain ⟨g, t, hg, ⟨rfl, rfl⟩ | ⟨rfl, rfl⟩⟩ := inOrder_eq_ok hA hE hbody
  · rw [Run.closeValue_bind] at h
    simp only [Reading.succeed, Attempt.success] at h
    split at h
    · cases h
      exact .hollow hr hg
    · cases h
      exact .valued name hr hg
  · rw [Run.closeValue_bind] at h
    cases h
    exact .unvalued hr hg

/-- Attempting a container, given its earlier children. -/
theorem container_does (hA : FreshDoes P attempts) {earliers : Earliers} (hE : EarliersDo P attempts edges live earliers)
    (known : Rule) {kind : ContainerKind} (hr : setting.grammar.body? rule = some (.container kind edges))
    (h : container setting attempts rule known kind edges earliers offset live s = .ok (a, u)) :
    Does setting P s rule offset live a u := by
  cases kind with
  | inOrder =>
    obtain ⟨g, t, hg, ⟨rfl, rfl⟩ | ⟨rfl, rfl⟩⟩ := inOrder_eq_ok hA hE h
    · exact .full none hr (by simp) hg
    · exact .short hr (by simp) hg
  | anyOrder => exact anyOrder_does hA hE hr h
  | firstOrder => exact firstOrder_does hA hE hr h
  | value nonEmpty => exact value_does hA hE hr h

/-- Attempting an invocation, also on an earlier node of its target. -/
theorem invoke_does (hA : FreshDoes P attempts) {call : Invocation}
    (hr : setting.grammar.body? rule = some (.invoke call)) {earlier : Option Earlier} {context : Context}
    (hE : ∀ e target inside, earlier = some e → AgainDoes P attempts call.shownAs target e inside)
    (h : invoke setting attempts rule call earlier offset context s = .ok (a, u)) :
    Does setting P s rule offset context a u := by
  rw [invoke] at h
  obtain ⟨⟨target, inside⟩, hresolved, h⟩ := Run.lift_bind_eq_ok.1 h
  have hresolved := Except.mapError_eq_ok.1 hresolved
  have hattempt : ∃ b t, P call.shownAs s target offset inside b t ∧ wrap rule call b t = .ok (a, u) := by
    cases earlier with
    | none =>
      obtain ⟨b, t, hb, h⟩ := Run.bind_eq_ok.1 h
      exact ⟨b, t, hA hb, h⟩
    | some e =>
      obtain ⟨b, t, hb, h⟩ := Run.bind_eq_ok.1 h
      exact ⟨b, t, hE e target inside rfl hb, h⟩
  obtain ⟨⟨statement, inner⟩, t, hdoes, hwrap⟩ := hattempt
  cases statement with
  | none =>
    cases hwrap
    exact .uncalled hr hresolved rfl hdoes
  | some body =>
    rw [Reading.wrap_of_some rfl, Run.freshId_bind] at hwrap
    cases hwrap
    exact .called hr hresolved hdoes

/-- A pattern does what its rule may do. -/
theorem consume_does {kind : ConsumeKind} {binding : Binding}
    (hr : setting.grammar.body? rule = some (.consume kind binding)) {context : Context}
    (h : consume setting rule kind binding offset context s = .ok (a, u)) :
    Does setting P s rule offset context a u := by
  rw [consume] at h
  obtain ⟨pattern, _, h⟩ := Run.lift_bind_eq_ok.1 h
  obtain ⟨hboundary, h⟩ := Run.matchAt_eq_ok h
  simp only at h
  cases hl : (pattern.matchFront ((Text.bytes setting.input).drop offset)).length with
  | none =>
    rw [hl] at h
    cases h
    exact .unmatched hr hboundary
  | some length =>
    simp only [hl] at h
    cases hc : Text.slice? setting.input offset (offset + length) with
    | none =>
      rw [hc] at h
      cases h
    | some text =>
      simp only [hc] at h
      cases kind with
      | keep =>
        cases h
        exact .matched hr hl hc
      | skip =>
        cases h
        exact .matched hr hl hc

/-- Reading a body from scratch. -/
theorem readBody_does (hA : FreshDoes P attempts) {context : Context}
    (h : readBody setting attempts rule offset context s = .ok (a, u)) : Does setting P s rule offset context a u := by
  rw [readBody] at h
  obtain ⟨known, hk, h⟩ := Run.lift_bind_eq_ok.1 h
  have hr := Grammar.body?_of_getRule hk
  cases hbody : known.body with
  | consume kind pattern =>
    rw [hbody] at h hr
    exact consume_does hr h
  | container kind edges =>
    rw [hbody] at h hr
    exact container_does hA .none known hr h
  | invoke call =>
    rw [hbody] at h hr
    exact invoke_does hA hr (fun e _ _ he => by cases he) h

/-- Reading a body with an earlier node at hand. -/
theorem rereadBody_does (hA : FreshDoes P attempts) {context : Context} {statement : Statement} {d : Derivation}
    (hE : ∀ kind edges, setting.grammar.body? rule = some (.container kind edges) →
      EarliersDo P attempts edges context (earliersOf kind statement d))
    (hC : ∀ call, setting.grammar.body? rule = some (.invoke call) → ∀ e target inside, earlierCall? statement d = some e →
      AgainDoes P attempts call.shownAs target e inside)
    (h : rereadBody setting attempts rule statement d offset context s = .ok (a, u)) :
    Does setting P s rule offset context a u := by
  rw [rereadBody] at h
  obtain ⟨known, hk, h⟩ := Run.lift_bind_eq_ok.1 h
  have hr := Grammar.body?_of_getRule hk
  cases hbody : known.body with
  | consume kind pattern =>
    rw [hbody] at h hr
    exact consume_does hr h
  | container kind edges =>
    rw [hbody] at h hr
    exact container_does hA (hE kind edges hr) known hr h
  | invoke call =>
    rw [hbody] at h hr
    exact invoke_does hA hr (hC call hr) h

end

/-! ## Attempts -/

/-- What a deed has to be to be done by attempts: it is done by what is found in the memo, and passes from the attempts that a
body makes to an entered rule that is read, or read again. -/
structure Deed.Passes (setting : Setting) (P : Deed) : Prop where
  found : ∀ {shownAs : Option String} {s : State} {rule : RuleId} {offset : Nat} {context : Context} {entry : MemoEntry},
    s.memo[(⟨rule, offset, context⟩ : MemoKey)]? = some entry → setting.memoize = true →
    P shownAs s rule offset context entry.attempt (s.entered.found entry).left
  read : ∀ {shownAs : Option String} {s : State} {rule : RuleId} {offset : Nat} {context : Context} {a : Attempt} {t : State},
    Does setting P (s.entered.unfound setting) rule offset context a t →
    (setting.memoize = true → s.memo[(⟨rule, offset, context⟩ : MemoKey)]? = none) →
    P shownAs s rule offset context a
      (((t.reaching a).remembering setting ⟨rule, offset, context⟩ ⟨a, s.since t⟩).left)
  reread : ∀ {shownAs : Option String} {s : State} {rule : RuleId} {offset : Nat} {context : Context} {a : Attempt} {t : State},
    Does setting P s.entered.rederiving rule offset context a t →
    P shownAs s rule offset context a (t.left.reaching a)

section

variable {P : Deed} {attempts : Attempts} {setting : Setting} {rule : RuleId} {offset : Nat} {context : Context}
  {shownAs : Option String} {s t : State} {a : Attempt}

/-- A deed that passes from the attempts of a rule to the rule is done by its attempt from scratch. -/
theorem attempt_does (hP : P.Passes setting) (hA : FreshDoes P attempts)
    (h : attempt setting attempts rule offset context s = .ok (a, t)) : P shownAs s rule offset context a t := by
  rw [attempt] at h
  obtain ⟨_, u, hlook, h⟩ := Run.bind_eq_ok.1 (Run.enter_eq_ok h)
  cases h
  rw [lookUpOrRead] at hlook
  rcases Run.lookUp_eq_ok hlook with ⟨entry, hon, hentry, hlook⟩ | ⟨hmissing, hlook⟩
  -- what was found is the result as it stands
  · cases hlook
    exact hP.found hentry hon
  · simp only [Run.mark_bind] at hlook
    obtain ⟨b, v, hread, hlook⟩ := Run.bind_eq_ok.1 hlook
    rw [Run.reach_eq, Run.since_bind, Run.remember_eq] at hlook
    cases hlook
    have hpassed := @Deed.Passes.read _ _ _ hP shownAs s rule offset context _ v (readBody_does hA hread) hmissing
    rw [State.since] at hpassed
    rw [State.collected_reaching, State.collected_unfound]
    exact hpassed

/-- A node that is kept is the result, and its text is added. -/
theorem reuse_eq_ok {statement : Statement} {d : Derivation} (hk : statement.Known setting.grammar d)
    (h : reuse setting statement d s = .ok (a, t)) :
    a = .success statement d ∧ t = s.reusing setting.grammar (statement, d) := by
  rw [reuse, Run.bind_apply, recollect_eq setting.grammar statement d s hk, Run.ok_bind] at h
  simp only at h
  rw [Run.reach_eq, Run.count_bind] at h
  cases h
  exact ⟨rfl, rfl⟩

/-- An attempt on an earlier node starts from scratch where another rule has read the node, keeps it where no edit has touched it,
and else reads the body with the earlier nodes at hand. -/
theorem reattempt_does (hP : P.Passes setting) (hA : FreshDoes P attempts) {statement : Statement} {d : Derivation}
    (hknown : statement.Known setting.grammar d)
    (hkept : d.rule = rule → statement.region.offset = offset → setting.modified.contains statement.id = false →
      P shownAs s rule offset context (.success statement d) (s.reusing setting.grammar (statement, d)))
    (hE : d.rule = rule → ∀ kind edges, setting.grammar.body? rule = some (.container kind edges) →
      EarliersDo P attempts edges context (earliersOf kind statement d))
    (hC : d.rule = rule → ∀ call, setting.grammar.body? rule = some (.invoke call) → ∀ e target inside,
      earlierCall? statement d = some e → AgainDoes P attempts call.shownAs target e inside)
    (h : reattempt setting attempts rule statement d offset context s = .ok (a, t)) :
    P shownAs s rule offset context a t := by
  rw [reattempt] at h
  split at h
  · exact attempt_does hP hA h
  · rename_i hrule
    have hrule := Decidable.not_not.1 hrule
    split at h
    · rename_i hkeep
      simp only [Bool.and_eq_true, decide_eq_true_eq, Bool.not_eq_true'] at hkeep
      obtain ⟨rfl, rfl⟩ := reuse_eq_ok hknown h
      exact hkept hrule hkeep.1 hkeep.2
    · have h := Run.enter_eq_ok h
      rw [Run.count_bind] at h
      obtain ⟨b, u, hread, h⟩ := Run.bind_eq_ok.1 h
      rw [Run.leave_bind, Run.reach_eq] at h
      cases h
      exact hP.reread (rereadBody_does hA (hE hrule) (hC hrule) hread)

/-- **What passes from attempts to rules is done** by every attempt from scratch. -/
theorem fresh_does (hP : P.Passes setting) (levels : Nat) : FreshDoes P (Engine.attempts setting levels) := by
  induction levels with
  | zero =>
    intro _ _ _ _ _ _ _ h
    cases h
  | succ levels ih =>
    intro _ _ _ _ _ _ _ h
    exact attempt_does hP ih h

end

/-! ## Properties of attempts -/

/-- Attempts satisfy a claim, as long as those that are remembered do. -/
def Claim.deed (Q : Claim) : Deed := fun _ s rule offset context a t =>
  s.Remembers Q → Q rule offset context a ∧ t.Remembers Q

section

variable {Q : Claim} {setting : Setting} {s t : State} {rule : RuleId} {offset : Nat} {context : Context} {a : Attempt}

/-- An attempt with the property may be remembered. -/
theorem State.Remembers.remembering (h : s.Remembers Q) (ha : Q rule offset context a) (text : String) :
    (s.remembering setting ⟨rule, offset, context⟩ ⟨a, text⟩).Remembers Q := by
  intro other e he
  rcases State.getElem?_remembering he with ⟨rfl, rfl⟩ | he
  · exact ha
  · exact h other e he

/-- Attempts that satisfy a claim gather what is gathered by such attempts. -/
theorem Gathers.of_deed {edges : List Edge} {live : Context} {g : Gathering}
    (h : Gathers Q.deed edges live offset s g t) (hs : s.Remembers Q) : Gathered Q edges live offset g ∧ t.Remembers Q := by
  induction h with
  | begin => exact ⟨.begin, hs⟩
  | accept _ opens does ih =>
    obtain ⟨hg, hremembers⟩ := ih
    obtain ⟨ha, hremembers'⟩ := does hremembers
    exact ⟨.accept hg opens ha, hremembers'⟩

/-- What a body does is what it may come to. -/
theorem Does.of_deed (h : Does setting Q.deed s rule offset context a t) (hs : s.Remembers Q) :
    Body setting.grammar setting.input Q rule offset context a ∧ t.Remembers Q := by
  cases h with
  | unmatched rules boundary => exact ⟨.unmatched rules boundary, hs⟩
  | matched rules found cut => exact ⟨.matched _ rules found cut, hs.of_eq (State.memo_consuming _ _ _)⟩
  | full chosen rules plain gathers =>
    obtain ⟨hg, ht⟩ := gathers.of_deed hs
    exact ⟨.full _ chosen rules plain hg, ht⟩
  | short rules plain gathers =>
    obtain ⟨hg, ht⟩ := gathers.of_deed hs
    exact ⟨.short rules hg, ht⟩
  | missed rules gathers nothing =>
    obtain ⟨hg, ht⟩ := gathers.of_deed hs
    exact ⟨.short rules hg, ht⟩
  | valued name rules gathers =>
    obtain ⟨hg, ht⟩ := gathers.of_deed hs
    exact ⟨.valued _ _ name _ rules hg, ht⟩
  | hollow rules gathers =>
    obtain ⟨hg, ht⟩ := gathers.of_deed hs
    exact ⟨.short rules hg, ht⟩
  | unvalued rules gathers =>
    obtain ⟨hg, ht⟩ := gathers.of_deed hs
    exact ⟨.short rules hg, ht⟩
  | called rules resolved does =>
    obtain ⟨ha, ht⟩ := does hs
    exact ⟨.called _ rules resolved ha, ht⟩
  | uncalled rules resolved failed does =>
    obtain ⟨ha, ht⟩ := does hs
    have hbody : Body setting.grammar setting.input Q rule offset context (Reading.wrap Reading.noId rule _ _) :=
      .called _ rules resolved ha
    rw [Reading.wrap, failed] at hbody
    exact ⟨hbody, ht⟩

/-- A claim that passes from attempts to rules is a deed that does. -/
theorem Claim.Closed.deed_passes (hQ : Q.Closed setting.grammar setting.input) : Q.deed.Passes setting where
  found := fun hentry _ hs => ⟨hs _ _ hentry, hs⟩
  read := fun hdoes _ hs => by
    obtain ⟨hbody, ht⟩ := hdoes.of_deed (hs.of_eq (State.memo_unfound _ _))
    have ha := hQ _ _ _ _ hbody
    exact ⟨ha, (ht.of_eq (State.memo_reaching _ _)).remembering ha _⟩
  reread := fun hdoes hs => by
    obtain ⟨hbody, ht⟩ := hdoes.of_deed hs
    exact ⟨hQ _ _ _ _ hbody, ht.of_eq (State.memo_reaching _ _)⟩

end

end Graft
