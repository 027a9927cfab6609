import Graft.Proofs.Leaves
import Graft.Proofs.RuleSimulation
import Graft.Proofs.Tracks

/-!
# The texts of values

While a value is read, its text is collected apart from the tree: matches add to it, failures take back what they added, what is
remembered or kept adds its text again, and a value within it collects apart. What comes of this is told by the tree alone. The
text of a value is what the leaves below it hold that were read by rules that keep their text, and that lie in no value between.
-/

namespace Graft

open Engine

section

variable [Pattern.Compiler]

/-! ## Values -/

/-- A node that, if it is a value, has the text that the children of its body keep. -/
def Spelled (grammar : Grammar) (node : Statement × Derivation) : Prop :=
  ∀ id region name text body, node.1 = .value id region name text body →
    ∃ inner, node.2.children = [inner] ∧ text = Statement.keptOfList grammar body.children inner.children

namespace Spelled

variable {grammar : Grammar} {node : Statement × Derivation}

theorem of_leaf {id : NodeId} {region : Region} {text : String} {d : Derivation} :
    Spelled grammar (.leaf id region text, d) := by
  intro _ _ _ _ _ h
  cases h

theorem of_group {id : NodeId} {region : Region} {children : List Statement} {d : Derivation} :
    Spelled grammar (.group id region children, d) := by
  intro _ _ _ _ _ h
  cases h

theorem shown {s : Statement} {d : Derivation} (h : Spelled grammar (s, d)) (name : Option String) :
    Spelled grammar (Reading.shown name s, d) := by
  cases name with
  | none => exact h
  | some name =>
    cases s with
    | leaf => exact of_leaf
    | group => exact of_group
    | value id region own text body =>
      intro _ _ _ _ _ hs
      cases hs
      exact h _ _ _ _ _ rfl

theorem placed (h : Spelled grammar node) (v : Region → Region) : Spelled grammar (node.1.placed v, node.2.placed v) := by
  obtain ⟨s, d⟩ := node
  cases s with
  | leaf => simpa using of_leaf
  | group => simpa using of_group
  | value id region name text body =>
    obtain ⟨inner, hd, htext⟩ := h _ _ _ _ _ rfl
    intro _ _ _ _ _ hs
    rw [Statement.placed_value] at hs
    cases hs
    simp only at hd
    refine ⟨inner.placed v, ?_, ?_⟩
    · simp only [Derivation.children_placed, hd, List.map_cons, List.map_nil]
    · rw [htext, Statement.children_placed, Derivation.children_placed, ← Statement.placedList_eq_map,
        ← Derivation.placedList_eq_map, Statement.keptOfList_placed]

end Spelled

/-! ## Attempts -/

/-- What an attempt has read covers its text, and its values have the texts that they keep. -/
def Attempt.Spells (grammar : Grammar) (input : String) (offset : Nat) (a : Attempt) : Prop :=
  ∀ s, a.statement = some s → Attempt.CoversAs grammar input offset s a.derivation ∧
    ∀ node ∈ s.walk a.derivation, Spelled grammar node

/-- A state in which text is collected, and in which attempts are remembered with the texts that they keep. -/
structure State.Collects (setting : Setting) (s : State) : Prop where
  collected : s.collected ≠ []
  memo : ∀ (key : MemoKey) (entry : MemoEntry), s.memo[key]? = some entry → Text.isBoundary setting.input key.offset = true →
    entry.attempt.Spells setting.grammar setting.input key.offset ∧ entry.appended = entry.attempt.kept setting.grammar

/-- An attempt adds to the innermost value what it keeps. -/
def Spelling (setting : Setting) : Deed := fun _ s _ offset _ a t =>
  Text.isBoundary setting.input offset = true → s.Collects setting →
    a.Spells setting.grammar setting.input offset ∧ t.collected = (s.adding (a.kept setting.grammar)).collected ∧
      t.Collects setting

namespace State

variable {setting : Setting} {s t : State}

/-- At the beginning nothing is remembered. -/
theorem Collects.begin (setting : Setting) (nextId : NodeId) : State.Collects setting { nextId } :=
  ⟨List.cons_ne_nil _ _, fun key entry he => by simp at he⟩

/-- A state in which as much is remembered, and in which some text is collected. -/
theorem Collects.of_eq (h : s.Collects setting) (hm : t.memo = s.memo) (hc : t.collected ≠ []) : t.Collects setting :=
  ⟨hc, by rw [hm]; exact h.memo⟩

/-- Only the texts of a state matter for what is added to them. -/
theorem collected_adding_congr (h : t.collected = s.collected) (text : String) :
    (t.adding text).collected = (s.adding text).collected := by
  rw [adding, adding, h]

end State

section

variable {setting : Setting} {s t : State} {rule : RuleId} {offset : Nat} {context : Context} {a : Attempt} {g : Gathering}

theorem Attempt.Spells.of_failure (h : a.statement = none) (grammar : Grammar) (input : String) (offset : Nat) :
    a.Spells grammar input offset := by
  intro s hs
  rw [h] at hs
  cases hs

theorem Attempt.Spells.covers {grammar : Grammar} {input : String} (h : a.Spells grammar input offset) :
    Covers grammar input rule offset context a :=
  fun _ s hs => (h s hs).1

/-- A group has the nodes of its children, and is no value itself. -/
theorem Engine.Gathering.spelled {grammar : Grammar}
    (h : ∀ child ∈ g.children, ∀ node ∈ child.statement.walk child.derivation, Spelled grammar node) (id : NodeId)
    (rule : RuleId) (chosen : Option Nat) : ∀ node ∈ (g.statement id).walk (g.derivation rule chosen), Spelled grammar node := by
  intro node hm
  rcases Statement.mem_walk_group.1 hm with rfl | ⟨child, hc, hm⟩
  · exact .of_group
  · exact h child (Array.mem_toList_iff.1 hc) node hm

/-- What is gathered by attempts that add what they keep has added what it keeps. -/
theorem Gathers.spelling {edges : List Edge} {live : Context} (h : Gathers (Spelling setting) edges live offset s g t)
    (hb : Text.isBoundary setting.input offset = true) (hs : s.Collects setting) :
    Gathered (Covers setting.grammar setting.input) edges live offset g ∧
      (∀ child ∈ g.children, ∀ node ∈ child.statement.walk child.derivation, Spelled setting.grammar node) ∧
        t.collected = (s.adding (g.kept setting.grammar)).collected ∧ t.Collects setting := by
  induction h with
  | begin =>
    refine ⟨.begin, by simp [Gathering.begin], ?_, hs⟩
    rw [Gathering.kept_begin, State.adding_empty]
  | @accept p a t u _ opens does ih =>
    obtain ⟨hg, hbelow, hcollected, ht⟩ := ih
    have hcursor := (Text.slice?_eq_some_iff.1 (hg.covers (fun _ _ _ _ h => h) hb).text).2.1
    obtain ⟨ha, hadded, hu⟩ := does hcursor ht
    refine ⟨.accept hg opens ha.covers, ?_, ?_, hu⟩
    · intro child hm node hn
      rcases Progress.mem_children_accept hm with hm | ⟨st, hst, rfl⟩
      · exact hbelow child hm node hn
      · exact (ha st hst).2 node hn
    · rw [@Progress.kept_accept _ setting.grammar setting.input p a p.lane.edge.rule p.lane.context ha.covers hcursor]
      exact State.collected_trans hcollected hadded

/-- What a body comes to covers its text, so only its values are left to be looked at. -/
theorem Attempt.Spells.of_body {grammar : Grammar} {input : String}
    (h : Body grammar input (Covers grammar input) rule offset context a) (hb : Text.isBoundary input offset = true)
    (hnodes : ∀ s, a.statement = some s → ∀ node ∈ s.walk a.derivation, Spelled grammar node) :
    a.Spells grammar input offset :=
  fun s hs => ⟨h.covers (fun _ _ _ _ h => h) hb s hs, hnodes s hs⟩

/-- A failure adds nothing. -/
theorem State.collected_of_failure (h : a.statement = none) (grammar : Grammar) (s : State) :
    (s.adding (a.kept grammar)).collected = s.collected := by
  rw [Attempt.kept, h, adding_empty]

/-- What is collected within a value is its text. -/
theorem State.collected_opened_adding (s : State) (text : String) :
    (s.opened.adding text).collected = text :: s.collected := by
  simp [adding, opened, Run.withInnermost, Run.innermost]

/-- A match adds to the innermost value what its leaf keeps. -/
theorem State.collected_consuming {kind : ConsumeKind} {binding : Binding}
    (rules : setting.grammar.body? rule = some (.consume kind binding)) (id : NodeId) (region interest : Region) (text : String)
    (s : State) :
    (s.consuming kind text).collected =
      (s.adding (Statement.kept setting.grammar (.leaf id region text) (.leaf rule interest))).collected := by
  simp only [Statement.kept, Derivation.rule, rules]
  cases kind with
  | keep => rfl
  | skip =>
    rw [State.adding_empty]
    rfl

/-- A value of what has been gathered has the text that its children keep. -/
theorem Engine.Gathering.spelled_value {grammar : Grammar}
    (h : ∀ child ∈ g.children, ∀ node ∈ child.statement.walk child.derivation, Spelled grammar node) (id inner : NodeId)
    (name : String) (rule : RuleId) :
    ∀ node ∈ (Statement.value id (g.statement inner).region name (g.kept grammar) (g.statement inner)).walk
      (.around rule (g.derivation rule none)), Spelled grammar node := by
  intro node hm
  rw [Derivation.around, Statement.walk_value] at hm
  rcases List.mem_cons.1 hm with rfl | hm
  · intro id region name text body hs
    cases hs
    exact ⟨g.derivation rule none, rfl, rfl⟩
  · exact Gathering.spelled h inner rule none node hm

/-- An invocation has the nodes of what it has invoked, the first one under another name. -/
theorem Spelled.of_call {grammar : Grammar} {body : Statement} {inner : Derivation}
    (h : ∀ node ∈ body.walk inner, Spelled grammar node) (id : NodeId) (rule : RuleId) (shownAs : Option String) :
    ∀ node ∈ (Statement.group id body.region [Reading.shown shownAs body]).walk (.around rule inner),
      Spelled grammar node := by
  intro node hm
  rw [Derivation.around, Statement.walk_call] at hm
  rcases List.mem_cons.1 hm with rfl | hm
  · exact .of_group
  · rcases Statement.mem_walk_shown hm with rfl | hm
    · exact (h _ (EditedTree.mem_walk_self body inner)).shown _
    · exact h node hm

/-- A body adds to the innermost value what it keeps. The text of a value is begun, taken and ended within it. -/
theorem Does.spelling (h : Does setting (Spelling setting) s rule offset context a t)
    (hb : Text.isBoundary setting.input offset = true) (hs : s.Collects setting) :
    a.Spells setting.grammar setting.input offset ∧ t.collected = (s.adding (a.kept setting.grammar)).collected ∧
      t.Collects setting := by
  -- a failure leaves the collected texts as they were
  have hfailed : ∀ {a : Attempt} {t u : State}, a.statement = none → u.Collects setting → t.memo = u.memo →
      t.collected = s.collected → a.Spells setting.grammar setting.input offset ∧
        t.collected = (s.adding (a.kept setting.grammar)).collected ∧ t.Collects setting := by
    intro a t u ha hu hm hc
    refine ⟨.of_failure ha _ _ _, by rw [State.collected_of_failure ha, hc], hu.of_eq hm ?_⟩
    rw [hc]
    exact hs.collected
  have hopened : s.opened.Collects setting := hs.of_eq rfl (List.cons_ne_nil _ _)
  cases h with
  | unmatched rules boundary => exact hfailed rfl hs rfl rfl
  | @matched kind binding pattern length text rules found cut =>
    have hcollected := State.collected_consuming rules s.nextId ⟨offset, Text.size text⟩
      ⟨offset, (pattern.matchFront ((Text.bytes setting.input).drop offset)).examined⟩ text s
    have hbody : Body setting.grammar setting.input (Covers setting.grammar setting.input) rule offset context _ :=
      .matched s.nextId rules found cut
    refine ⟨.of_body hbody hb ?_, hcollected, hs.of_eq (State.memo_consuming _ _ _) ?_⟩
    · intro st hst node hm
      cases hst
      obtain rfl := List.mem_singleton.1 (Statement.walk_leaf _ _ _ _ ▸ hm)
      exact .of_leaf
    · change (s.consuming kind text).collected ≠ []
      rw [hcollected]
      exact State.collected_adding_ne_nil hs.collected _
  | full chosen rules plain gathers =>
    obtain ⟨hg, hbelow, hcollected, ht⟩ := gathers.spelling hb hs
    refine ⟨.of_body (.full _ chosen rules plain hg) hb ?_, ?_, ht.of_eq rfl ht.collected⟩
    · intro st hst
      cases hst
      exact Gathering.spelled hbelow _ rule chosen
    · rw [Reading.kept_succeed rules plain]
      exact hcollected
  | short rules plain gathers =>
    -- what was added is taken back
    obtain ⟨_, _, hcollected, ht⟩ := gathers.spelling hb hs
    exact hfailed rfl ht rfl (State.rollback_of_collected hcollected)
  | @missed edges g t rules gathers nothing =>
    obtain ⟨_, _, hcollected, ht⟩ := gathers.spelling hb hs
    -- no edge has read anything, so nothing was added
    have hkept : g.kept setting.grammar = "" := by
      rw [Gathering.kept, nothing]
      exact Gathering.kept_begin setting.grammar offset
    rw [hkept, State.adding_empty] at hcollected
    exact hfailed rfl ht rfl hcollected
  | @valued nonEmpty edges g t name rules gathers =>
    obtain ⟨hg, hbelow, hcollected, ht⟩ := gathers.spelling hb hopened
    rw [State.collected_opened_adding] at hcollected
    -- the text of the value is set aside from those around it
    have hclosed : t.issued.closed.issued.collected = s.collected := by
      change t.collected.drop 1 = s.collected
      rw [hcollected]
      rfl
    have htext : Run.innermost t.collected = g.kept setting.grammar := by
      rw [hcollected]
      rfl
    refine ⟨.of_body (.valued _ _ name _ rules hg) hb ?_, ?_, ht.of_eq rfl ?_⟩
    · intro st hst
      cases hst
      rw [htext]
      exact Gathering.spelled_value hbelow _ _ name rule
    · rw [hclosed]
      simp only [Attempt.kept, Attempt.success, Statement.kept, Derivation.around, Derivation.rule, rules,
        State.adding_empty]
    · rw [hclosed]
      exact hs.collected
  | hollow rules gathers =>
    obtain ⟨_, _, hcollected, ht⟩ := gathers.spelling hb hopened
    rw [State.collected_opened_adding] at hcollected
    exact hfailed rfl ht rfl (congrArg (List.drop 1) hcollected)
  | unvalued rules gathers =>
    obtain ⟨_, _, hcollected, ht⟩ := gathers.spelling hb hopened
    exact hfailed rfl ht rfl (congrArg (List.drop 1) (State.rollback_of_collected hcollected))
  | @called call target inside body inner t rules resolved does =>
    obtain ⟨ha, hcollected, ht⟩ := does hb hs
    refine ⟨.of_body (.called t.nextId rules resolved ha.covers) hb ?_, ?_, ht.of_eq rfl ht.collected⟩
    · intro st hst
      cases hst
      exact .of_call (ha body rfl).2 t.nextId rule call.shownAs
    · have hkept := Reading.kept_wrap rules t.nextId (.success body inner)
      rw [Reading.wrap] at hkept
      simp only [Attempt.success] at hkept ⊢
      rw [hkept]
      exact hcollected
  | uncalled rules resolved failed does =>
    obtain ⟨_, hcollected, ht⟩ := does hb hs
    rw [State.collected_of_failure failed] at hcollected
    exact hfailed rfl ht rfl hcollected

end

/-- What an attempt is remembered with is what it adds. -/
theorem Spelling.passes (setting : Setting) : (Spelling setting).Passes setting where
  found := by
    intro shownAs s rule offset context entry hentry _ hb hs
    obtain ⟨hspells, happended⟩ := hs.memo ⟨rule, offset, context⟩ entry hentry hb
    have hcollected : (s.entered.found entry).left.collected =
        (s.adding (entry.attempt.kept setting.grammar)).collected := by
      rw [← happended]
      rfl
    refine ⟨hspells, hcollected, hs.of_eq rfl ?_⟩
    rw [hcollected]
    exact State.collected_adding_ne_nil hs.collected _
  read := by
    intro shownAs s rule offset context a t hdoes _ hb hs
    obtain ⟨ha, hcollected, ht⟩ := hdoes.spelling hb (hs.of_eq (by simp) (by simpa using hs.collected))
    have hcollected : t.collected = (s.adding (a.kept setting.grammar)).collected :=
      hcollected.trans (State.collected_adding_congr (by simp) _)
    have hsince : s.since t = a.kept setting.grammar := State.beyond_of_collected hcollected hs.collected
    refine ⟨ha, by simpa using hcollected, by simpa using ht.collected, ?_⟩
    intro key entry hentry hkey
    rcases State.getElem?_remembering hentry with ⟨rfl, rfl⟩ | hentry
    · exact ⟨ha, hsince⟩
    · rw [State.memo_reaching] at hentry
      exact ht.memo key entry hentry hkey
  reread := by
    intro shownAs s rule offset context a t hdoes hb hs
    obtain ⟨ha, hcollected, ht⟩ := hdoes.spelling hb (hs.of_eq (by simp) (by simpa using hs.collected))
    have hcollected : t.collected = (s.adding (a.kept setting.grammar)).collected :=
      hcollected.trans (State.collected_adding_congr (by simp) _)
    exact ⟨ha, by simpa using hcollected, ht.of_eq (by simp) (by simpa using ht.collected)⟩

/-! ## Kept nodes -/

/-- A node that tiles the text where it stands may be kept, if its values have the texts that they keep. -/
theorem Spelling.keeps {setting : Setting} {node : Earlier} (h : Shaped setting.grammar node.1 node.2)
    (hbelow : ∀ other ∈ node.1.walk node.2, Spelled setting.grammar other)
    (ht : setting.modified.contains node.1.id = false → Text.isBoundary setting.input node.1.region.offset = true →
      node.1.Tiles setting.input) : Keeps (Spelling setting) setting node := by
  intro hmark shownAs _ s context hb hs
  refine ⟨?_, by simp [Attempt.kept, Attempt.success], hs.of_eq (by simp) ?_⟩
  · intro st hst
    cases hst
    exact ⟨h.covers (ht hmark hb), hbelow⟩
  · rw [State.collected_reusing]
    exact State.collected_adding_ne_nil hs.collected _

/-! ## Trees -/

/-- The values of a tree that was reached have the texts that the children of their bodies keep. -/
theorem Tree.Reached.spelled {grammar : Grammar} {allowed : Context → Prop} {tree : Tree}
    (h : tree.Reached grammar allowed) : ∀ node ∈ tree.statement.walk tree.derivation, Spelled grammar node := by
  induction h with
  | parse _ parsed =>
    obtain ⟨u, hdoes, _⟩ := parse_does (Spelling.passes _) parsed
    exact ((hdoes (Text.isBoundary_zero _) (.begin _ _)).1 _ rfl).2
  | @repair before tree edits options nextId next reached _ repaired ih =>
    obtain ⟨_, rfl⟩ | ⟨t, ht, hcases⟩ := repair_eq_ok repaired
    · exact ih
    · obtain ⟨hshaped, v, horigins⟩ := reached.edited ht
      have hmoved : ∀ node ∈ t.nodes, Spelled grammar node := by
        intro node hm
        obtain ⟨origin, ho, rfl⟩ := horigins node hm
        exact (ih origin ho).placed v
      obtain ⟨hmark, hrederive⟩ | ⟨_, hkeep⟩ := hcases
      · obtain ⟨hw, hinterest⟩ := reached.whole_of_marked ht hmark
        obtain ⟨w, hfollows⟩ := hw.follows ht
        obtain ⟨u, hdoes, _⟩ := rederive_does (Spelling.passes _) hshaped (fun node hm hnode =>
          Spelling.keeps hnode (fun other ho => hmoved other (hshaped.paired.mem_walk_trans hm ho))
            fun hmark hb => hfollows.tiles hw.formed (reached.tiles hinterest) hm hmark hb) hrederive
        exact ((hdoes (Text.isBoundary_zero _) (.begin _ _)).1 _ rfl).2
      · obtain ⟨rfl, _⟩ := Grammar.keepTree_eq_ok hkeep
        exact hmoved

/-- The values below a node of the shape of its rules have the shape of theirs. -/
theorem Shaped.value_of_mem_walk {grammar : Grammar} {s : Statement} {d : Derivation} (h : Shaped grammar s d)
    {id : NodeId} {region : Region} {name text : String} {body : Statement} {e : Derivation}
    (hm : (Statement.value id region name text body, e) ∈ s.walk d) :
    Shaped grammar (.value id region name text body) e := by
  induction h with
  | leaf => cases List.mem_singleton.1 (Statement.walk_leaf _ _ _ _ ▸ hm)
  | group children rules plain below ih =>
    rcases Statement.mem_walk_group.1 hm with heq | ⟨child, hc, hm⟩
    · cases heq
    · exact ih child hc hm
  | value children rules below ih =>
    rw [Statement.walk_value, Derivation.children] at hm
    rcases List.mem_cons.1 hm with heq | hm
    · cases heq
      exact .value children rules below
    · rcases Statement.mem_walk_group.1 hm with heq | ⟨child, hc, hm⟩
      · cases heq
      · exact ih child hc hm
  | @call _ _ _ _ call body inner rules below ih =>
    rw [Statement.walk_call] at hm
    rcases List.mem_cons.1 hm with heq | hm
    · cases heq
    · rcases Statement.mem_walk_shown hm with heq | hm
      · have hshown := below.shown call.shownAs
        rw [← (Prod.mk.injEq ..).mp heq |>.1, ← (Prod.mk.injEq ..).mp heq |>.2] at hshown
        exact hshown
      · exact ih hm

/-- **The text of a value is what its own rules kept.** In every tree that was reached by a parse and repairs, a value has one
body, and its text is that of the leaves of the body that lie in no other value and were read by rules that keep their text, in
the order in which they stand in the document. -/
theorem value_text_eq {grammar : Grammar} {tree : Tree} (h : tree.Reached grammar fun _ => True) {id : NodeId}
    {region : Region} {name text : String} {body : Statement} {d : Derivation}
    (hm : (Statement.value id region name text body, d) ∈ tree.statement.walk tree.derivation) :
    ∃ inner, d.children = [inner] ∧ text = grammar.spell (body.ownLeaves inner) ∧
      (body.ownLeaves inner).Pairwise fun a b => a.1.region.stop ≤ b.1.region.offset := by
  obtain ⟨document, htracks⟩ := h.exists_tracks
  cases htracks.tiles.of_mem_walk hm with
  | value _ htiles =>
    obtain ⟨inner, hd, htext⟩ := h.spelled _ hm _ _ _ _ _ rfl
    refine ⟨inner, hd, ?_, (htiles.ownLeaves inner).2⟩
    cases h.shaped.value_of_mem_walk hm with
    | value children rules below =>
      cases hd
      rw [htext]
      exact Statement.keptOfList_eq_spell fun child hc => (below child hc).kept_eq_spell

end

open Pattern.Regex

/-- Of two letters, one kept and one skipped, the text of a value is the one that is kept. -/
theorem value_text_eq_keepAndSkip : ∃ (tree : Tree) (text : String) (d : Derivation),
    tree.Reached (.keepAndSkip .letterA .letterB) (fun _ => True) ∧
      (Statement.value ⟨3⟩ ⟨0, 2⟩ "v" text (.twoLetters 0), d) ∈ tree.statement.walk tree.derivation ∧ text = "a" := by
  obtain ⟨text, statistics, hparse⟩ := parse_keepAndSkip 0
  have hreached : Tree.Reached (.keepAndSkip .letterA .letterB) (fun _ => True) _ := .parse trivial hparse
  have hm := EditedTree.mem_walk_self (.value ⟨3⟩ ⟨0, 2⟩ "v" text (.twoLetters 0)) (.around ⟨2⟩ .twoLetters)
  obtain ⟨inner, hd, htext, _⟩ := value_text_eq hreached hm
  cases hd
  refine ⟨_, text, _, hreached, hm, htext.trans ?_⟩
  decide

end Graft
