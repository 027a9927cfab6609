import Graft.Proofs.Whole

/-!
# Trees tile their texts

The statements below a group stand one behind the other, from its start to its end, and every leaf holds the text at its
region. So every node holds the text at its region. This passes from attempts to rules, and a tree that was moved as a whole
still tiles the text that it was moved to.
-/

namespace Graft

open Engine

namespace Statement

/-- Statements that stand one behind the other, from a start to a stop. -/
def Adjoin (start : Nat) : List Statement → Nat → Prop
  | [], stop => start = stop
  | s :: rest, stop => s.region.offset = start ∧ Adjoin s.region.stop rest stop

/-- A statement whose leaves hold the text at their regions, and fill it without gaps. -/
inductive Tiles (input : String) : Statement → Prop where
  | leaf {id : NodeId} {region : Region} {text : String} (held : Text.slice? input region.offset region.stop = some text) :
      Tiles input (.leaf id region text)
  | group {id : NodeId} {region : Region} {children : List Statement}
      (boundary : Text.isBoundary input region.offset = true) (adjoin : Adjoin region.offset children region.stop)
      (below : ∀ s ∈ children, Tiles input s) : Tiles input (.group id region children)
  | value {id : NodeId} {region : Region} {name text : String} {body : Statement} (same : body.region = region)
      (below : Tiles input body) : Tiles input (.value id region name text body)

theorem Adjoin.append {start middle stop : Nat} {ss ts : List Statement} (h : Adjoin start ss middle)
    (h' : Adjoin middle ts stop) : Adjoin start (ss ++ ts) stop := by
  induction ss generalizing start with
  | nil =>
    rw [Adjoin] at h
    rw [h]
    exact h'
  | cons s rest ih => exact ⟨h.1, ih h.2⟩

/-- Statements that stand one behind the other lie between the start and the stop. -/
theorem Adjoin.between {start stop : Nat} {statements : List Statement} (h : Adjoin start statements stop) :
    start ≤ stop ∧ ∀ s ∈ statements, start ≤ s.region.offset ∧ s.region.stop ≤ stop := by
  induction statements generalizing start with
  | nil => exact ⟨Nat.le_of_eq h, by simp⟩
  | cons s rest ih =>
    obtain ⟨h1, h2⟩ := h
    obtain ⟨h3, h4⟩ := ih h2
    simp only [Region.stop] at h3 h4
    refine ⟨by omega, ?_⟩
    intro other hm
    rcases List.mem_cons.1 hm with rfl | hm
    · exact ⟨Nat.le_of_eq h1.symm, h3⟩
    · have h5 := h4 other hm
      exact ⟨by omega, h5.2⟩

/-- What stands one behind the other holds the text from the start to the stop. -/
theorem Adjoin.slice {input : String} {start stop : Nat} {statements : List Statement} (h : Adjoin start statements stop)
    (hb : Text.isBoundary input start = true)
    (hs : ∀ s ∈ statements, Text.slice? input s.region.offset s.region.stop = some s.rawText) :
    Text.slice? input start stop = some (rawTextOfList statements) := by
  induction statements generalizing start with
  | nil =>
    rw [Adjoin] at h
    rw [← h, rawTextOfList_nil, Text.slice?_empty hb]
  | cons s rest ih =>
    obtain ⟨rfl, h2⟩ := h
    have hfirst := hs s (List.mem_cons_self ..)
    have hrest := ih h2 (Text.slice?_eq_some_iff.1 hfirst).2.1 fun other hm => hs other (List.mem_cons_of_mem _ hm)
    rw [Text.slice?_append hfirst hrest, rawTextOfList_cons]

namespace Tiles

variable {input : String} {s : Statement}

/-- A statement that tiles a text holds the text at its region. -/
theorem slice (h : s.Tiles input) : Text.slice? input s.region.offset s.region.stop = some s.rawText := by
  induction h with
  | leaf held =>
    rw [rawText_leaf]
    exact held
  | group boundary adjoin _ ih =>
    rw [rawText_group]
    exact adjoin.slice boundary ih
  | value same _ ih =>
    rw [rawText_value]
    subst same
    exact ih

theorem renamed (h : s.Tiles input) (name : String) : (s.renamed name).Tiles input := by
  cases h with
  | leaf held => exact .leaf held
  | group boundary adjoin below => exact .group boundary adjoin below
  | value same below => exact .value same below

theorem shown (h : s.Tiles input) (name : Option String) : (Reading.shown name s).Tiles input := by
  cases name with
  | none => exact h
  | some name => exact h.renamed name

end Tiles

/-- The nodes of several statements are those of each of them. -/
theorem of_mem_walkList {statements : List Statement} {derivations : List Derivation} {node : Statement × Derivation}
    (h : node ∈ walkList statements derivations) : ∃ s ∈ statements, ∃ d ∈ derivations, node ∈ s.walk d := by
  induction statements generalizing derivations with
  | nil => simp [walkList, walkListBefore] at h
  | cons s rest ih =>
    cases derivations with
    | nil => simp [walkList, walkListBefore] at h
    | cons d derivations =>
      rw [walkList_cons, List.mem_append] at h
      rcases h with h | h
      · exact ⟨s, List.mem_cons_self .., d, List.mem_cons_self .., h⟩
      · obtain ⟨t, ht, e, he, hm⟩ := ih h
        exact ⟨t, List.mem_cons_of_mem _ ht, e, List.mem_cons_of_mem _ he, hm⟩

/-- So do the nodes below it. -/
theorem Tiles.of_mem_walk {input : String} {s : Statement} (h : s.Tiles input) {d : Derivation}
    {node : Statement × Derivation} (hm : node ∈ s.walk d) : node.1.Tiles input := by
  induction h generalizing d with
  | leaf held =>
    rw [walk_leaf, List.mem_singleton] at hm
    subst hm
    exact .leaf held
  | group boundary adjoin below ih =>
    rw [walk_group, List.mem_cons] at hm
    rcases hm with rfl | hm
    · exact .group boundary adjoin below
    · obtain ⟨t, ht, e, _, hm⟩ := of_mem_walkList hm
      exact ih t ht hm
  | value same below ih =>
    rw [walk_value, List.mem_cons] at hm
    rcases hm with rfl | hm
    · exact .value same below
    · cases hd : d.children with
      | nil =>
        rw [hd] at hm
        cases hm
      | cons inner rest =>
        rw [hd] at hm
        exact ih hm

/-! ## Moved trees -/

/-- Statements stand one behind the other where they were moved to. -/
theorem Adjoin.moved {o p start stop start' stop' : Nat} {ss ts : List Statement} (h : Adjoin start ss stop)
    (hst : ts.map (·.recast (.moved o)) = ss.map (·.recast (.moved p))) (hstart : start' + o = start + p)
    (hstop : stop' + o = stop + p) : Adjoin start' ts stop' := by
  induction ss generalizing ts start start' with
  | nil =>
    obtain rfl : ts = [] := by simpa using hst
    rw [Adjoin] at h ⊢
    omega
  | cons s rest ih =>
    cases ts with
    | nil => cases hst
    | cons t ts =>
      simp only [List.map_cons, List.cons.injEq] at hst
      have hregion := congrArg Statement.region hst.1
      simp only [region_recast, Region.movedBy, Recasting.distance_moved, Region.mk.injEq] at hregion
      refine ⟨?_, ih h.2 hst.2 ?_⟩
      · have h1 := h.1
        omega
      · simp only [Region.stop]
        omega

/-- A statement that was moved to where the text is the same tiles the text there. -/
theorem Tiles.moved {u w : String} {o p : Nat} {s t : Statement} (h : s.Tiles u)
    (hst : t.recast (.moved o) = s.recast (.moved p))
    (hcut : ∀ a b a' b' part, s.region.offset ≤ a → b ≤ s.region.stop → a' + o = a + p → b' + o = b + p →
      Text.slice? u a b = some part → Text.slice? w a' b' = some part) : t.Tiles w := by
  induction h generalizing t with
  | @leaf id region text held =>
    cases t <;> simp only [recast_leaf, recast_group, recast_value, leaf.injEq, reduceCtorEq] at hst
    obtain ⟨_, hregion, rfl⟩ := hst
    simp only [Region.movedBy, Recasting.distance_moved, Region.mk.injEq] at hregion
    refine .leaf (hcut _ _ _ _ _ (Nat.le_refl _) (Nat.le_refl _) hregion.1 ?_ held)
    simp only [Statement.region, Region.stop]
    omega
  | @group id region children boundary adjoin below ih =>
    cases t <;> simp only [recast_leaf, recast_group, recast_value, group.injEq, reduceCtorEq] at hst
    rename_i id' region' statements
    obtain ⟨_, hregion, hst⟩ := hst
    simp only [Region.movedBy, Recasting.distance_moved, Region.mk.injEq] at hregion
    have hempty := hcut _ _ region'.offset region'.offset "" (Nat.le_refl region.offset) (Nat.le_add_right _ _) hregion.1
      hregion.1 (Text.slice?_empty boundary)
    refine .group (Text.slice?_eq_some_iff.1 hempty).1 (adjoin.moved hst hregion.1 ?_) ?_
    · simp only [Region.stop]
      omega
    · intro other hm
      obtain ⟨child, hc, hchild⟩ : ∃ child ∈ children, other.recast (.moved o) = child.recast (.moved p) := by
        have h1 := List.mem_map_of_mem (f := recast (.moved o)) hm
        rw [hst] at h1
        obtain ⟨child, hc, h2⟩ := List.mem_map.1 h1
        exact ⟨child, hc, h2.symm⟩
      have hbetween := adjoin.between.2 child hc
      refine ih child hc hchild ?_
      intro a b a' b' part ha hb
      exact hcut a b a' b' part (Nat.le_trans hbetween.1 ha) (Nat.le_trans hb hbetween.2)
  | @value id region name text body same below ih =>
    cases t <;> simp only [recast_leaf, recast_group, recast_value, value.injEq, reduceCtorEq] at hst
    rename_i id' region' name' text' body'
    obtain ⟨_, hregion, rfl, rfl, hbody⟩ := hst
    subst same
    refine .value ?_ (ih hbody hcut)
    have h1 := congrArg Statement.region hbody
    rw [region_recast, region_recast, ← hregion] at h1
    exact Region.movedBy_inj h1

end Statement

/-- A node that was moved as a whole tiles the edited text where it may be kept, at a boundary. -/
theorem Formed.tiles_placed {u w : String} {v : Region → Region} {p : Nat} {s : Statement} {d : Derivation}
    (h : Formed s d) (ht : s.Tiles u) (hc : Region.Carried u w v d.interest p) (hb : Text.isBoundary w p = true) :
    (s.placed v).Tiles w := by
  have h1 := h.sits.offset
  have h2 := h.sits.stop
  have h3 := h.sits.seen
  refine ht.moved (h.recast_placed hc.moves (.self _)).1 ?_
  intro a b a' b' part ha hb' ha' hb'' hcut
  obtain ⟨hba, _, hle, _⟩ := Text.slice?_eq_some_iff.1 hcut
  simp only [Region.stop] at h2 h3 hb'
  by_cases hn : d.interest.length = 0
  · -- the node lies at one offset, and so does whatever is cut out of it
    obtain rfl : a = b := by omega
    obtain rfl : a' = p := by omega
    obtain rfl : b' = a' := by omega
    rw [Text.slice?_empty hba] at hcut
    rw [Text.slice?_empty hb, ← hcut]
  · have hwithin := hc.alike.within (k := a - d.interest.offset) (m := d.interest.length - (a - d.interest.offset))
      (by omega) (by have := Text.le_size_of_isBoundary hba; omega)
    have ha1 : d.interest.offset + (a - d.interest.offset) = a := by omega
    have ha2 : p + (a - d.interest.offset) = a' := by omega
    have hb1 : a + (b - a) = b := by omega
    have hb2 : a' + (b - a) = b' := by omega
    rw [ha1, ha2] at hwithin
    rw [← hb2]
    rw [← hb1] at hcut
    exact hwithin.slice?_eq (by omega) hcut

/-- A node that was moved as a whole tiles the edited text, if it begins at a boundary there. -/
theorem EditedTree.Follows.tiles_placed {s : Statement} {d : Derivation} {u : String} {v : Region → Region} {t : EditedTree}
    (h : t.Follows s d u v) (hf : Formed s d) (ht : s.Tiles u) {node : Statement × Derivation} (hm : node ∈ s.walk d)
    {p : Nat} (hc : Region.Carried u t.text v node.2.interest p)
    (hb : Text.isBoundary t.text (node.1.placed v).region.offset = true) : (node.1.placed v).Tiles t.text := by
  have hplace := (h.begins node hm).offset
  rw [hc.moves.self] at hplace
  rw [Statement.region_placed, hplace] at hb
  exact (hf.of_mem_walk hm).1.tiles_placed (ht.of_mem_walk hm) hc hb

/-- Nodes that were moved as wholes tile the edited text where they may be kept. -/
theorem EditedTree.Follows.tiles {s : Statement} {d : Derivation} {u : String} {v : Region → Region} {t : EditedTree}
    (h : t.Follows s d u v) (hf : Formed s d) (ht : s.Tiles u) {node : Statement × Derivation} (hm : node ∈ t.nodes)
    (hmark : t.modified.contains node.1.id = false) (hb : Text.isBoundary t.text node.1.region.offset = true) :
    node.1.Tiles t.text := by
  rw [h.nodes hf.paired] at hm
  obtain ⟨origin, ho, rfl⟩ := List.mem_map.1 hm
  rw [Statement.id_placed] at hmark
  obtain ⟨p, hcarried⟩ := h.carried origin ho hmark
  exact h.tiles_placed hf ht ho hcarried hb

/-- What has been gathered from an offset on tiles the text up to the cursor. -/
structure Engine.Gathering.Tiled (input : String) (offset : Nat) (g : Gathering) : Prop where
  start : g.start = offset
  boundary : Text.isBoundary input offset = true
  adjoin : Statement.Adjoin offset (g.children.toList.map (·.statement)) g.cursor
  below : ∀ child ∈ g.children, child.statement.Tiles input

namespace Engine.Gathering.Tiled

variable {input : String} {offset : Nat} {g : Gathering}

theorem begin (h : Text.isBoundary input offset = true) : Gathering.Tiled input offset (.begin offset) :=
  ⟨rfl, h, rfl, by simp [Gathering.begin]⟩

/-- The next child starts at a boundary. -/
theorem cursor (h : g.Tiled input offset) : Text.isBoundary input g.cursor = true := by
  have hslice := h.adjoin.slice h.boundary (by
    intro s hs
    obtain ⟨child, hc, rfl⟩ := List.mem_map.1 hs
    exact (h.below child (Array.mem_toList_iff.1 hc)).slice)
  exact (Text.slice?_eq_some_iff.1 hslice).2.1

theorem push (h : g.Tiled input offset) {child : Taken} (ho : child.statement.region.offset = g.cursor)
    (hc : child.statement.Tiles input) : (g.push child).Tiled input offset := by
  refine ⟨h.start, h.boundary, ?_, ?_⟩
  · simp only [Gathering.push, Array.toList_push, List.map_append, List.map_cons, List.map_nil]
    exact h.adjoin.append ⟨ho, rfl⟩
  · intro other hm
    rcases Array.mem_push.1 hm with hm | rfl
    · exact h.below other hm
    · exact hc

theorem pushMany (h : g.Tiled input offset) {child : Taken} (ho : child.statement.region.offset = g.cursor)
    (hc : child.statement.Tiles input) (he : child.statement.region.isEmpty = true) (count : Nat) :
    (g.pushMany child count).Tiled input offset := by
  induction count generalizing g with
  | zero => exact h
  | succ count ih =>
    refine ih (h.push ho hc) ?_
    rw [Region.isEmpty, beq_iff_eq] at he
    simp only [Gathering.push, Region.stop, he, Nat.add_zero]

/-- What has been gathered tiles the text as a group. -/
theorem group (h : g.Tiled input offset) (id : NodeId) :
    (g.statement id).region.offset = offset ∧ (g.statement id).Tiles input := by
  refine ⟨h.start, .group ?_ ?_ ?_⟩
  · rw [h.start]
    exact h.boundary
  · have hle := h.adjoin.between.1
    have hstop : Region.stop ⟨g.start, g.cursor - g.start⟩ = g.cursor := by
      simp only [Region.stop, h.start]
      omega
    rw [hstop, h.start]
    exact h.adjoin
  · intro s hs
    obtain ⟨child, hc, rfl⟩ := List.mem_map.1 hs
    exact h.below child (Array.mem_toList_iff.1 hc)

end Engine.Gathering.Tiled

variable [Pattern.Compiler]

/-! ## Attempts -/

/-- What an attempt at a boundary has read tiles the text from there on. -/
def Tiled (input : String) : Claim := fun _ offset _ a =>
  Text.isBoundary input offset = true → ∀ s, a.statement = some s → s.region.offset = offset ∧ s.Tiles input

/-- Attempts that tile the text are gathered to what does. -/
theorem Gathered.tiled {input : String} {P : Claim} (hP : ∀ r o c a, P r o c a → Tiled input r o c a)
    {edges : List Edge} {live : Context} {offset : Nat} (hb : Text.isBoundary input offset = true) {g : Gathering}
    (h : Gathered P edges live offset g) : g.Tiled input offset := by
  induction h with
  | begin => exact .begin hb
  | @accept p a _ _ ha ih =>
    have hlook : (p.gathering.look a.interest).Tiled input offset := ⟨ih.start, ih.boundary, ih.adjoin, ih.below⟩
    cases hs : a.statement with
    | none =>
      rw [Progress.accept_failure hs]
      exact hlook
    | some s =>
      obtain ⟨hoffset, htiles⟩ := hP _ _ _ _ ha ih.cursor s hs
      cases he : s.region.isEmpty with
      | true =>
        rw [Progress.accept_empty hs he]
        exact @Engine.Gathering.Tiled.pushMany _ _ _ hlook ⟨p.lane.index, s, a.derivation⟩ hoffset htiles he _
      | false =>
        rw [Progress.accept_consumed hs he]
        exact @Engine.Gathering.Tiled.push _ _ _ hlook ⟨p.lane.index, s, a.derivation⟩ hoffset htiles

/-- Attempts that tile the text make up rules that do. -/
theorem Body.tiled {grammar : Grammar} {input : String} {P : Claim} (hP : ∀ r o c a, P r o c a → Tiled input r o c a)
    {rule : RuleId} {offset : Nat} {context : Context} {a : Attempt} (h : Body grammar input P rule offset context a) :
    Tiled input rule offset context a := by
  intro hb s hs
  cases h with
  | unmatched => cases hs
  | @matched kind binding pattern length text id rules found cut =>
    cases hs
    have hsize := Text.size_of_slice? cut
    have hstop : offset + length = Region.stop ⟨offset, Text.size text⟩ := by
      simp only [Region.stop]
      omega
    rw [hstop] at cut
    exact ⟨rfl, .leaf cut⟩
  | full id chosen rules plain gathered =>
    cases hs
    exact (gathered.tiled hP hb).group id
  | short => cases hs
  | valued id inner name text rules gathered =>
    cases hs
    obtain ⟨h1, h2⟩ := (gathered.tiled hP hb).group inner
    exact ⟨h1, .value rfl h2⟩
  | @called call target inside a id rules resolved attempted =>
    obtain ⟨t, ha, rfl, _⟩ := Reading.wrap_eq_success hs
    obtain ⟨h1, h2⟩ := hP _ _ _ _ attempted hb t ha
    refine ⟨h1, .group ?_ ?_ ?_⟩
    · exact (Text.slice?_eq_some_iff.1 h2.slice).1
    · rw [Statement.Adjoin, Reading.region_shown]
      exact ⟨rfl, rfl⟩
    · intro other hm
      rw [List.mem_singleton] at hm
      subst hm
      exact h2.shown call.shownAs

theorem Tiled.closed {grammar : Grammar} {input : String} : Claim.Closed grammar input (Tiled input) :=
  fun _ _ _ _ hb => hb.tiled fun _ _ _ _ h => h

/-! ## Trees -/

theorem EditedTree.Follows.tiled {s : Statement} {d : Derivation} {u : String} {v : Region → Region} {t : EditedTree}
    (h : t.Follows s d u v) (hf : Formed s d) (ht : s.Tiles u) {setting : Setting} (hmodified : setting.modified = t.modified)
    (shownAs : Option String) (rule : RuleId) (context : Context) :
    Revisited setting.grammar (Keeping (Tiled t.text) setting) shownAs rule context t.statement t.derivation := by
  refine h.kept hf hmodified ?_ shownAs rule context
  intro node hm p hcarried rule context hb s' hs
  cases hs
  exact ⟨rfl, h.tiles_placed hf ht hm hcarried hb⟩

/-- A tree that is parsed tiles its text. -/
theorem tiles_of_parse {grammar : Grammar} {input : String} {options : Options} {nextId next : NodeId} {tree : Tree}
    (h : grammar.parse input options nextId = .ok (tree, next)) : tree.statement.Tiles tree.text := by
  obtain ⟨htiled, _⟩ := parse_yields (@Tiled.closed _ grammar input).passes h
  rw [(whole_of_parse h).2]
  exact (htiled (Text.isBoundary_zero input) tree.statement rfl).2

/-- A repair of a whole tree that tiles its text, and some rule of which has looked at it, comes to a tree that tiles its
text. -/
theorem Tree.Whole.tiles_of_repair {grammar : Grammar} {before tree : Tree} (hw : before.Whole)
    (hinterest : before.derivation.interest.length ≠ 0) (htiles : before.statement.Tiles before.text) {edits : List Edit}
    {options : Options} {nextId next : NodeId} (h : grammar.repair before edits options nextId = .ok (tree, next)) :
    tree.statement.Tiles tree.text := by
  obtain ⟨rfl, rfl⟩ | ⟨t, ht, ⟨_, hrederive⟩ | ⟨hmark, hkeep⟩⟩ := repair_eq_ok h
  · exact htiles
  · -- the root was attempted again on nodes that tile the edited text where they are kept
    obtain ⟨v, hfollows⟩ := hw.follows ht
    have hkept := @EditedTree.Follows.tiled _ _ _ _ _ _ hfollows hw.formed htiles
      (.make grammar t.text options t.modified) rfl none grammar.root options.context
    obtain ⟨htiled, _, htext⟩ := rederive_yields Tiled.closed.passes hkept hrederive
    rw [htext]
    exact (htiled (Text.isBoundary_zero t.text) tree.statement rfl).2
  · -- the root was not touched, so nothing has changed
    obtain rfl := hw.eq_of_unmarked hinterest ht hmark
    obtain ⟨rfl, _⟩ := Grammar.keepTree_eq_ok hkeep
    exact htiles

/-- A tree some rule of which has looked at the text tiles it. -/
theorem Tree.Reached.tiles {grammar : Grammar} {allowed : Context → Prop} {tree : Tree} (h : tree.Reached grammar allowed)
    (hinterest : tree.derivation.interest.length ≠ 0) : tree.statement.Tiles tree.text := by
  induction h with
  | parse _ parsed => exact tiles_of_parse parsed
  | @repair before tree edits options nextId next reached _ repaired ih =>
    obtain ⟨hw, hbefore⟩ | hblank := reached.whole
    · exact hw.tiles_of_repair hbefore (ih hbefore) repaired
    · have h1 := (blank_of_repair hblank repaired).interests _ (EditedTree.mem_walk_self _ _)
      exact absurd h1 hinterest

end Graft
