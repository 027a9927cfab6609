import Graft.Proofs.Calls
import Graft.Proofs.Letters
import Graft.Proofs.Covered

/-!
# Trees hold their documents

The tree of a call that succeeds begins at the start of its document and holds all of it. This is so as long as some rule has
looked at the text: a tree whose rules have looked at nothing is never touched by an edit, so a repair keeps it whatever the
document has become.
-/

namespace Graft

open Engine

/-- A well-formed tree that begins at the start of its text and ends with it. -/
structure Tree.Whole (tree : Tree) : Prop where
  formed : Formed tree.statement tree.derivation
  offset : tree.statement.region.offset = 0
  stop : tree.statement.region.stop = Text.size tree.text

namespace Tree.Whole

variable {tree : Tree}

/-- Such a tree lies in the region of all its text. -/
theorem region (h : tree.Whole) : tree.statement.region = ⟨0, Text.size tree.text⟩ := by
  have h1 := h.offset
  have h2 := h.stop
  rw [Region.stop, h1, Nat.zero_add] at h2
  exact Region.ext h1 h2

/-- A tree whose rules have looked at something has looked at all of its text and at the end. -/
theorem spanned (h : tree.Whole) (hinterest : tree.derivation.interest.length ≠ 0) : (EditedTree.ofTree tree).Spanned := by
  have h1 := h.formed.sits.offset
  have h2 := h.formed.sits.seen
  have h3 := h.offset
  have h4 := h.stop
  refine ⟨?_, ?_⟩
  · change tree.derivation.interest.offset = 0
    omega
  · change Text.size tree.text < tree.derivation.interest.stop
    omega

/-- Some rule of a whole tree has looked at something, or none of them has. -/
theorem looked_or_blank (h : tree.Whole) :
    tree.derivation.interest.length ≠ 0 ∨ (EditedTree.ofTree tree).Blank := by
  by_cases hn : tree.derivation.interest.length = 0
  · exact Or.inr (.of_formed h.formed hn)
  · exact Or.inl hn

end Tree.Whole

section

variable [Pattern.Compiler]

namespace Tree.Whole

variable {tree : Tree}

/-- Edits that are made on a whole tree move its nodes, as wholes where they leave them unmarked. -/
theorem follows (h : tree.Whole) {edits : List Edit} {t : EditedTree}
    (ht : edits.foldlM EditedTree.edit (.ofTree tree) = .ok t) :
    ∃ v, t.Follows tree.statement tree.derivation tree.text v := by
  obtain ⟨t', v, ht', hfollows, _⟩ := (EditedTree.Follows.begin h.formed (Nat.le_of_eq h.stop)).edits h.formed.paired
    (EditedTree.applyAll_of_edits ht)
  obtain rfl : t' = t := Except.ok.inj (ht'.symm.trans ht)
  exact ⟨v, hfollows⟩

/-- A whole tree whose root the edits leave unmarked is left as it is. -/
theorem eq_of_unmarked (h : tree.Whole) (hinterest : tree.derivation.interest.length ≠ 0) {edits : List Edit}
    {t : EditedTree} (ht : edits.foldlM EditedTree.edit (.ofTree tree) = .ok t)
    (hmark : t.modified.contains t.statement.id = false) : t = .ofTree tree := by
  obtain ⟨v, hfollows⟩ := h.follows ht
  rw [hfollows.statement, Statement.id_placed] at hmark
  exact (h.spanned hinterest).eq_of_edits ht hmark

end Tree.Whole

/-- Trees that are parsed are whole. -/
theorem whole_of_parse {grammar : Grammar} {input : String} {options : Options} {nextId next : NodeId} {tree : Tree}
    (h : grammar.parse input options nextId = .ok (tree, next)) : tree.Whole ∧ tree.text = input := by
  obtain ⟨⟨hlaid, hcovers⟩, hstop⟩ := parse_yields
    (P := fun r o c a => Laid r o c a ∧ Covers grammar input r o c a)
    (fun _ _ _ _ hb _ => ⟨hb.laid fun _ _ _ _ h => h.1, hb.covers fun _ _ _ _ h => h.2⟩) h
  obtain ⟨hoffset, hformed⟩ := hlaid.2 tree.statement rfl
  have htext := (hcovers (Text.isBoundary_zero input) tree.statement rfl).text
  change Text.slice? input 0 tree.statement.region.stop = some tree.statement.rawText at htext
  rw [hstop, Text.slice?_self, Option.some.injEq] at htext
  exact ⟨⟨hformed, hoffset, by rw [Tree.text, ← htext, hstop]⟩, htext.symm⟩

/-- Nodes that were moved as wholes may be kept, where each of them satisfies the claim in its place. -/
theorem EditedTree.Follows.keeping {P : Claim} {s : Statement} {d : Derivation} {u : String} {v : Region → Region}
    {t : EditedTree} (h : t.Follows s d u v) (hf : Formed s d) {setting : Setting} (hmodified : setting.modified = t.modified)
    (hP : ∀ node ∈ s.walk d, ∀ p, Region.Carried u t.text v node.2.interest p → ∀ rule context,
      P rule (node.1.placed v).region.offset context (.success (node.1.placed v) (node.2.placed v)))
    {node : Statement × Derivation} (hm : node ∈ t.nodes) (shownAs : Option String) (rule : RuleId) (context : Context) :
    Keeping P setting shownAs rule context node.1 node.2 := by
  intro hmark
  rw [h.nodes hf.paired] at hm
  obtain ⟨origin, ho, rfl⟩ := List.mem_map.1 hm
  rw [hmodified, Statement.id_placed] at hmark
  obtain ⟨p, hcarried⟩ := h.carried origin ho hmark
  exact ⟨_, hP origin ho p hcarried rule context, rfl⟩

/-- So they may wherever they are revisited, from any node on. -/
theorem EditedTree.Follows.kept_node {P : Claim} {s : Statement} {d : Derivation} {u : String} {v : Region → Region}
    {t : EditedTree} (h : t.Follows s d u v) (hf : Formed s d) {setting : Setting} (hmodified : setting.modified = t.modified)
    (hP : ∀ node ∈ s.walk d, ∀ p, Region.Carried u t.text v node.2.interest p → ∀ rule context,
      P rule (node.1.placed v).region.offset context (.success (node.1.placed v) (node.2.placed v)))
    {node : Statement × Derivation} (hm : node ∈ t.nodes) (shownAs : Option String) (rule : RuleId) (context : Context) :
    Revisited setting.grammar (Keeping P setting) shownAs rule context node.1 node.2 := by
  have hroot : Paired t.statement t.derivation := by
    rw [h.statement, h.derivation]
    exact hf.paired.placed v
  have hnode : Paired node.1 node.2 := by
    have hmap := hm
    rw [h.nodes hf.paired] at hmap
    obtain ⟨origin, ho, rfl⟩ := List.mem_map.1 hmap
    exact (hf.of_mem_walk ho).1.paired.placed v
  refine (hnode.revisited ?_).2 shownAs rule context
  exact fun other ho => h.keeping hf hmodified hP (hroot.mem_walk_trans hm ho)

theorem EditedTree.Follows.kept {P : Claim} {s : Statement} {d : Derivation} {u : String} {v : Region → Region}
    {t : EditedTree} (h : t.Follows s d u v) (hf : Formed s d) {setting : Setting} (hmodified : setting.modified = t.modified)
    (hP : ∀ node ∈ s.walk d, ∀ p, Region.Carried u t.text v node.2.interest p → ∀ rule context,
      P rule (node.1.placed v).region.offset context (.success (node.1.placed v) (node.2.placed v)))
    (shownAs : Option String) (rule : RuleId) (context : Context) :
    Revisited setting.grammar (Keeping P setting) shownAs rule context t.statement t.derivation :=
  h.kept_node hf hmodified hP (EditedTree.mem_walk_self t.statement t.derivation) shownAs rule context

/-- Nodes that were moved as wholes are well-formed where they stand. -/
theorem EditedTree.Follows.laid {s : Statement} {d : Derivation} {u : String} {v : Region → Region} {t : EditedTree}
    (h : t.Follows s d u v) (hf : Formed s d) {setting : Setting} (hmodified : setting.modified = t.modified)
    (shownAs : Option String) (rule : RuleId) (context : Context) :
    Revisited setting.grammar (Keeping Laid setting) shownAs rule context t.statement t.derivation := by
  refine h.kept hf hmodified ?_ shownAs rule context
  intro node hm p hcarried rule context
  obtain ⟨hformed, _⟩ := hf.of_mem_walk hm
  obtain ⟨hplaced, _⟩ := hformed.carried hcarried
  refine ⟨hplaced.sits.offset.symm, ?_⟩
  intro s hs
  cases hs
  exact ⟨rfl, hplaced⟩

/-- A repair of a whole tree whose rules have looked at something comes to a whole tree of the edited text. -/
theorem Tree.Whole.repair {grammar : Grammar} {before tree : Tree} (hw : before.Whole)
    (hinterest : before.derivation.interest.length ≠ 0) {edits : List Edit} {options : Options} {nextId next : NodeId}
    (h : grammar.repair before edits options nextId = .ok (tree, next)) {edited : String}
    (he : Edit.applyAll edits before.text = .ok edited) : tree.Whole ∧ tree.text = edited := by
  obtain ⟨rfl, rfl⟩ | ⟨t, ht, hcases⟩ := repair_eq_ok h
  · cases he
    exact ⟨hw, rfl⟩
  · obtain rfl := EditedTree.text_of_edits ht he
    obtain ⟨hmark, hrederive⟩ | ⟨hmark, hkeep⟩ := hcases
    · -- the root was attempted again on nodes that are well-formed where they are kept
      obtain ⟨v, hfollows⟩ := hw.follows ht
      have hkept : Revisited grammar (Keeping Laid (.make grammar t.text options t.modified)) none grammar.root
          options.context t.statement t.derivation :=
        @EditedTree.Follows.laid _ _ _ _ _ _ hfollows hw.formed (.make grammar t.text options t.modified) rfl _ _ _
      obtain ⟨⟨_, hlaid⟩, hstop, htext⟩ := rederive_yields Laid.closed.passes hkept hrederive
      obtain ⟨hoffset, hformed⟩ := hlaid tree.statement rfl
      exact ⟨⟨hformed, hoffset, by rw [htext, hstop]⟩, htext⟩
    · -- the root was not touched, so nothing has changed
      obtain rfl := hw.eq_of_unmarked hinterest ht hmark
      obtain ⟨rfl, _⟩ := Grammar.keepTree_eq_ok hkeep
      exact ⟨⟨hw.formed, hw.offset, hw.stop⟩, rfl⟩

/-- A tree that was reached is whole, with rules that have looked at something, or its rules have looked at nothing. -/
theorem Tree.Reached.whole {grammar : Grammar} {allowed : Context → Prop} {tree : Tree} (h : tree.Reached grammar allowed) :
    tree.Whole ∧ tree.derivation.interest.length ≠ 0 ∨ (EditedTree.ofTree tree).Blank := by
  induction h with
  | parse _ parsed =>
    obtain ⟨hw, _⟩ := whole_of_parse parsed
    exact hw.looked_or_blank.imp_left fun hinterest => ⟨hw, hinterest⟩
  | repair _ _ repaired ih =>
    obtain ⟨hbefore, hinterest⟩ | hblank := ih
    · obtain ⟨edited, he⟩ := applyAll_of_repair repaired
      obtain ⟨hw, _⟩ := hbefore.repair hinterest repaired he
      exact hw.looked_or_blank.imp_left fun hinterest => ⟨hw, hinterest⟩
    · exact Or.inr (blank_of_repair hblank repaired)

/-- A tree whose root is marked by edits is whole. -/
theorem Tree.Reached.whole_of_marked {grammar : Grammar} {allowed : Context → Prop} {tree : Tree}
    (h : tree.Reached grammar allowed) {edits : List Edit} {t : EditedTree}
    (ht : edits.foldlM EditedTree.edit (.ofTree tree) = .ok t) (hmark : t.modified.contains t.statement.id = true) :
    tree.Whole ∧ tree.derivation.interest.length ≠ 0 := by
  obtain hwhole | hblank := h.whole
  · exact hwhole
  · rw [hblank.unmarked ht] at hmark
    cases hmark

/-- The repair of a tree whose rules have looked at nothing has no text, and lies at the end of the edited document, unless
there are no edits. -/
theorem region_of_repair_blank {grammar : Grammar} {before tree : Tree} (hblank : (EditedTree.ofTree before).Blank)
    {edits : List Edit} {options : Options} {nextId next : NodeId}
    (h : grammar.repair before edits options nextId = .ok (tree, next)) {edited : String}
    (he : Edit.applyAll edits before.text = .ok edited) :
    tree.text = "" ∧ (before.statement.region.offset ≠ 0 → tree.statement.region.offset ≠ 0) ∧
      (before.statement.region.offset = 0 → tree.statement.region = ⟨Text.size edited, 0⟩) := by
  have htext : before.text = "" := hblank.text
  have hlength : before.statement.region.length = 0 := congrArg Region.length hblank.region
  obtain ⟨rfl, rfl⟩ | ⟨t, _, ht, hdrifts, rfl, hstop⟩ := hblank.repair_eq_ok h
  · cases he
    refine ⟨htext, id, fun ho => ?_⟩
    rw [htext, Text.size_empty]
    exact Region.ext ho hlength
  · obtain rfl := EditedTree.text_of_edits ht he
    have hregion : t.statement.region.length = 0 := congrArg Region.length hdrifts.blank.region
    rw [Region.stop, hregion, Nat.add_zero] at hstop
    refine ⟨hdrifts.blank.text, ?_, ?_⟩
    · intro ho
      have hempty : Text.size (EditedTree.ofTree before).text = 0 := by
        rw [show (EditedTree.ofTree before).text = before.text from rfl, htext, Text.size_empty]
      have h4 := hdrifts.behind (by omega)
      rw [hempty] at h4
      change t.statement.region.offset ≠ 0
      change t.statement.region.offset + 0 = before.statement.region.offset + Text.size t.text at h4
      omega
    · exact fun _ => Region.ext hstop hregion

/-- **Repairs hold the edited document, unless nothing was looked at.** A repair that succeeds comes to a tree of the edited
text that lies in the region of all that text, exactly when a rule of the tree before has looked at something; or else when the
edited text is empty and the tree before stands at its start. -/
theorem repair_holds_iff {grammar : Grammar} {before : Tree} (hreached : before.Reached grammar fun _ => True)
    {edits : List Edit} {options : Options} {nextId next : NodeId} {tree : Tree}
    (h : grammar.repair before edits options nextId = .ok (tree, next)) :
    ∃ edited, Edit.applyAll edits before.text = .ok edited ∧
      (tree.text = edited ∧ tree.statement.region = ⟨0, Text.size edited⟩ ↔
        before.derivation.interest.length ≠ 0 ∨ edited = "" ∧ before.statement.region.offset = 0) := by
  obtain ⟨edited, he⟩ := applyAll_of_repair h
  refine ⟨edited, he, ?_⟩
  obtain ⟨hw, hinterest⟩ | hblank := hreached.whole
  · obtain ⟨hwhole, htext⟩ := hw.repair hinterest h he
    have hregion := hwhole.region
    rw [htext] at hregion
    exact iff_of_true ⟨htext, hregion⟩ (Or.inl hinterest)
  · have hlooked : before.derivation.interest.length = 0 :=
      hblank.interests _ (EditedTree.mem_walk_self before.statement before.derivation)
    obtain ⟨htext, hbehind, hstart⟩ := region_of_repair_blank hblank h he
    constructor
    · rintro ⟨h1, h2⟩
      refine Or.inr ⟨by rw [← h1, htext], ?_⟩
      by_contra hne
      exact hbehind hne (by rw [h2])
    · rintro (hne | ⟨rfl, ho⟩)
      · exact absurd hlooked hne
      · exact ⟨htext, hstart ho⟩

end

open Pattern.Regex

/-- A letter that is written anew is held by the repaired tree. -/
theorem repair_holds_iff_letterA : ∃ before tree next,
    before.Reached (.ofPattern .letterA) (fun _ => True) ∧ before.derivation.interest.length ≠ 0 ∧
      (Grammar.ofPattern .letterA).repair before [⟨0, 1, "a"⟩] .plain ⟨1⟩ = .ok (tree, next) ∧
      tree.text = "a" ∧ tree.statement.region = ⟨0, 1⟩ := by
  have hsize : Text.size "a" ≤ Options.plain.limits.maxInputSize := by decide +kernel
  have he : Edit.applyAll [⟨0, 1, "a"⟩] "a" = .ok "a" := by decide +kernel
  obtain ⟨statistics, hparse⟩ := parse_ofPattern Pattern.matchFront_letterA hsize 0
  obtain ⟨⟨tree, next⟩, hrepair⟩ :=
    repair_ofPattern Pattern.matchFront_letterA he Pattern.matchFront_letterA (by decide) hsize 0 1 statistics
  have hreached : (Tree.ofMatch 0 "a" 2 statistics).Reached (.ofPattern .letterA) fun _ => True := .parse trivial hparse
  have hinterest : (Tree.ofMatch 0 "a" 2 statistics).derivation.interest.length ≠ 0 := Nat.succ_ne_zero 1
  obtain ⟨edited, he', hiff⟩ := repair_holds_iff hreached hrepair
  rw [Tree.text_ofMatch, he] at he'
  cases he'
  obtain ⟨htext, hregion⟩ := hiff.2 (Or.inl hinterest)
  have hone : Text.size "a" = 1 := by decide +kernel
  rw [hone] at hregion
  exact ⟨_, tree, next, hreached, hinterest, hrepair, htext, hregion⟩

/-- A repair that succeeds without the document: a root that looked at nothing is kept when text is written before it. -/
theorem exists_repair_without_document : ∃ before tree next,
    before.Reached (.barren .letterA) (· = .empty) ∧
      (Grammar.barren .letterA).repair before [⟨0, 0, "x"⟩] .plain ⟨1⟩ = .ok (tree, next) ∧
      Edit.applyAll [⟨0, 0, "x"⟩] before.text = .ok "x" ∧ tree.text ≠ "x" ∧ tree.statement.region ≠ ⟨0, 1⟩ := by
  have hsize : Text.size "x" = 1 := by decide +kernel
  obtain ⟨statistics, hparse⟩ := parse_barren .letterA 0
  have hrepair := repair_barren .letterA "x" (by rw [hsize]; exact Nat.one_ne_zero) (by rw [hsize]; decide)
    ⟨0⟩ ⟨1⟩ statistics
  refine ⟨_, _, _, .parse rfl hparse, hrepair, ?_, ?_, ?_⟩
  · rw [Tree.text_barren]
    decide +kernel
  · rw [Tree.text_barren]
    decide
  · rw [hsize]
    decide

end Graft
