import Graft.Proofs.Tiles

/-!
# The document of a tree

Through a chain of repairs a tree stands for a document: the text that was parsed, with all edits made on it. The tree tiles
that document.
-/

namespace Graft

open Engine

/-- A tree all of whose nodes lie at one boundary of a text, without text of their own, tiles it. -/
theorem Paired.tiles {input : String} {o : Nat} (hb : Text.isBoundary input o = true) {s : Statement} {d : Derivation}
    (h : Paired s d) (hn : ∀ node ∈ s.walk d, node.1.region = ⟨o, 0⟩ ∧ node.1.rawText = "") : s.Tiles input := by
  induction h with
  | leaf =>
    obtain ⟨h1, h2⟩ := hn _ (EditedTree.mem_walk_self _ _)
    simp only [Statement.region, Statement.rawText_leaf] at h1 h2
    subst h1 h2
    exact .leaf (Text.slice?_empty hb)
  | @group id region rule interest chosen children _ ih =>
    rw [Statement.walk_group, Derivation.children, Statement.walkList_map] at hn
    obtain rfl : region = ⟨o, 0⟩ := (hn _ (List.mem_cons_self ..)).1
    have hchild : ∀ child ∈ children, child.statement.region = ⟨o, 0⟩ ∧ child.statement.Tiles input := by
      intro child hc
      have hbelow : ∀ node ∈ child.statement.walk child.derivation, node.1.region = ⟨o, 0⟩ ∧ node.1.rawText = "" :=
        fun node hm => hn node (List.mem_cons_of_mem _ (List.mem_flatMap.2 ⟨child, hc, hm⟩))
      exact ⟨(hbelow _ (EditedTree.mem_walk_self _ _)).1, ih child hc hbelow⟩
    refine .group hb ?_ ?_
    · have hadjoin : ∀ rest : List Taken, (∀ child ∈ rest, child ∈ children) →
          Statement.Adjoin o (rest.map (·.statement)) o := by
        intro rest hrest
        induction rest with
        | nil => rfl
        | cons child rest ih2 =>
          have hregion := (hchild child (hrest child (List.mem_cons_self ..))).1
          refine ⟨by rw [hregion], ?_⟩
          rw [hregion]
          exact ih2 fun c hm => hrest c (List.mem_cons_of_mem _ hm)
      exact hadjoin children fun _ hm => hm
    · intro s hs
      obtain ⟨child, hc, rfl⟩ := List.mem_map.1 hs
      exact (hchild child hc).2
  | @value id region name text rule interest body inner _ ih =>
    rw [Statement.walk_value, Derivation.children] at hn
    have hbelow : ∀ node ∈ body.walk inner, node.1.region = ⟨o, 0⟩ ∧ node.1.rawText = "" :=
      fun node hm => hn node (List.mem_cons_of_mem _ hm)
    refine .value ?_ (ih hbelow)
    rw [(hbelow _ (EditedTree.mem_walk_self _ _)).1]
    exact (hn _ (List.mem_cons_self ..)).1.symm
  | @call id region rule interest body inner _ ih =>
    rw [Statement.walk_call] at hn
    obtain rfl : region = ⟨o, 0⟩ := (hn _ (List.mem_cons_self ..)).1
    have hbelow : ∀ node ∈ body.walk inner, node.1.region = ⟨o, 0⟩ ∧ node.1.rawText = "" :=
      fun node hm => hn node (List.mem_cons_of_mem _ hm)
    have hregion := (hbelow _ (EditedTree.mem_walk_self _ _)).1
    refine .group hb ?_ ?_
    · refine ⟨by rw [hregion], ?_⟩
      rw [hregion]
      rfl
    · intro s hs
      rw [List.mem_singleton] at hs
      subst hs
      exact ih hbelow

variable [Pattern.Compiler]

/-- A tree that comes from a parse and any number of repairs, with its document: the text that was parsed, on which the edits of
each repair were made. -/
inductive Tree.Tracks (grammar : Grammar) : Tree → String → Prop where
  | parse {input : String} {options : Options} {nextId next : NodeId} {tree : Tree}
      (parsed : grammar.parse input options nextId = .ok (tree, next)) : Tracks grammar tree input
  | repair {before tree : Tree} {document edited : String} {edits : List Edit} {options : Options} {nextId next : NodeId}
      (tracks : Tracks grammar before document) (fits : Edit.applyAll edits document = .ok edited)
      (repaired : grammar.repair before edits options nextId = .ok (tree, next)) : Tracks grammar tree edited

namespace Tree.Tracks

variable {grammar : Grammar} {tree : Tree} {document : String}

theorem reached (h : tree.Tracks grammar document) : tree.Reached grammar fun _ => True := by
  induction h with
  | parse parsed => exact .parse trivial parsed
  | repair _ _ repaired ih => exact .repair ih trivial repaired

/-- A tree whose rules have looked at nothing, and that does not stand at the start, is repaired only where nothing is to be
done. -/
theorem eq_of_behind {before : Tree} (hb : (EditedTree.ofTree before).Blank) (ho : before.statement.region.offset ≠ 0)
    {edits : List Edit} {options : Options} {nextId next : NodeId}
    (h : grammar.repair before edits options nextId = .ok (tree, next)) : edits = [] ∧ tree = before := by
  obtain hnothing | ⟨t, _, _, hdrifts, _, hstop⟩ := hb.repair_eq_ok h
  · exact hnothing
  · have hempty : Text.size before.text = 0 := by
      rw [show before.text = "" from hb.text, Text.size_empty]
    have hbehind : t.statement.region.offset + Text.size before.text = before.statement.region.offset + Text.size t.text :=
      hdrifts.behind (by
        change Text.size before.text ≤ _
        omega)
    have hlength := congrArg Region.length hdrifts.blank.region
    simp only [Region.stop] at hstop hlength
    omega

omit [Pattern.Compiler] in
/-- A tree whose rules have looked at nothing, and that stands at the end of its document and at the start, has the text of the
document. -/
theorem document_of_start {before : Tree} (hb : (EditedTree.ofTree before).Blank)
    (hoffset : before.statement.region.offset = Text.size document) (ho : before.statement.region.offset = 0) :
    document = before.text := by
  rw [show before.text = "" from hb.text]
  exact (Text.size_eq_zero_iff document).1 (hoffset.symm.trans ho)

/-- A tree has the text of its document, or its rules have looked at nothing and it stands at the end of its document. -/
theorem stands (h : tree.Tracks grammar document) :
    (tree.Whole ∧ tree.derivation.interest.length ≠ 0 ∧ tree.text = document) ∨
      (EditedTree.ofTree tree).Blank ∧ tree.statement.region.offset = Text.size document := by
  have hwhole : ∀ {tree : Tree} {document : String}, tree.Whole → tree.text = document →
      (tree.Whole ∧ tree.derivation.interest.length ≠ 0 ∧ tree.text = document) ∨
        (EditedTree.ofTree tree).Blank ∧ tree.statement.region.offset = Text.size document := by
    intro tree document hw htext
    rcases hw.looked_or_blank with hinterest | hblank
    · exact Or.inl ⟨hw, hinterest, htext⟩
    · refine Or.inr ⟨hblank, ?_⟩
      rw [hw.offset, ← htext, show tree.text = "" from hblank.text, Text.size_empty]
  induction h with
  | parse parsed =>
    obtain ⟨hw, htext⟩ := whole_of_parse parsed
    exact hwhole hw htext
  | @repair before tree document edited edits options nextId next _ fits repaired ih =>
    rcases ih with ⟨hw, hinterest, rfl⟩ | ⟨hblank, hoffset⟩
    · obtain ⟨hw', htext⟩ := hw.repair hinterest repaired fits
      exact hwhole hw' htext
    · refine Or.inr ⟨blank_of_repair hblank repaired, ?_⟩
      by_cases ho : before.statement.region.offset = 0
      · obtain rfl := document_of_start hblank hoffset ho
        rw [(region_of_repair_blank hblank repaired fits).2.2 ho]
      · obtain ⟨rfl, rfl⟩ := eq_of_behind hblank ho repaired
        cases fits
        exact hoffset

end Tree.Tracks

/-- Every tree that was reached has a document. -/
theorem Tree.Reached.exists_tracks {grammar : Grammar} {allowed : Context → Prop} {tree : Tree}
    (h : tree.Reached grammar allowed) : ∃ document, tree.Tracks grammar document := by
  induction h with
  | parse _ parsed => exact ⟨_, .parse parsed⟩
  | @repair before tree edits options nextId next _ _ repaired ih =>
    obtain ⟨document, htracks⟩ := ih
    obtain ⟨edited, he⟩ := applyAll_of_repair repaired
    rcases htracks.stands with ⟨_, _, rfl⟩ | ⟨hblank, hoffset⟩
    · exact ⟨edited, htracks.repair he repaired⟩
    · by_cases ho : before.statement.region.offset = 0
      · obtain rfl := Tree.Tracks.document_of_start hblank hoffset ho
        exact ⟨edited, htracks.repair he repaired⟩
      · obtain ⟨rfl, rfl⟩ := Tree.Tracks.eq_of_behind hblank ho repaired
        exact ⟨document, htracks⟩

/-! ## Tiling -/

/-- A tree tiles its document. -/
theorem Tree.Tracks.tiles {grammar : Grammar} {tree : Tree} {document : String} (h : tree.Tracks grammar document) :
    tree.statement.Tiles document := by
  rcases h.stands with ⟨_, hinterest, rfl⟩ | ⟨hblank, hoffset⟩
  · exact h.reached.tiles hinterest
  · refine hblank.paired.tiles (o := Text.size document) (Text.isBoundary_size document) fun node hm => ?_
    obtain ⟨h1, _, h3⟩ := hblank.nodes node hm
    rw [h1]
    exact ⟨by rw [← hoffset]; rfl, h3⟩

end Graft
