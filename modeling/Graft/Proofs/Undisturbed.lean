import Mathlib.Data.List.Forall2
import Graft.Proofs.Rows
import Graft.Proofs.Tiles

/-!
# Nodes that edits leave unmarked

Edits move the regions of all nodes and mark some of them. A node that they leave unmarked was moved as a whole: it still holds
the text at its region, and where its rule looked the text is what it was, up to whether it ends there.
-/

namespace Graft

/-- A node after edits is the node before them, moved: it holds the text where it stands now, and its rule would look at what it
looked at. -/
structure Undisturbed (old new : String) (before after : Statement × Derivation) : Prop where
  moved : ∃ amount : Int, (after.1.region.offset : Int) = before.1.region.offset + amount ∧
    (after.2.interest.offset : Int) = before.2.interest.offset + amount
  region : after.1.region.length = before.1.region.length
  interest : after.2.interest.length = before.2.interest.length
  text : ((Text.bytes new).drop after.1.region.offset).take after.1.region.length = Text.bytes after.1.rawText
  seen : ((Text.bytes new).drop after.2.interest.offset).take after.2.interest.length =
    ((Text.bytes old).drop before.2.interest.offset).take before.2.interest.length
  ends : Text.size new < after.2.interest.stop ↔ Text.size old < before.2.interest.stop

namespace Text.Alike

variable {u v : String} {o p n m : Nat}

/-- What is seen at the front of two windows that show the same is the same. -/
theorem front (h : Alike u v o p n) (hm : m ≤ n) : ((bytes u).drop o).take m = ((bytes v).drop p).take m := by
  have h1 := congrArg (fun l => l.take m) h.window
  simpa only [List.take_take, Nat.min_eq_left hm] using h1

/-- A window reaches past the end of one text when it reaches past the end of the other. -/
theorem ends (h : Alike u v o p n) : size v < p + n ↔ size u < o + n := by
  have h1 := congrArg List.length h.window
  have h2 := h.left
  have h3 := h.right
  simp only [List.length_take, List.length_drop, length_bytes] at h1
  omega

end Text.Alike

/-- A node whose region of interest was carried along by edits is undisturbed. -/
theorem Region.Carried.undisturbed {u w : String} {v : Region → Region} {p : Nat} {s : Statement} {d : Derivation}
    (h : Region.Carried u w v d.interest p) (hf : Formed s d) (ht : s.Tiles u) :
    Undisturbed u w (s, d) (s.placed v, d.placed v) := by
  have h1 := hf.sits.offset
  have h2 := hf.sits.stop
  have h3 := hf.sits.seen
  have hself := h.moves.self
  have hregion := h.moves s.region ⟨Nat.le_of_eq h1.symm, h2, by simp only [Region.stop] at *; omega⟩
  simp only [Region.movedBy, Region.mk.injEq] at hregion
  simp only [Region.stop] at h2
  have hplace : (v s.region).offset = p := by omega
  obtain ⟨_, _, _, htext⟩ := Text.slice?_eq_some_iff.1 ht.slice
  refine ⟨⟨(p : Int) - d.interest.offset, ?_, ?_⟩, ?_, ?_, ?_, ?_, ?_⟩
  · simp only [Statement.region_placed]
    omega
  · simp only [Derivation.interest_placed, hself]
    omega
  · rw [Statement.region_placed]
    exact hregion.2
  · simp only [Derivation.interest_placed, hself]
  · rw [Statement.region_placed, hplace, hregion.2, Statement.rawText_placed, htext, Region.stop, Nat.add_sub_cancel_left,
      h1]
    exact (h.alike.front (by omega)).symm
  · simp only [Derivation.interest_placed, hself]
    exact h.alike.window.symm
  · simp only [Derivation.interest_placed, hself, Region.stop]
    exact h.alike.ends

/-- A node at one offset, at the end of its text or behind it, that stays as far behind the end, is undisturbed. -/
theorem Undisturbed.of_empty {u w : String} {before after : Statement × Derivation} {o p : Nat}
    (h1 : before.1.region = ⟨o, 0⟩) (h2 : before.2.interest = ⟨o, 0⟩) (h3 : after.1.region = ⟨p, 0⟩)
    (h4 : after.2.interest = ⟨p, 0⟩) (htext : after.1.rawText = "") (ho : Text.size u ≤ o)
    (hp : p + Text.size u = o + Text.size w) : Undisturbed u w before after := by
  refine ⟨⟨(p : Int) - o, ?_, ?_⟩, ?_, ?_, ?_, ?_, ?_⟩
  · rw [h1, h3]
    simp only
    omega
  · rw [h2, h4]
    simp only
    omega
  · rw [h1, h3]
  · rw [h2, h4]
  · rw [h3, htext, List.take_zero, Text.bytes_empty]
  · rw [h2, h4, List.take_zero, List.take_zero]
  · rw [h2, h4]
    simp only [Region.stop]
    omega

section

variable [Pattern.Compiler]

/-- **Marking is sound.** Edits that fit the text of a tree one after the other are made on the tree, and every node that they
leave unmarked is undisturbed. -/
theorem undisturbed_of_unmarked {grammar : Grammar} {tree : Tree} (hreached : tree.Reached grammar fun _ => True)
    {edits : List Edit} {edited : String} (he : Edit.applyAll edits tree.text = .ok edited) :
    ∃ t, tree.applyEdits edits = .ok t ∧ t.text = edited ∧
      List.Forall₂ (fun before after => after.1.id = before.1.id ∧
        (t.modified.contains after.1.id = false → Undisturbed tree.text edited before after))
        (tree.statement.walk tree.derivation) t.nodes := by
  obtain ⟨hw, hinterest⟩ | hblank := hreached.whole
  · have htiles := hreached.tiles hinterest
    have hbegin : EditedTree.Follows tree.statement tree.derivation tree.text (fun r => r) (.ofTree tree) :=
      .begin hw.formed (Nat.le_of_eq hw.stop)
    obtain ⟨t, v, ht, hfollows, rfl⟩ := hbegin.edits hw.formed.paired he
    refine ⟨t, ht, rfl, ?_⟩
    rw [hfollows.nodes hw.formed.paired, List.forall₂_map_right_iff, List.forall₂_same]
    intro node hm
    refine ⟨Statement.id_placed v node.1, fun hmark => ?_⟩
    rw [Statement.id_placed] at hmark
    obtain ⟨p, hcarried⟩ := hfollows.carried node hm hmark
    exact hcarried.undisturbed (hw.formed.of_mem_walk hm).1 (htiles.of_mem_walk hm)
  · obtain ⟨t, v, ht, rfl, hdrifts⟩ := hblank.edits he
    have hempty : tree.text = "" := hblank.text
    have hbehind := hdrifts.behind (by
      change Text.size tree.text ≤ _
      rw [hempty, Text.size_empty]
      exact Nat.zero_le _)
    refine ⟨t, ht, rfl, ?_⟩
    rw [hdrifts.nodes hblank]
    change List.Forall₂ _ (EditedTree.nodes (.ofTree tree)) _
    rw [List.forall₂_map_right_iff, List.forall₂_same]
    intro node hm
    refine ⟨Statement.id_placed v node.1, fun _ => ?_⟩
    obtain ⟨h1, h2, _⟩ := hblank.nodes node hm
    obtain ⟨h3, h4, h5⟩ := hdrifts.blank.nodes (node.1.placed v, node.2.placed v) (by
      rw [hdrifts.nodes hblank]
      exact List.mem_map_of_mem hm)
    refine .of_empty h1 h2 h3 h4 h5 ?_ hbehind
    rw [hempty, Text.size_empty]
    exact Nat.zero_le _

end

open Pattern.Regex

/-- What is written before three letters marks the first of them. The second one is not marked and is undisturbed where it has been
moved. -/
theorem undisturbed_of_unmarked_xabc : ∃ (tree : Tree) (t : EditedTree) (before after : Statement × Derivation),
    tree.Reached (.row .dot) (fun _ => True) ∧ Edit.applyAll [⟨0, 0, "x"⟩] tree.text = .ok "xabc" ∧
      tree.applyEdits [⟨0, 0, "x"⟩] = .ok t ∧ t.text = "xabc" ∧ t.modified.contains ⟨0⟩ = true ∧
      t.modified.contains ⟨1⟩ = false ∧ before ∈ tree.statement.walk tree.derivation ∧ after ∈ t.nodes ∧
      before.1 = .leaf ⟨1⟩ ⟨1, 1⟩ "b" ∧ after.1 = .leaf ⟨1⟩ ⟨2, 1⟩ "b" ∧ Undisturbed tree.text "xabc" before after := by
  have he : Edit.applyAll [⟨0, 0, "x"⟩] "abc" = .ok "xabc" := by decide +kernel
  obtain ⟨statistics, hparse⟩ := parse_abc
  have hreached : (Tree.abc statistics).Reached (.row .dot) (fun _ => True) := .parse trivial hparse
  have hfits : Edit.applyAll [⟨0, 0, "x"⟩] (Tree.abc statistics).text = .ok "xabc" := by
    rw [Tree.text_abc]
    exact he
  obtain ⟨t, ht, htext, hmarks⟩ := edits_row Pattern.dot_readsRow_abc he statistics
  have hfirst : t.modified.contains ⟨0⟩ = true := by
    rw [hmarks.row]
    exact Or.inr (Or.inl ⟨by decide +kernel, rfl⟩)
  have hsecond : t.modified.contains ⟨1⟩ = false := by
    rw [← Bool.not_eq_true, hmarks.row, show Edit.anyTouches [⟨0, 0, "x"⟩] ⟨1, 2⟩ = false by decide +kernel]
    simp
  obtain ⟨t', ht', _, hnodes⟩ := undisturbed_of_unmarked hreached hfits
  obtain rfl : t = t' := Except.ok.inj (ht.symm.trans ht')
  have hmoved := hmarks.nodes (whole_of_parse hparse).1.formed.paired
  rw [hmoved, List.forall₂_map_right_iff] at hnodes
  have hb : ((rowMatch 1 1 "b").statement, (rowMatch 1 1 "b").derivation) ∈
      (Tree.abc statistics).statement.walk (Tree.abc statistics).derivation :=
    Tree.mem_walk_row (List.mem_cons_of_mem _ List.mem_cons_self)
  obtain ⟨_, hundisturbed⟩ := List.forall₂_same.1 hnodes _ hb
  have hplace : (rowMatch 1 1 "b").statement.placed (Edit.placeAll [⟨0, 0, "x"⟩]) = .leaf ⟨1⟩ ⟨2, 1⟩ "b" := by
    rw [rowMatch, Statement.placed_leaf, show Edit.placeAll [⟨0, 0, "x"⟩] ⟨1, 1⟩ = ⟨2, 1⟩ by decide +kernel]
  refine ⟨_, t, _, _, hreached, hfits, ht, htext, hfirst, hsecond, hb, ?_, rfl, hplace, hundisturbed ?_⟩
  · rw [hmoved]
    exact List.mem_map_of_mem hb
  · rw [Statement.id_placed]
    exact hsecond

end Graft
