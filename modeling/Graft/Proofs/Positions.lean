import Graft.Proofs.Ledger
import Graft.Proofs.Marks
import Graft.Proofs.Rows
import Graft.Proofs.Tracks

/-!
# Positions with one identity

Where several positions of a tree hold one identity, they hold nodes of one derivation. Such nodes cannot lie below each other,
because a derivation is larger than those below it, and side by side only if they are empty. So they are empty nodes at one
place, whose rules have looked at the same text. Whether edits mark an identity then depends on the region of interest of
any one of its nodes.
-/

namespace Graft

open Engine

/-! ## Nodes at different positions -/

/-- Two nodes that region and derivation tell apart, unless they are empty. -/
def ToldApart (node other : Earlier) : Prop :=
  node.1.region = other.1.region → node.2 = other.2 → node.1.region.length = 0

/-- Statements that stand one behind the other stop before the later ones start. -/
theorem Statement.Adjoin.pairwise {start stop : Nat} {statements : List Statement} (h : Adjoin start statements stop) :
    statements.Pairwise fun s t => s.region.stop ≤ t.region.offset := by
  induction statements generalizing start with
  | nil => exact .nil
  | cons s rest ih =>
    obtain ⟨_, h2⟩ := h
    exact List.pairwise_cons.2 ⟨fun t ht => (h2.between.2 t ht).1, ih h2⟩

theorem Statement.Tiles.of_group {input : String} {id : NodeId} {region : Region} {children : List Statement}
    (h : (Statement.group id region children).Tiles input) :
    Adjoin region.offset children region.stop ∧ ∀ s ∈ children, s.Tiles input := by
  cases h with
  | group boundary adjoin below => exact ⟨adjoin, below⟩

theorem Statement.Tiles.of_value {input : String} {id : NodeId} {region : Region} {name text : String} {body : Statement}
    (h : (Statement.value id region name text body).Tiles input) : body.Tiles input := by
  cases h with
  | value same below => exact below

/-- The nodes of a statement that tiles a text lie in its region. -/
theorem Statement.Tiles.within {input : String} {s : Statement} (h : s.Tiles input) {d : Derivation} {node : Earlier}
    (hm : node ∈ s.walk d) : s.region.offset ≤ node.1.region.offset ∧ node.1.region.stop ≤ s.region.stop := by
  induction h generalizing d with
  | leaf held =>
    obtain rfl := List.mem_singleton.1 (walk_leaf _ _ _ _ ▸ hm)
    exact ⟨Nat.le_refl _, Nat.le_refl _⟩
  | group boundary adjoin below ih =>
    rw [walk_group, List.mem_cons] at hm
    rcases hm with rfl | hm
    · exact ⟨Nat.le_refl _, Nat.le_refl _⟩
    · obtain ⟨t, ht, e, _, hm⟩ := of_mem_walkList hm
      obtain ⟨h1, h2⟩ := ih t ht hm
      obtain ⟨h3, h4⟩ := adjoin.between.2 t ht
      exact ⟨Nat.le_trans h3 h1, Nat.le_trans h2 h4⟩
  | value same below ih =>
    rw [walk_value, List.mem_cons] at hm
    rcases hm with rfl | hm
    · exact ⟨Nat.le_refl _, Nat.le_refl _⟩
    · cases hd : d.children with
      | nil =>
        rw [hd] at hm
        cases hm
      | cons inner rest =>
        rw [hd] at hm
        have h1 := ih hm
        rw [same] at h1
        exact h1

/-- A derivation is larger than those below it. -/
theorem Paired.sizeOf_le {s : Statement} {d : Derivation} (h : Paired s d) {node : Earlier} (hm : node ∈ s.walk d) :
    sizeOf node.2 ≤ sizeOf d := by
  induction h with
  | leaf =>
    obtain rfl := List.mem_singleton.1 (Statement.walk_leaf _ _ _ _ ▸ hm)
    exact Nat.le_refl _
  | group children _ ih =>
    rcases Statement.mem_walk_group.1 hm with rfl | ⟨child, hc, hm⟩
    · exact Nat.le_refl _
    · have h1 := ih child hc hm
      have h2 := List.sizeOf_lt_of_mem (List.mem_map_of_mem (f := (·.derivation)) hc)
      simp only [Derivation.group.sizeOf_spec]
      omega
  | value _ ih =>
    rw [Statement.walk_value, Derivation.children] at hm
    rcases List.mem_cons.1 hm with rfl | hm
    · exact Nat.le_refl _
    · have h1 := ih hm
      simp only [Derivation.wrap.sizeOf_spec]
      omega
  | call _ ih =>
    rw [Statement.walk_call] at hm
    rcases List.mem_cons.1 hm with rfl | hm
    · exact Nat.le_refl _
    · have h1 := ih hm
      simp only [Derivation.wrap.sizeOf_spec]
      omega

/-- Nodes with derivations of different sizes have different derivations. -/
theorem ToldApart.of_sizeOf {node other : Earlier} (h : sizeOf other.2 < sizeOf node.2) : ToldApart node other := by
  intro _ heq
  rw [heq] at h
  exact (Nat.lt_irrefl _ h).elim

/-- A node that stops where another one has not yet started has the region of the other only if it is empty. -/
theorem ToldApart.of_stop_le {node other : Earlier} (h : node.1.region.stop ≤ other.1.region.offset) : ToldApart node other := by
  intro heq _
  rw [heq, Region.stop] at h
  rw [heq]
  omega

/-- In a tree that tiles a text only empty nodes share region and derivation. -/
theorem Paired.pairwise_toldApart {input : String} {s : Statement} {d : Derivation} (h : Paired s d) (ht : s.Tiles input) :
    (s.walk d).Pairwise ToldApart := by
  induction h with
  | leaf =>
    rw [Statement.walk_leaf]
    exact List.pairwise_singleton _ _
  | @group id region rule interest chosen children hpaired ih =>
    obtain ⟨hadjoin, hbelow⟩ := ht.of_group
    rw [Statement.walk_group, Derivation.children, Statement.walkList_map, List.pairwise_cons, List.pairwise_flatMap]
    refine ⟨?_, fun child hc => ih child hc (hbelow _ (List.mem_map_of_mem hc)), ?_⟩
    · intro node hm
      obtain ⟨child, hc, hm⟩ := List.mem_flatMap.1 hm
      have h1 := (hpaired child hc).sizeOf_le hm
      have h2 := List.sizeOf_lt_of_mem (List.mem_map_of_mem (f := (·.derivation)) hc)
      refine .of_sizeOf ?_
      simp only [Derivation.group.sizeOf_spec]
      omega
    · -- the children stand one behind the other, and what is read below them stays inside them
      refine (List.pairwise_map.1 hadjoin.pairwise).imp_of_mem ?_
      intro child other hc ho hstop node hm node' hm'
      obtain ⟨_, h1⟩ := (hbelow _ (List.mem_map_of_mem hc)).within hm
      obtain ⟨h2, _⟩ := (hbelow _ (List.mem_map_of_mem ho)).within hm'
      exact .of_stop_le (Nat.le_trans h1 (Nat.le_trans hstop h2))
  | @value id region name text rule interest body inner hpaired ih =>
    have hbelow := ht.of_value
    rw [Statement.walk_value, Derivation.children, List.pairwise_cons]
    refine ⟨fun node hm => .of_sizeOf ?_, ih hbelow⟩
    have h1 := hpaired.sizeOf_le hm
    simp only [Derivation.wrap.sizeOf_spec]
    omega
  | @call id region rule interest body inner hpaired ih =>
    obtain ⟨_, hbelow⟩ := ht.of_group
    rw [Statement.walk_call, List.pairwise_cons]
    refine ⟨fun node hm => .of_sizeOf ?_, ih (hbelow _ (List.mem_singleton_self _))⟩
    have h1 := hpaired.sizeOf_le hm
    simp only [Derivation.wrap.sizeOf_spec]
    omega

section

variable [Pattern.Compiler]

/-! ## Trees -/

/-- Nodes with one identity at different positions of a tree are empty nodes of one derivation, at one place. -/
theorem Tree.Issued.eq_of_id_eq {grammar : Grammar} {tree : Tree} {next : NodeId} (h : tree.Issued grammar next) {i j : Nat}
    {node other : Earlier} (hij : i ≠ j) (hi : (tree.statement.walk tree.derivation)[i]? = some node)
    (hj : (tree.statement.walk tree.derivation)[j]? = some other) (hid : node.1.id = other.1.id) :
    node.1.region.length = 0 ∧ node.1.region = other.1.region ∧ node.2 = other.2 := by
  obtain ⟨ledger, htold⟩ := h.exists_told
  obtain ⟨document, htracks⟩ := h.reached.exists_tracks
  have hpairwise := h.reached.shaped.paired.pairwise_toldApart htracks.tiles
  obtain ⟨hregion, hderivation⟩ :=
    (htold node (List.mem_of_getElem? hi)).eq_of_id_eq (htold other (List.mem_of_getElem? hj)) hid
  refine ⟨?_, hregion, hderivation⟩
  obtain ⟨hi', rfl⟩ := List.getElem?_eq_some_iff.1 hi
  obtain ⟨hj', rfl⟩ := List.getElem?_eq_some_iff.1 hj
  rcases Nat.lt_or_gt_of_ne hij with hlt | hlt
  · exact List.pairwise_iff_getElem.1 hpairwise i j hi' hj' hlt hregion hderivation
  · rw [hregion]
    exact List.pairwise_iff_getElem.1 hpairwise j i hj' hi' hlt hregion.symm hderivation.symm

/-- **Identities identify nodes.** Where two positions of a tree hold one identity, both nodes are empty and lie at one place,
and their rules have looked at the same text. So edits that are made on the tree mark the identity of a node exactly if one of
them touches the region of interest of this very node. -/
theorem identity_of_position {grammar : Grammar} {tree : Tree} {next : NodeId} (h : tree.Issued grammar next) :
    (∀ (i j : Nat) (node other : Statement × Derivation), i ≠ j →
        (tree.statement.walk tree.derivation)[i]? = some node →
        (tree.statement.walk tree.derivation)[j]? = some other → node.1.id = other.1.id →
        node.1.region.length = 0 ∧ other.1.region = node.1.region ∧ other.2.interest = node.2.interest) ∧
      ∀ (edits : List Edit) (t : EditedTree), tree.applyEdits edits = .ok t →
        ∀ node ∈ tree.statement.walk tree.derivation,
          (t.modified.contains node.1.id = true ↔ Edit.anyTouches edits node.2.interest = true) := by
  obtain ⟨ledger, htold⟩ := h.exists_told
  constructor
  · intro i j node other hij hi hj hid
    obtain ⟨hempty, hregion, hderivation⟩ := h.eq_of_id_eq hij hi hj hid
    exact ⟨hempty, hregion.symm, congrArg Derivation.interest hderivation.symm⟩
  · intro edits t ht node hm
    have hmarks := EditedTree.marks_edits h.reached.shaped.paired ht
    have hbefore : (EditedTree.ofTree tree).modified.contains node.1.id = false := Std.HashSet.contains_empty
    rw [hmarks.modified, hbefore]
    constructor
    · rintro (hno | ⟨other, ho, hid, htouched⟩)
      · cases hno
      -- the mark may come from another node with the identity, whose rule has looked at the same text
      · obtain ⟨_, hderivation⟩ := (htold other ho).eq_of_id_eq (htold node hm) hid
        rw [← hderivation]
        exact htouched
    · exact fun htouched => Or.inr ⟨node, hm, rfl, htouched⟩

end

open Pattern.Regex

/-- A match of nothing that is taken three times stands at three positions under one identity. A letter that is written there
marks it. -/
theorem identity_of_position_maybeA : ∃ (tree : Tree) (next : NodeId) (t : EditedTree) (node other : Statement × Derivation),
    tree.Issued (.row .maybeA) next ∧ (tree.statement.walk tree.derivation)[1]? = some node ∧
      (tree.statement.walk tree.derivation)[2]? = some other ∧ node.1.id = other.1.id ∧ node.1.region.length = 0 ∧
      other.1.region = node.1.region ∧ other.2.interest = node.2.interest ∧ tree.applyEdits [⟨0, 0, "a"⟩] = .ok t ∧
      t.modified.contains node.1.id = true := by
  have he : Edit.applyAll [⟨0, 0, "a"⟩] "" = .ok "a" := by decide +kernel
  have htouched : Edit.anyTouches [⟨0, 0, "a"⟩] ⟨0, 1⟩ = true := by decide +kernel
  obtain ⟨statistics, hparse⟩ := parse_row_empty Pattern.matchFront_maybeA_nil 0
  obtain ⟨hw, htext⟩ := whole_of_parse hparse
  obtain ⟨t, _, ht, _⟩ := (EditedTree.Follows.begin hw.formed (Nat.le_of_eq hw.stop)).edits hw.formed.paired
    (by rw [htext]; exact he)
  have hwalk := Tree.walk_emptyRow 0 statistics
  obtain ⟨hpositions, hmarked⟩ := identity_of_position (.parse hparse)
  obtain ⟨hempty, hregion, hinterest⟩ := hpositions 1 2 _ _ (by decide) (by rw [hwalk]; rfl) (by rw [hwalk]; rfl) rfl
  refine ⟨_, _, t, _, _, .parse hparse, by rw [hwalk]; rfl, by rw [hwalk]; rfl, rfl, hempty, hregion, hinterest, ht, ?_⟩
  refine (hmarked _ t ht _ ?_).2 htouched
  rw [hwalk]
  exact List.mem_cons_of_mem _ List.mem_cons_self

end Graft
