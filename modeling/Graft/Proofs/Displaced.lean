import Graft.Proofs.Edits

/-!
# Displaced nodes

A node with its derivation is displaced when it, everything below it and all regions of interest lie one common distance from
where they lay before, and nothing else has changed. A subtree that edits move as a whole is displaced by them, and so is a tree
whose rules have looked at nothing.
-/

namespace Graft

namespace Statement

@[simp] theorem id_recast_moved (distance : Nat) (s : Statement) : (s.recast (.moved distance)).id = s.id := by
  cases s <;> simp [id]

mutual

/-- The nodes of a recast tree are its nodes, recast. -/
theorem walk_recast (m : Recasting) (s : Statement) (d : Derivation) :
    (s.recast m).walk (d.recast m) = (s.walk d).map fun node => (node.1.recast m, node.2.recast m) := by
  cases s with
  | leaf id region text => simp only [recast_leaf, walk_leaf, List.map_cons, List.map_nil]
  | group id region children =>
    rw [recast, walk_group, walk_group, Derivation.children_recast, ← Derivation.recastList_eq_map,
      walkList_recast m children d.children, List.map_cons, recast]
  | value id region name text body =>
    rw [recast, walk_value, walk_value, Derivation.children_recast]
    cases d.children with
    | nil => simp only [List.map_cons, List.map_nil, recast_value]
    | cons inner rest => simp only [List.map_cons, recast_value, walk_recast m body inner]

theorem walkList_recast (m : Recasting) (statements : List Statement) (derivations : List Derivation) :
    walkList (recastList m statements) (Derivation.recastList m derivations) =
      (walkList statements derivations).map fun node => (node.1.recast m, node.2.recast m) := by
  match statements, derivations with
  | [], _ => simp [recastList, walkList, walkListBefore]
  | s :: statements, [] => simp [recastList, Derivation.recastList, walkList, walkListBefore]
  | s :: statements, d :: derivations =>
    rw [recastList, Derivation.recastList, walkList_cons, walkList_cons, walk_recast m s d,
      walkList_recast m statements derivations, List.map_append]

end

end Statement

/-- One node is the other at another place: a common distance lies between all their regions. -/
def Displaced (before after : Statement × Derivation) : Prop :=
  ∃ o p, after.1.recast (.moved o) = before.1.recast (.moved p) ∧ after.2.recast (.moved o) = before.2.recast (.moved p)

namespace Displaced

variable {before after : Statement × Derivation}

theorem refl (node : Statement × Derivation) : Displaced node node := ⟨0, 0, rfl, rfl⟩

/-- Identities stay. -/
theorem id_eq (h : Displaced before after) : after.1.id = before.1.id := by
  obtain ⟨o, p, hs, _⟩ := h
  rw [← Statement.id_recast_moved o after.1, hs, Statement.id_recast_moved]

/-- Each node below is displaced with the node. -/
theorem of_mem_walk (h : Displaced before after) {node : Statement × Derivation} (hm : node ∈ after.1.walk after.2) :
    ∃ origin ∈ before.1.walk before.2, Displaced origin node := by
  obtain ⟨o, p, hs, hd⟩ := h
  have hwalk := Statement.walk_recast (.moved o) after.1 after.2
  rw [hs, hd, Statement.walk_recast] at hwalk
  have hin := List.mem_map_of_mem (f := fun node => (node.1.recast (.moved o), node.2.recast (.moved o))) hm
  rw [← hwalk] at hin
  obtain ⟨origin, ho, heq⟩ := List.mem_map.1 hin
  exact ⟨origin, ho, o, p, (congrArg Prod.fst heq).symm, (congrArg Prod.snd heq).symm⟩

end Displaced

/-- A node whose region of interest is carried along by edits is displaced. -/
theorem Formed.displaced {u w : String} {v : Region → Region} {p : Nat} {s : Statement} {d : Derivation} (h : Formed s d)
    (hc : Region.Carried u w v d.interest p) : Displaced (s, d) (s.placed v, d.placed v) := by
  obtain ⟨hs, hd⟩ := h.recast_placed hc.moves (.self _)
  exact ⟨_, p, hs, hd⟩

/-- A node that no edit has touched is displaced by the edits. -/
theorem EditedTree.Follows.displaced {s : Statement} {d : Derivation} {u : String} {v : Region → Region} {t : EditedTree}
    (h : t.Follows s d u v) (hf : Formed s d) {node : Statement × Derivation} (hm : node ∈ t.nodes)
    (hmark : t.modified.contains node.1.id = false) : ∃ origin ∈ s.walk d, Displaced origin node := by
  rw [h.nodes hf.paired] at hm
  obtain ⟨origin, ho, rfl⟩ := List.mem_map.1 hm
  rw [Statement.id_placed] at hmark
  obtain ⟨p, hcarried⟩ := h.carried origin ho hmark
  exact ⟨origin, ho, (hf.of_mem_walk ho).1.displaced hcarried⟩

/-- A tree whose rules have looked at nothing is displaced by whatever edits are made on it. -/
theorem EditedTree.Drifts.displaced {t t' : EditedTree} {v : Region → Region} (h : t.Drifts v t') (hb : t.Blank) :
    Displaced (t.statement, t.derivation) (t'.statement, t'.derivation) := by
  have hnodes := h.blank.nodes
  rw [h.nodes hb, h.statement, Statement.region_placed] at hnodes
  obtain ⟨hs, hd⟩ := @Paired.recast_placed _ _ v t.statement.region.offset (v t.statement.region).offset hb.paired (by
    intro node hm
    obtain ⟨h1, h2, _⟩ := hb.nodes node hm
    obtain ⟨h3, h4, _⟩ := hnodes _ (List.mem_map_of_mem hm)
    rw [Statement.region_placed] at h3
    rw [Derivation.interest_placed] at h4
    rw [h3, h4, h1, h2]
    simp only [Region.movedBy, Nat.add_comm, and_self])
  rw [h.statement, h.derivation]
  exact ⟨_, _, hs, hd⟩

end Graft
