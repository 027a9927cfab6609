import Graft.Proofs.Placed
import Graft.Proofs.Steps

/-!
# Trees under edits

An edit moves the nodes of a tree and marks those whose region of interest it touches. A node that no edit has touched has been
moved as a whole, and the edited text shows at its new place the bytes that its rule looked at. The region of a node still
stands at the start of its region of interest, so the check after each edit finds nothing.
-/

namespace Graft

open Engine

/-! ## One region under one edit -/

namespace Region

/-- A deletion takes from a region the bytes that it has in it, and moves it back by those before it. -/
theorem afterDelete_eq (r : Region) (offset length : Nat) :
    r.afterDelete offset length =
      ⟨r.offset - min (r.offset - offset) length, r.length - (min r.stop (offset + length) - max r.offset offset)⟩ := by
  obtain ⟨a, n⟩ := r
  simp only [afterDelete, overlap, stop]
  split
  · simp only [mk.injEq, and_true]
    omega
  · split
    · simp only [mk.injEq, true_and]
      omega
    · simp only [mk.injEq]
      omega

/-- An insertion moves a region that starts behind it, adds to one that it falls strictly inside, and leaves others. -/
theorem afterInsert_cases (r : Region) (offset length : Nat) :
    offset ≤ r.offset ∧ r.afterInsert offset length = ⟨r.offset + length, r.length⟩ ∨
      (r.offset < offset ∧ offset < r.stop) ∧ r.afterInsert offset length = ⟨r.offset, r.length + length⟩ ∨
      (r.offset < offset ∧ r.stop ≤ offset) ∧ r.afterInsert offset length = r := by
  rw [afterInsert]
  split
  · exact Or.inl ⟨by omega, rfl⟩
  · split
    · exact Or.inr (Or.inl ⟨by omega, rfl⟩)
    · exact Or.inr (Or.inr ⟨by omega, rfl⟩)

@[simp] theorem afterDelete_zero (r : Region) (offset : Nat) : r.afterDelete offset 0 = r := by
  obtain ⟨a, n⟩ := r
  rw [afterDelete_eq]
  simp only [stop, mk.injEq]
  omega

@[simp] theorem afterInsert_zero (r : Region) (offset : Nat) : r.afterInsert offset 0 = r := by
  obtain ⟨_, h⟩ | ⟨_, h⟩ | ⟨_, h⟩ := r.afterInsert_cases offset 0 <;> rw [h] <;> rfl

/-- A region is moved as a whole to `p`, where the one text shows what the other does inside the region. -/
structure Carried (u w : String) (v : Region → Region) (interest : Region) (p : Nat) : Prop where
  moves : MovesTo v interest p
  alike : Text.Alike u w interest.offset p interest.length

theorem MovesTo.self {v : Region → Region} {interest : Region} {p : Nat} (h : MovesTo v interest p) :
    v interest = ⟨p, interest.length⟩ := by
  have h1 := h interest ⟨Nat.le_refl _, Nat.le_refl _, by simp only [stop]; omega⟩
  refine @movedBy_inj interest.offset _ _ ?_
  rw [h1]
  simp only [movedBy, Nat.add_comm]

/-- An empty region holds no other, so moving it is moving it as a whole. -/
theorem MovesTo.of_empty {v : Region → Region} {interest : Region} (hn : interest.length = 0)
    (hv : (v interest).length = 0) : MovesTo v interest (v interest).offset := by
  intro r hr
  have h1 := hr.offset
  have h2 := hr.stop
  obtain rfl : r = interest := by
    obtain ⟨a, n⟩ := r
    obtain ⟨b, k⟩ := interest
    simp only [stop, mk.injEq] at h1 h2 hn ⊢
    omega
  simp only [movedBy, hv, hn, Nat.add_comm]

theorem Carried.refl {u : String} {interest : Region} (h : interest.offset ≤ Text.size u) :
    Carried u u (fun r => r) interest interest.offset :=
  ⟨fun _ _ => rfl, .refl h⟩

/-- What is carried twice is carried. -/
theorem Carried.trans {u w x : String} {v v' : Region → Region} {interest : Region} {p q : Nat}
    (h : Carried u w v interest p) (h' : Carried w x v' (v interest) q) : Carried u x (v' ∘ v) interest q := by
  have hself := h.moves.self
  rw [hself] at h'
  refine ⟨?_, h.alike.trans h'.alike⟩
  intro r hr
  have h1 := h.moves r hr
  have h2 := hr.offset
  have h3 := hr.stop
  have h4 := hr.seen
  simp only [movedBy, mk.injEq, stop] at h1 h2 h3 h4
  have h5 := h'.moves (v r) ⟨by simp only; omega, by simp only [stop]; omega, by simp only [stop]; omega⟩
  simp only [movedBy, mk.injEq] at h5
  simp only [Function.comp, movedBy, mk.injEq]
  omega

variable (before removed added after : String) {interest region : Region}

/-- A deletion carries the regions that it does not touch. -/
theorem carried_afterDelete (hl : Text.size removed ≠ 0)
    (ho : interest.offset ≤ Text.size (before ++ removed ++ after))
    (h : interest.overlap (Text.size before) (Text.size removed) = 0) :
    ∃ p, Carried (before ++ removed ++ after) (before ++ after)
      (fun r => r.afterDelete (Text.size before) (Text.size removed)) interest p := by
  simp only [Text.size_append] at ho
  simp only [overlap, stop] at h
  by_cases hn : interest.length = 0
  · refine ⟨_, .of_empty hn (by rw [afterDelete_eq, hn, Nat.zero_sub]), ?_⟩
    rw [hn, afterDelete_eq]
    exact .of_nothing (by simp only [Text.size_append]; omega) (by simp only [Text.size_append]; omega)
  · by_cases hfront : interest.stop ≤ Text.size before
    · simp only [stop] at hfront
      refine ⟨interest.offset, ?_, ?_⟩
      · intro r hr
        have h1 := hr.offset
        have h2 := hr.stop
        simp only [afterDelete_eq, stop, movedBy, mk.injEq] at h1 h2 ⊢
        omega
      · rw [String.append_assoc]
        exact .of_front before (removed ++ after) after hfront
    · simp only [stop] at hfront
      have hback : Text.size (before ++ removed) ≤ interest.offset := by
        rw [Text.size_append]
        omega
      refine ⟨interest.offset - Text.size removed, ?_, ?_⟩
      · intro r hr
        have h1 := hr.offset
        have h2 := hr.stop
        rw [Text.size_append] at hback
        simp only [afterDelete_eq, stop, movedBy, mk.injEq] at h1 h2 ⊢
        omega
      · have h1 := Text.Alike.of_back (n := interest.length) (before ++ removed) before after
          (k := interest.offset - Text.size (before ++ removed)) (by rw [Text.size_append]; omega)
        rw [Nat.add_sub_cancel' hback, Text.size_append] at h1
        have h2 : Text.size before + (interest.offset - (Text.size before + Text.size removed)) =
            interest.offset - Text.size removed := by
          rw [Text.size_append] at hback
          omega
        rw [h2] at h1
        exact h1

/-- An insertion carries the regions that it does not touch. -/
theorem carried_afterInsert (ho : interest.offset ≤ Text.size (before ++ after))
    (h : interest.holds (Text.size before) = false) :
    ∃ p, Carried (before ++ after) (before ++ added ++ after)
      (fun r => r.afterInsert (Text.size before) (Text.size added)) interest p := by
  simp only [Text.size_append] at ho
  have houtside : ¬(interest.offset ≤ Text.size before ∧ Text.size before < interest.stop) := by
    rintro ⟨h1, h2⟩
    rw [holds, decide_eq_true h1, decide_eq_true h2] at h
    cases h
  simp only [stop] at houtside
  by_cases hn : interest.length = 0
  · have hmoved : (interest.afterInsert (Text.size before) (Text.size added)).length = 0 ∧
        (interest.afterInsert (Text.size before) (Text.size added)).offset ≤
          interest.offset + Text.size added := by
      simp only [hn] at houtside
      obtain ⟨h1, h2⟩ | ⟨h1, h2⟩ | ⟨h1, h2⟩ := interest.afterInsert_cases (Text.size before) (Text.size added)
      · rw [h2]
        exact ⟨hn, Nat.le_refl _⟩
      · simp only [stop] at h1
        omega
      · rw [h2]
        exact ⟨hn, Nat.le_add_right _ _⟩
    refine ⟨_, .of_empty hn hmoved.1, ?_⟩
    rw [hn]
    exact .of_nothing (by simp only [Text.size_append]; omega) (by simp only [Text.size_append]; omega)
  · by_cases hfront : interest.stop ≤ Text.size before
    · simp only [stop] at hfront
      refine ⟨interest.offset, ?_, ?_⟩
      · intro r hr
        have h1 := hr.stop
        have h2 := hr.seen
        simp only [stop] at h1 h2
        obtain ⟨h3, h4⟩ | ⟨h3, h4⟩ | ⟨h3, h4⟩ := r.afterInsert_cases (Text.size before) (Text.size added) <;>
          simp only [h4, stop, movedBy, mk.injEq, and_true] at h3 ⊢ <;> omega
      · rw [String.append_assoc]
        exact .of_front before after (added ++ after) hfront
    · simp only [stop] at hfront
      have hback : Text.size before ≤ interest.offset := by omega
      refine ⟨interest.offset + Text.size added, ?_, ?_⟩
      · intro r hr
        have h1 := hr.offset
        obtain ⟨h3, h4⟩ | ⟨h3, h4⟩ | ⟨h3, h4⟩ := r.afterInsert_cases (Text.size before) (Text.size added) <;>
          simp only [h4, stop, movedBy, mk.injEq, and_true] at h3 ⊢ <;> omega
      · have h1 := Text.Alike.of_back (n := interest.length) before (before ++ added) after
          (k := interest.offset - Text.size before) (by omega)
        rw [Nat.add_sub_cancel' hback, Text.size_append] at h1
        have h2 : Text.size before + Text.size added + (interest.offset - Text.size before) =
            interest.offset + Text.size added := by
          omega
        rw [h2] at h1
        exact h1

/-- A region stands at the start of its region of interest. -/
structure Begins (region interest : Region) : Prop where
  offset : region.offset = interest.offset
  stop : region.stop ≤ interest.stop

theorem Sits.begins (h : region.Sits interest) : region.Begins interest :=
  ⟨h.offset, h.stop⟩

theorem Begins.contains (h : region.Begins interest) : interest.contains region = true := by
  rw [Region.contains, Bool.and_eq_true, decide_eq_true_iff, decide_eq_true_iff]
  exact ⟨Nat.le_of_eq h.offset.symm, h.stop⟩

theorem Begins.afterDelete (h : region.Begins interest) (offset length : Nat) :
    (region.afterDelete offset length).Begins (interest.afterDelete offset length) := by
  have h1 := h.offset
  have h2 := h.stop
  simp only [Region.stop] at h2
  have hn : region.length ≤ interest.length := by omega
  rw [afterDelete_eq, afterDelete_eq, h1]
  refine ⟨rfl, Nat.add_le_add_left ?_ _⟩
  simp only [Region.stop, h1]
  omega

theorem Begins.afterInsert (h : region.Begins interest) (offset length : Nat) :
    (region.afterInsert offset length).Begins (interest.afterInsert offset length) := by
  have h1 := h.offset
  have h2 := h.stop
  simp only [Region.stop] at h2
  obtain ⟨h3, h4⟩ | ⟨h3, h4⟩ | ⟨h3, h4⟩ := region.afterInsert_cases offset length <;>
    obtain ⟨h5, h6⟩ | ⟨h5, h6⟩ | ⟨h5, h6⟩ := interest.afterInsert_cases offset length <;>
    simp only [h4, h6, Region.stop] at h3 h5 ⊢ <;>
    exact ⟨by simp only [h1] <;> omega, by simp only [Region.stop]; omega⟩

end Region

/-- A node whose region of interest is carried is well-formed where it is carried to, and stands there. -/
theorem Formed.carried {u w : String} {v : Region → Region} {p : Nat} {s : Statement} {d : Derivation} (h : Formed s d)
    (hc : Region.Carried u w v d.interest p) :
    Formed (s.placed v) (d.placed v) ∧ (d.placed v).interest = ⟨p, d.interest.length⟩ ∧ (s.placed v).region.offset = p := by
  have hplaced := h.placed hc.moves (.self _)
  have hinterest : (d.placed v).interest = ⟨p, d.interest.length⟩ := by
    rw [Derivation.interest_placed, hc.moves.self]
  exact ⟨hplaced, hinterest, hplaced.sits.offset.trans (congrArg Region.offset hinterest)⟩

/-! ## Marking -/

namespace EditedTree

variable {t : EditedTree}

/-- What was marked stays marked, and nodes that are touched are marked. -/
theorem contains_markWhere (t : EditedTree) (touched : Region → Bool) (id : NodeId) :
    (t.markWhere touched).modified.contains id =
      (t.modified.contains id || t.nodes.any fun node => node.1.id == id && touched node.2.interest) := by
  rw [markWhere]
  simp only
  generalize t.modified = modified
  induction t.nodes generalizing modified with
  | nil => simp
  | cons node nodes ih =>
    rw [List.foldl_cons, ih, List.any_cons]
    cases ht : touched node.2.interest with
    | false => simp
    | true => simp [Std.HashSet.contains_insert, Bool.or_assoc, Bool.or_left_comm]

theorem mem_walk_self (s : Statement) (d : Derivation) : (s, d) ∈ s.walk d := by
  cases s with
  | leaf => simp [Statement.walk_leaf]
  | group => simp [Statement.walk_group]
  | value => simp [Statement.walk_value]

theorem modified_move (t : EditedTree) (f : Region → Region) : (t.move f).modified = t.modified := rfl

theorem contains_delete {id : NodeId} (h : t.modified.contains id = true) (offset length : Nat) :
    (t.delete offset length).modified.contains id = true := by
  rw [delete]
  split
  · exact h
  · rw [modified_move, contains_markWhere, h, Bool.true_or]

theorem contains_insert {id : NodeId} (h : t.modified.contains id = true) (offset length : Nat) :
    (t.insert offset length).modified.contains id = true := by
  rw [insert]
  split
  · exact h
  · rw [modified_move, contains_markWhere, h, Bool.true_or]

/-! ## Trees that are moved -/

/-- How a tree under edits comes from the tree `s` and `d` of the text `u`: by moving all regions by one function. A node that
is not marked was moved as a whole. -/
structure Follows (s : Statement) (d : Derivation) (u : String) (v : Region → Region) (t : EditedTree) : Prop where
  statement : t.statement = s.placed v
  derivation : t.derivation = d.placed v
  carried : ∀ node ∈ s.walk d, t.modified.contains node.1.id = false → ∃ p, Region.Carried u t.text v node.2.interest p
  begins : ∀ node ∈ s.walk d, (v node.1.region).Begins (v node.2.interest)

namespace Follows

variable {s : Statement} {d : Derivation} {u w : String} {v : Region → Region}

/-- A tree before any edit. -/
theorem begin (h : Formed s d) (hs : s.region.stop ≤ Text.size u) : Follows s d u (fun r => r) ⟨s, d, u, {}⟩ := by
  refine ⟨(Statement.placed_id s).symm, (Derivation.placed_id d).symm, ?_, ?_⟩
  · intro node hm _
    obtain ⟨h1, _, h2, _⟩ := h.of_mem_walk hm
    refine ⟨_, .refl ?_⟩
    rw [← h1.sits.offset]
    simp only [Region.stop] at h2 hs
    omega
  · intro node hm
    exact (h.of_mem_walk hm).1.sits.begins

theorem nodes (h : Follows s d u v t) (hp : Paired s d) :
    t.nodes = (s.walk d).map fun node => (node.1.placed v, node.2.placed v) := by
  rw [EditedTree.nodes, h.statement, h.derivation, hp.walk_placed]

/-- Marking what is touched, and moving all regions so that the others are carried. -/
theorem step (h : Follows s d u v t) (hp : Paired s d) (touched : Region → Bool) (f : Region → Region)
    (hcarry : ∀ interest : Region, interest.offset ≤ Text.size t.text → touched interest = false →
      ∃ p, Region.Carried t.text w f interest p)
    (hbegins : ∀ region interest : Region, region.Begins interest → (f region).Begins (f interest)) :
    Follows s d u (f ∘ v) { (t.markWhere touched).move f with text := w } := by
  have hmap := (hp.placed v).mapRegions_eq f
  rw [← h.statement, ← h.derivation] at hmap
  refine ⟨?_, ?_, ?_, ?_⟩
  · rw [← Statement.placed_placed, ← h.statement]
    exact congrArg Prod.fst hmap
  · rw [← Derivation.placed_placed, ← h.derivation]
    exact congrArg Prod.snd hmap
  · intro node hm hmark
    change (t.markWhere touched).modified.contains node.1.id = false at hmark
    rw [contains_markWhere, Bool.or_eq_false_iff] at hmark
    obtain ⟨hbefore, hnow⟩ := hmark
    obtain ⟨p, hcarried⟩ := h.carried node hm hbefore
    have huntouched : touched (v node.2.interest) = false := by
      rw [List.any_eq_false] at hnow
      have h1 := hnow (node.1.placed v, node.2.placed v)
        (by rw [h.nodes hp]; exact List.mem_map_of_mem hm)
      simpa using h1
    have hplace : (v node.2.interest).offset ≤ Text.size t.text := by
      rw [hcarried.moves.self]
      exact hcarried.alike.right
    obtain ⟨q, hq⟩ := hcarry _ hplace huntouched
    exact ⟨q, hcarried.trans hq⟩
  · intro node hm
    exact hbegins _ _ (h.begins node hm)

end Follows

/-! ## Trees whose rules looked at nothing -/

/-- A tree under edits all of whose nodes lie at one offset: they hold nothing, and their rules have looked at nothing. -/
structure Blank (t : EditedTree) : Prop where
  paired : Paired t.statement t.derivation
  nodes : ∀ node ∈ t.nodes, node.1.region = ⟨t.statement.region.offset, 0⟩ ∧
    node.2.interest = ⟨t.statement.region.offset, 0⟩ ∧ node.1.rawText = ""

/-- How a tree whose rules looked at nothing comes from another: all its nodes were moved, and none is marked. Behind the end of
its text it stays as far behind it. -/
structure Drifts (t : EditedTree) (v : Region → Region) (t' : EditedTree) : Prop where
  blank : t'.Blank
  modified : t'.modified = t.modified
  statement : t'.statement = t.statement.placed v
  derivation : t'.derivation = t.derivation.placed v
  behind : Text.size t.text ≤ t.statement.region.offset →
    t'.statement.region.offset + Text.size t.text = t.statement.region.offset + Text.size t'.text

namespace Blank

theorem region (h : t.Blank) : t.statement.region = ⟨t.statement.region.offset, 0⟩ :=
  (h.nodes _ (mem_walk_self t.statement t.derivation)).1

theorem interests (h : t.Blank) : ∀ node ∈ t.nodes, node.2.interest.length = 0 := by
  intro node hm
  rw [(h.nodes node hm).2.1]

theorem text (h : t.Blank) : t.statement.rawText = "" :=
  (h.nodes _ (mem_walk_self t.statement t.derivation)).2.2

/-- A well-formed tree whose root looked at nothing is such a tree. -/
theorem of_formed {s : Statement} {d : Derivation} {u : String} (h : Formed s d) (hd : d.interest.length = 0) :
    Blank ⟨s, d, u, {}⟩ := by
  have h1 := h.sits.offset
  have h2 := h.sits.stop
  refine ⟨h.paired, ?_⟩
  intro node hm
  obtain ⟨h3, h4, h5, h6⟩ := h.of_mem_walk hm
  have h7 := h3.sits.offset
  have h8 := h3.sits.stop
  simp only [Region.stop] at h2 h5 h6 h8
  have hlength : node.2.interest.length = 0 := by omega
  refine ⟨Region.ext ?_ ?_, Region.ext ?_ ?_, h3.rawText_eq_empty hlength⟩ <;> simp only <;> omega

/-- Moving all regions of such a tree so that empty ones stay empty, and marking nodes that look at something. -/
theorem step (h : t.Blank) (touched : Region → Bool) (f : Region → Region)
    (htouched : ∀ r : Region, r.length = 0 → touched r = false) (hf : ∀ r : Region, r.length = 0 → (f r).length = 0) :
    ((t.markWhere touched).move f).Blank ∧ ((t.markWhere touched).move f).modified = t.modified ∧
      ((t.markWhere touched).move f).statement = t.statement.placed f ∧
      ((t.markWhere touched).move f).derivation = t.derivation.placed f := by
  have hmap := h.paired.mapRegions_eq f
  have hmarked : (t.markWhere touched).modified = t.modified := by
    rw [markWhere]
    simp only
    have hnodes := h.interests
    revert hnodes
    induction t.nodes with
    | nil => exact fun _ => rfl
    | cons node nodes ih =>
      intro hnodes
      rw [List.foldl_cons, htouched _ (hnodes node (List.mem_cons_self ..))]
      exact ih fun other hm => hnodes other (List.mem_cons_of_mem _ hm)
  have hstatement : ((t.markWhere touched).move f).statement = t.statement.placed f := congrArg Prod.fst hmap
  have hderivation : ((t.markWhere touched).move f).derivation = t.derivation.placed f := congrArg Prod.snd hmap
  have hregion : ((t.markWhere touched).move f).statement.region = f t.statement.region := by
    rw [hstatement, Statement.region_placed]
  have hnodes : ((t.markWhere touched).move f).nodes = t.nodes.map (fun node => (node.1.placed f, node.2.placed f)) := by
    rw [EditedTree.nodes, hstatement, hderivation, h.paired.walk_placed]
    rfl
  refine ⟨⟨?_, ?_⟩, by rw [modified_move, hmarked], hstatement, hderivation⟩
  · rw [hstatement, hderivation]
    exact h.paired.placed f
  · intro node hm
    rw [hnodes] at hm
    obtain ⟨origin, ho, rfl⟩ := List.mem_map.1 hm
    obtain ⟨h1, h2, h3⟩ := h.nodes origin ho
    have hmoved : f ⟨t.statement.region.offset, 0⟩ = ⟨(f t.statement.region).offset, 0⟩ := by
      rw [← h.region]
      exact Region.ext rfl (hf _ (congrArg Region.length h.region))
    rw [Statement.region_placed, Derivation.interest_placed, Statement.rawText_placed, h1, h2, hregion]
    exact ⟨hmoved, hmoved, h3⟩

theorem delete (h : t.Blank) (offset length : Nat) :
    (t.delete offset length).Blank ∧ (t.delete offset length).modified = t.modified ∧
      (t.delete offset length).statement = t.statement.placed (fun r => r.afterDelete offset length) ∧
      (t.delete offset length).derivation = t.derivation.placed fun r => r.afterDelete offset length := by
  rw [EditedTree.delete]
  split
  · rename_i hzero
    simp only [hzero, Region.afterDelete_zero]
    exact ⟨h, trivial, t.statement.placed_id.symm, t.derivation.placed_id.symm⟩
  · refine h.step _ _ ?_ ?_
    · intro r hr
      have hoverlap : r.overlap offset length = 0 := by
        simp only [Region.overlap, Region.stop]
        omega
      simp [hoverlap]
    · intro r hr
      rw [Region.afterDelete_eq, hr, Nat.zero_sub]

theorem insert (h : t.Blank) (offset length : Nat) :
    (t.insert offset length).Blank ∧ (t.insert offset length).modified = t.modified ∧
      (t.insert offset length).statement = t.statement.placed (fun r => r.afterInsert offset length) ∧
      (t.insert offset length).derivation = t.derivation.placed fun r => r.afterInsert offset length := by
  rw [EditedTree.insert]
  split
  · rename_i hzero
    simp only [hzero, Region.afterInsert_zero]
    exact ⟨h, trivial, t.statement.placed_id.symm, t.derivation.placed_id.symm⟩
  · refine h.step _ _ ?_ ?_
    · intro r hr
      rw [← Bool.not_eq_true]
      intro hholds
      rw [Region.holds, Bool.and_eq_true, decide_eq_true_iff, decide_eq_true_iff, Region.stop] at hholds
      omega
    · intro r hr
      obtain ⟨_, h2⟩ | ⟨h1, _⟩ | ⟨_, h2⟩ := r.afterInsert_cases offset length
      · rw [h2]
        exact hr
      · rw [Region.stop] at h1
        omega
      · rw [h2]
        exact hr

theorem drifts (h : t.Blank) : t.Drifts (fun r => r) t :=
  ⟨h, rfl, t.statement.placed_id.symm, t.derivation.placed_id.symm, fun _ => rfl⟩

end Blank

/-- The nodes of a tree that has drifted are those of the tree before, moved. -/
theorem Drifts.nodes {t' : EditedTree} {v : Region → Region} (h : t.Drifts v t') (hb : t.Blank) :
    t'.nodes = t.nodes.map fun node => (node.1.placed v, node.2.placed v) := by
  rw [EditedTree.nodes, h.statement, h.derivation, hb.paired.walk_placed]
  rfl

end EditedTree

variable [Pattern.Compiler]

/-! ## One edit of a text -/

/-- An edit that fits puts its text in the place of what it removes. -/
theorem Edit.applyTo_eq_ok {e : Edit} {document edited : String} (h : e.applyTo document = .ok edited) :
    ∃ before removed after, document = before ++ removed ++ after ∧ edited = before ++ e.text ++ after ∧
      Text.size before = e.offset ∧ Text.size removed = e.length := by
  have happly : e.apply document = .ok edited := by
    rw [Edit.applyTo] at h
    cases ha : e.apply document with
    | ok other =>
      rw [ha] at h
      cases h
      rfl
    | error misfit =>
      rw [ha] at h
      cases h
  rw [Edit.apply] at happly
  cases hm : e.misfit? document with
  | some misfit =>
    rw [hm] at happly
    cases happly
  | none =>
    rw [hm] at happly
    cases hs : Text.splice? document e.offset e.stop e.text with
    | none =>
      simp only [hs] at happly
      cases happly
    | some other =>
      simp only [hs] at happly
      cases happly
      obtain ⟨before, after, hb, ha, rfl⟩ := Text.splice?_eq_some hs
      obtain ⟨_, h1, _, _⟩ := Text.slice?_eq_some_iff.1 hb
      obtain ⟨h2, _, _, _⟩ := Text.slice?_eq_some_iff.1 ha
      obtain ⟨removed, hr⟩ := Text.exists_slice? h1 h2 (Nat.le_add_right e.offset e.length)
      refine ⟨before, removed, after, ?_, rfl, ?_, ?_⟩
      · have hall := Text.slice?_append (Text.slice?_append hb hr) ha
        rw [Text.slice?_self] at hall
        exact Option.some.inj hall
      · rw [Text.size_of_slice? hb, Nat.sub_zero]
      · rw [Text.size_of_slice? hr, Edit.stop, Nat.add_sub_cancel_left]

/-! ## Edits of a tree -/

namespace EditedTree

variable {t : EditedTree}

/-- A property of trees under edits that lets every edit that fits be made, and outlasts it. -/
def Endures (I : EditedTree → Prop) : Prop :=
  ∀ t e w, I t → e.applyTo t.text = .ok w → ∃ t', t.edit e = .ok t' ∧ t'.text = w ∧ I t'

/-- Edits that fit, each the document that the ones before it left, are made. -/
theorem Endures.edits {I : EditedTree → Prop} (hI : Endures I) (h : I t) {list : List Edit} {w : String}
    (he : Edit.applyAll list t.text = .ok w) : ∃ t', list.foldlM EditedTree.edit t = .ok t' ∧ t'.text = w ∧ I t' := by
  induction list generalizing t with
  | nil =>
    cases he
    exact ⟨t, rfl, rfl, h⟩
  | cons e rest ih =>
    rw [Edit.applyAll, List.foldlM_cons] at he
    obtain ⟨next, hfirst, he⟩ := Except.bind_eq_ok.1 he
    obtain ⟨t1, h1, h2, h3⟩ := hI t e next h hfirst
    rw [List.foldlM_cons, h1]
    exact ih h3 (by rw [h2]; exact he)

/-- Edits fail on the tree only where one of them does not fit. -/
theorem Endures.applyAll_eq_error {I : EditedTree → Prop} (hI : Endures I) (h : I t) {list : List Edit} {fault : Fault}
    (he : list.foldlM EditedTree.edit t = .error fault) : Edit.applyAll list t.text = .error fault := by
  induction list generalizing t with
  | nil => cases he
  | cons e rest ih =>
    rw [Edit.applyAll, List.foldlM_cons]
    rw [List.foldlM_cons] at he
    cases hfirst : e.applyTo t.text with
    | error other =>
      rw [EditedTree.edit, hfirst] at he
      cases he
      rfl
    | ok next =>
      obtain ⟨t1, h1, h2, h3⟩ := hI t e next h hfirst
      rw [h1] at he
      have hrest := ih h3 he
      rw [h2] at hrest
      exact hrest

namespace Follows

variable {s : Statement} {d : Derivation} {u w : String} {v : Region → Region}

/-- The check after an edit finds nothing. -/
theorem checkContained (h : Follows s d u v t) (hp : Paired s d) : t.checkContained = .ok () := by
  have hnone : t.nodes.find? (fun node => !node.2.interest.contains node.1.region) = none := by
    rw [List.find?_eq_none]
    intro node hm
    rw [h.nodes hp] at hm
    obtain ⟨origin, ho, rfl⟩ := List.mem_map.1 hm
    simp only [Derivation.interest_placed, Statement.region_placed, (h.begins origin ho).contains]
    decide
  rw [EditedTree.checkContained, hnone]

/-- An edit that fits is made. -/
theorem edit (h : Follows s d u v t) (hp : Paired s d) {e : Edit} (he : e.applyTo t.text = .ok w) :
    ∃ t' v', t.edit e = .ok t' ∧ Follows s d u v' t' ∧ t'.text = w := by
  obtain ⟨before, removed, after, hdocument, hedited, hoffset, hlength⟩ := Edit.applyTo_eq_ok he
  -- the deletion leaves what stands before and behind it
  obtain ⟨v1, h1⟩ : ∃ v1, Follows s d u v1 { t.delete e.offset e.length with text := before ++ after } := by
    rw [EditedTree.delete]
    split
    · rename_i hzero
      have hempty : removed = "" := (Text.size_eq_zero_iff removed).1 (by omega)
      rw [hempty, String.append_empty] at hdocument
      refine ⟨v, ?_⟩
      rw [← hdocument]
      exact h
    · rename_i hzero
      refine ⟨_, h.step hp _ _ ?_ ?_⟩
      · intro interest hplace huntouched
        rw [hdocument] at hplace ⊢
        rw [← hoffset, ← hlength] at huntouched ⊢
        refine Region.carried_afterDelete before removed after (by omega) hplace ?_
        simpa using huntouched
      · exact fun region interest hb => hb.afterDelete _ _
  -- the insertion puts its text between them
  obtain ⟨v2, h2⟩ : ∃ v2, Follows s d u v2
      { (t.delete e.offset e.length).insert e.offset (Text.size e.text) with text := w } := by
    rw [EditedTree.insert]
    split
    · rename_i hzero
      have hempty : e.text = "" := (Text.size_eq_zero_iff e.text).1 hzero
      rw [hempty, String.append_empty] at hedited
      rw [hedited]
      exact ⟨v1, h1⟩
    · refine ⟨_, h1.step (w := w) hp (fun r => r.holds e.offset) (fun r => r.afterInsert e.offset (Text.size e.text)) ?_ ?_⟩
      · intro interest hplace huntouched
        rw [hedited, ← hoffset] at *
        exact Region.carried_afterInsert before e.text after hplace huntouched
      · exact fun region interest hb => hb.afterInsert _ _
  refine ⟨_, v2, ?_, h2, rfl⟩
  rw [EditedTree.edit, he]
  have hcheck := h2.checkContained hp
  simp only [bind, Except.bind, hcheck, pure, Except.pure]

theorem endures (hp : Paired s d) : Endures fun t => ∃ v, Follows s d u v t := by
  rintro t e w ⟨v, h⟩ he
  obtain ⟨t', v', h1, h2, h3⟩ := h.edit hp he
  exact ⟨t', h1, h3, v', h2⟩

theorem edits (h : Follows s d u v t) (hp : Paired s d) {list : List Edit} (he : Edit.applyAll list t.text = .ok w) :
    ∃ t' v', list.foldlM EditedTree.edit t = .ok t' ∧ Follows s d u v' t' ∧ t'.text = w := by
  obtain ⟨t', h1, h2, v', h3⟩ := (endures hp).edits ⟨v, h⟩ he
  exact ⟨t', v', h1, h3, h2⟩

end Follows

/-! ## Edits that leave the root unmarked -/

/-- What an edit that is made comes to. -/
theorem edit_eq_ok {e : Edit} {t' : EditedTree} (h : t.edit e = .ok t') :
    ∃ text, e.applyTo t.text = .ok text ∧
      t' = { (t.delete e.offset e.length).insert e.offset (Text.size e.text) with text } := by
  rw [EditedTree.edit] at h
  obtain ⟨text, ha, h⟩ := Except.bind_eq_ok.1 h
  obtain ⟨_, -, h⟩ := Except.bind_eq_ok.1 h
  cases h
  exact ⟨text, ha, rfl⟩

theorem contains_edit {id : NodeId} (h : t.modified.contains id = true) {e : Edit} {t' : EditedTree}
    (he : t.edit e = .ok t') : t'.modified.contains id = true := by
  obtain ⟨text, _, rfl⟩ := edit_eq_ok he
  exact contains_insert (contains_delete h _ _) _ _

theorem contains_edits {id : NodeId} (h : t.modified.contains id = true) {list : List Edit} {t' : EditedTree}
    (he : list.foldlM EditedTree.edit t = .ok t') : t'.modified.contains id = true := by
  induction list generalizing t with
  | nil =>
    cases he
    exact h
  | cons e rest ih =>
    rw [List.foldlM_cons] at he
    obtain ⟨t1, hfirst, he⟩ := Except.bind_eq_ok.1 he
    exact ih (contains_edit h hfirst) he

/-- A root whose rule looked at the whole text and its end. -/
structure Spanned (t : EditedTree) : Prop where
  offset : t.derivation.interest.offset = 0
  stop : Text.size t.text < t.derivation.interest.stop

/-- An edit that leaves such a root unmarked changes nothing. -/
theorem Spanned.eq_of_edit (h : t.Spanned) {e : Edit} {t' : EditedTree} (he : t.edit e = .ok t')
    (hmark : t'.modified.contains t.statement.id = false) : t' = t := by
  obtain ⟨text, ha, rfl⟩ := edit_eq_ok he
  obtain ⟨before, removed, after, hdocument, hedited, hoffset, hlength⟩ := Edit.applyTo_eq_ok ha
  have h1 := h.offset
  have h2 := h.stop
  have h3 := congrArg Text.size hdocument
  simp only [Text.size_append] at h3
  simp only [Region.stop] at h2
  change ((t.delete e.offset e.length).insert e.offset (Text.size e.text)).modified.contains t.statement.id = false
    at hmark
  have htouched : ∀ touched : Region → Bool, touched t.derivation.interest = true →
      (t.markWhere touched).modified.contains t.statement.id = true := by
    intro touched ht
    rw [contains_markWhere, Bool.or_eq_true, List.any_eq_true]
    exact Or.inr ⟨_, mem_walk_self t.statement t.derivation, by simp [ht]⟩
  have hremoved : e.length = 0 := by
    by_contra hne
    have hoverlap : t.derivation.interest.overlap e.offset e.length > 0 := by
      simp only [Region.overlap, Region.stop]
      omega
    have hdelete : (t.delete e.offset e.length).modified.contains t.statement.id = true := by
      rw [delete, if_neg hne, modified_move]
      exact htouched (fun r => r.overlap e.offset e.length > 0) (decide_eq_true hoverlap)
    rw [contains_insert hdelete] at hmark
    cases hmark
  have hdelete : t.delete e.offset e.length = t := by rw [delete, if_pos hremoved]
  rw [hdelete] at hmark ⊢
  have hadded : Text.size e.text = 0 := by
    by_contra hne
    have hholds : t.derivation.interest.holds e.offset = true := by
      rw [Region.holds, Bool.and_eq_true, decide_eq_true_iff, decide_eq_true_iff]
      simp only [Region.stop]
      omega
    rw [insert, if_neg hne, modified_move, htouched (fun r => r.holds e.offset) hholds] at hmark
    cases hmark
  have htext : text = t.text := by
    rw [hdocument, hedited, (Text.size_eq_zero_iff removed).1 (by omega), (Text.size_eq_zero_iff e.text).1 hadded]
  rw [insert, if_pos hadded, htext]

/-- Edits that leave such a root unmarked change nothing. -/
theorem Spanned.eq_of_edits (h : t.Spanned) {list : List Edit} {t' : EditedTree}
    (he : list.foldlM EditedTree.edit t = .ok t') (hmark : t'.modified.contains t.statement.id = false) : t' = t := by
  induction list with
  | nil =>
    cases he
    rfl
  | cons e rest ih =>
    rw [List.foldlM_cons] at he
    obtain ⟨t1, hfirst, hrest⟩ := Except.bind_eq_ok.1 he
    have hmark1 : t1.modified.contains t.statement.id = false := by
      rw [← Bool.not_eq_true]
      intro hc
      rw [contains_edits hc hrest] at hmark
      cases hmark
    obtain rfl := h.eq_of_edit hfirst hmark1
    exact ih hrest

/-- Edits that are made on a tree are made on its text. -/
theorem applyAll_of_edits {list : List Edit} {t' : EditedTree} (he : list.foldlM EditedTree.edit t = .ok t') :
    Edit.applyAll list t.text = .ok t'.text := by
  induction list generalizing t with
  | nil =>
    cases he
    rfl
  | cons e rest ih =>
    rw [List.foldlM_cons] at he
    obtain ⟨t1, hfirst, he⟩ := Except.bind_eq_ok.1 he
    obtain ⟨text, ha, rfl⟩ := edit_eq_ok hfirst
    rw [Edit.applyAll, List.foldlM_cons, ha]
    exact ih he

/-- The text of a tree that was edited is what the edits make of its text. -/
theorem text_of_edits {list : List Edit} {t' : EditedTree} (he : list.foldlM EditedTree.edit t = .ok t') {edited : String}
    (h : Edit.applyAll list t.text = .ok edited) : t'.text = edited :=
  Except.ok.inj ((applyAll_of_edits he).symm.trans h)

/-! ## Edits of trees whose rules looked at nothing -/

namespace Blank

/-- The check after an edit finds nothing. -/
theorem checkContained (h : t.Blank) : t.checkContained = .ok () := by
  have hnone : t.nodes.find? (fun node => !node.2.interest.contains node.1.region) = none := by
    rw [List.find?_eq_none]
    intro node hm
    obtain ⟨h1, h2, _⟩ := h.nodes node hm
    rw [h1, h2]
    simp [Region.contains]
  rw [EditedTree.checkContained, hnone]

/-- An edit that fits such a tree is made, and marks nothing. -/
theorem edit (h : t.Blank) {e : Edit} {w : String} (he : e.applyTo t.text = .ok w) :
    ∃ t' v, t.edit e = .ok t' ∧ t'.text = w ∧ t.Drifts v t' := by
  obtain ⟨before, removed, after, hdocument, hedited, hoffset, hlength⟩ := Edit.applyTo_eq_ok he
  obtain ⟨h1, h2, h3, h4⟩ := h.delete e.offset e.length
  obtain ⟨h5, h6, h7, h8⟩ := h1.insert e.offset (Text.size e.text)
  have hblank : EditedTree.Blank { (t.delete e.offset e.length).insert e.offset (Text.size e.text) with text := w } :=
    ⟨h5.paired, h5.nodes⟩
  refine ⟨_, fun r => (r.afterDelete e.offset e.length).afterInsert e.offset (Text.size e.text), ?_, rfl, hblank,
    h6.trans h2, ?_, ?_, ?_⟩
  · rw [EditedTree.edit, he]
    simp only [bind, Except.bind, hblank.checkContained, pure, Except.pure]
  · change ((t.delete e.offset e.length).insert e.offset (Text.size e.text)).statement = _
    rw [h7, h3, Statement.placed_placed]
    rfl
  · change ((t.delete e.offset e.length).insert e.offset (Text.size e.text)).derivation = _
    rw [h8, h4, Derivation.placed_placed]
    rfl
  · intro hbehind
    change ((t.delete e.offset e.length).insert e.offset (Text.size e.text)).statement.region.offset + _ = _ + Text.size w
    have hsize := congrArg Text.size hdocument
    have hsize' := congrArg Text.size hedited
    simp only [Text.size_append] at hsize hsize'
    rw [h7, h3, Statement.region_placed, Statement.region_placed, Region.afterDelete_eq]
    obtain ⟨h9, h10⟩ | ⟨h9, _⟩ | ⟨h9, _⟩ :=
      Region.afterInsert_cases ⟨t.statement.region.offset - min (t.statement.region.offset - e.offset) e.length,
        t.statement.region.length -
          (min t.statement.region.stop (e.offset + e.length) - max t.statement.region.offset e.offset)⟩
        e.offset (Text.size e.text)
    · rw [h10]
      simp only
      omega
    · simp only at h9
      omega
    · simp only at h9
      omega

/-- A tree that has drifted drifts on. -/
theorem endures (t : EditedTree) : Endures fun t' => ∃ v, t.Drifts v t' := by
  rintro t1 e w ⟨v1, h1⟩ he
  obtain ⟨t2, v2, hedit, htext, h2⟩ := h1.blank.edit he
  refine ⟨t2, hedit, htext, v2 ∘ v1, h2.blank, h2.modified.trans h1.modified, ?_, ?_, ?_⟩
  · rw [h2.statement, h1.statement, Statement.placed_placed]
  · rw [h2.derivation, h1.derivation, Derivation.placed_placed]
  · intro hbehind
    have h3 := h1.behind hbehind
    have h4 := h2.behind (by omega)
    omega

/-- Edits that fit such a tree one after the other are made, and mark nothing. -/
theorem edits (h : t.Blank) {list : List Edit} {w : String} (he : Edit.applyAll list t.text = .ok w) :
    ∃ t' v, list.foldlM EditedTree.edit t = .ok t' ∧ t'.text = w ∧ t.Drifts v t' := by
  obtain ⟨t', h1, h2, v, h3⟩ := (endures t).edits ⟨_, h.drifts⟩ he
  exact ⟨t', v, h1, h2, h3⟩

/-- What edits that were made on such a tree have come to. -/
theorem of_edits (h : t.Blank) {list : List Edit} {t' : EditedTree} (he : list.foldlM EditedTree.edit t = .ok t') :
    ∃ v, t.Drifts v t' := by
  obtain ⟨t'', v, h1, _, h2⟩ := h.edits (applyAll_of_edits he)
  rw [he] at h1
  cases h1
  exact ⟨v, h2⟩

end Blank

end EditedTree

end Graft
