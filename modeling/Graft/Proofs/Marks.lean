import Graft.Proofs.Edits

/-!
# What edits mark

Edits that are made on a tree move all its regions by one function and mark exactly the nodes whose region of interest one of
them touches, where the edits before it have left it. Both are told by the edits alone.
-/

namespace Graft

namespace Edit

/-- Where a region is after an edit. -/
def place (edit : Edit) (r : Region) : Region :=
  (r.afterDelete edit.offset edit.length).afterInsert edit.offset (Text.size edit.text)

/-- Whether an edit takes bytes from a region, or adds some before a byte of what is left of it. -/
def touches (edit : Edit) (r : Region) : Bool :=
  decide (r.overlap edit.offset edit.length > 0) ||
    decide (Text.size edit.text > 0) && (r.afterDelete edit.offset edit.length).holds edit.offset

/-- Where a region is after several edits. -/
def placeAll (edits : List Edit) (r : Region) : Region :=
  edits.foldl (fun r edit => edit.place r) r

/-- Whether one of several edits touches a region, where the edits before it have left it. -/
def anyTouches : List Edit → Region → Bool
  | [], _ => false
  | edit :: edits, r => edit.touches r || anyTouches edits (edit.place r)

end Edit

namespace EditedTree

/-- A tree comes from another by marking the nodes whose region of interest is touched, and by moving all regions. -/
structure Marks (t : EditedTree) (touched : Region → Bool) (v : Region → Region) (t' : EditedTree) : Prop where
  statement : t'.statement = t.statement.placed v
  derivation : t'.derivation = t.derivation.placed v
  modified : ∀ id, t'.modified.contains id = true ↔
    t.modified.contains id = true ∨ ∃ node ∈ t.nodes, node.1.id = id ∧ touched node.2.interest = true

variable {t t' u : EditedTree} {touched touched' : Region → Bool} {v w : Region → Region}

namespace Marks

/-- Where nothing is touched and nothing moves, the tree stays. -/
theorem of_eq (ht : ∀ r, touched r = false) (hv : ∀ r, v r = r) (t : EditedTree) : t.Marks touched v t := by
  obtain rfl : v = fun r => r := funext hv
  refine ⟨t.statement.placed_id.symm, t.derivation.placed_id.symm, ?_⟩
  intro id
  simp only [ht, Bool.false_eq_true, and_false, exists_const, or_false]

/-- Marking first and moving then. -/
theorem of_move (h : Paired t.statement t.derivation) (touched : Region → Bool) (v : Region → Region) :
    t.Marks touched v ((t.markWhere touched).move v) := by
  have hmap := h.mapRegions_eq v
  refine ⟨congrArg Prod.fst hmap, congrArg Prod.snd hmap, fun id => ?_⟩
  simp only [modified_move, contains_markWhere, Bool.or_eq_true, List.any_eq_true, Bool.and_eq_true, beq_iff_eq]

theorem nodes (h : t.Marks touched v t') (hp : Paired t.statement t.derivation) :
    t'.nodes = t.nodes.map fun node => (node.1.placed v, node.2.placed v) := by
  rw [EditedTree.nodes, h.statement, h.derivation, hp.walk_placed, EditedTree.nodes]

theorem paired (h : t.Marks touched v t') (hp : Paired t.statement t.derivation) :
    Paired t'.statement t'.derivation := by
  rw [h.statement, h.derivation]
  exact hp.placed v

/-- What is touched by the one or by the other is marked in the end. -/
theorem trans (h : t.Marks touched v t') (h' : t'.Marks touched' w u) (hp : Paired t.statement t.derivation) :
    t.Marks (fun r => touched r || touched' (v r)) (w ∘ v) u := by
  refine ⟨?_, ?_, fun id => ?_⟩
  · rw [h'.statement, h.statement, Statement.placed_placed]
  · rw [h'.derivation, h.derivation, Derivation.placed_placed]
  · rw [h'.modified, h.modified, h.nodes hp, or_assoc]
    simp only [List.mem_map, exists_exists_and_eq_and, Statement.id_placed, Derivation.interest_placed, Bool.or_eq_true,
      and_or_left, exists_or]

end Marks

/-- A deletion marks the nodes that it takes bytes from. -/
theorem marks_delete (h : Paired t.statement t.derivation) (offset length : Nat) :
    t.Marks (fun r => decide (r.overlap offset length > 0)) (fun r => r.afterDelete offset length)
      (t.delete offset length) := by
  rw [delete]
  split
  · rename_i hzero
    subst hzero
    refine .of_eq (fun r => decide_eq_false ?_) (fun r => r.afterDelete_zero offset) t
    simp only [Region.overlap]
    omega
  · exact .of_move h _ _

/-- An insertion marks the nodes that it falls inside. -/
theorem marks_insert (h : Paired t.statement t.derivation) (offset length : Nat) :
    t.Marks (fun r => decide (length > 0) && r.holds offset) (fun r => r.afterInsert offset length)
      (t.insert offset length) := by
  rw [insert]
  split
  · rename_i hzero
    subst hzero
    exact .of_eq (fun r => rfl) (fun r => r.afterInsert_zero offset) t
  · rename_i hzero
    have hpos : decide (length > 0) = true := decide_eq_true (Nat.pos_of_ne_zero hzero)
    simp only [hpos, Bool.true_and]
    exact .of_move h _ _

variable [Pattern.Compiler]

/-- An edit that is made marks the nodes whose region of interest it touches. -/
theorem marks_edit (h : Paired t.statement t.derivation) {edit : Edit} (he : t.edit edit = .ok t') :
    t.Marks edit.touches edit.place t' := by
  obtain ⟨text, _, rfl⟩ := edit_eq_ok he
  have hdelete := marks_delete h edit.offset edit.length
  have hinsert := marks_insert (hdelete.paired h) edit.offset (Text.size edit.text)
  obtain ⟨h1, h2, h3⟩ := hdelete.trans hinsert h
  exact ⟨h1, h2, h3⟩

/-- **Edits that are made mark the nodes whose region of interest one of them touches.** -/
theorem marks_edits (h : Paired t.statement t.derivation) {edits : List Edit}
    (he : edits.foldlM EditedTree.edit t = .ok t') : t.Marks (Edit.anyTouches edits) (Edit.placeAll edits) t' := by
  induction edits generalizing t with
  | nil =>
    cases he
    exact .of_eq (fun _ => rfl) (fun _ => rfl) _
  | cons edit edits ih =>
    rw [List.foldlM_cons] at he
    cases hfirst : t.edit edit with
    | error fault =>
      rw [hfirst] at he
      cases he
    | ok t1 =>
      rw [hfirst] at he
      have hmarks := marks_edit h hfirst
      exact hmarks.trans (ih (hmarks.paired h) he) h

end EditedTree

end Graft
