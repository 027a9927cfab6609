import Graft.Proofs.Edits
import Graft.Proofs.Revisited
import Graft.Repair

/-!
# Whole calls

What is known of the tree of a call that succeeds: the root rule has read all of the text from its start, and whatever passes
from attempts to rules holds of the root. A repair that succeeds has done nothing, attempted the root again, or kept it.
-/

namespace Graft

open Engine

variable [Pattern.Compiler]

/-! ## Trees of runs -/

/-- The tree of a run is the root attempt, which has read the text to its end, with what was counted. -/
theorem Tree.ofRun_eq_ok {input : String} {unmatched : Nat → Nat → Fault.Cause} {a : Attempt} {s : State} {tree : Tree}
    (h : Tree.ofRun input unmatched a s = .ok tree) :
    a = .success tree.statement tree.derivation ∧ tree.statement.region.stop = Text.size input ∧
      tree.statistics = s.statistics := by
  obtain ⟨statement, d⟩ := a
  cases statement with
  | none => cases h
  | some statement =>
    rw [Tree.ofRun] at h
    simp only at h
    split at h
    · rename_i hstop
      cases h
      exact ⟨rfl, hstop, rfl⟩
    · cases h

/-- A state before the root is attempted remembers nothing. -/
theorem State.remembers_begin (P : Claim) (nextId : NodeId) : State.Remembers P { nextId } := by
  intro key entry h
  simp at h

section

variable {P : Claim} {grammar : Grammar} {options : Options} {nextId next : NodeId} {tree : Tree}

/-- A parse that succeeds has attempted the root at the start of the text, in a state where nothing is remembered. -/
theorem Grammar.parse_eq_ok {input : String} (h : grammar.parse input options nextId = .ok (tree, next)) :
    ∃ s, (atRoot (.make grammar input options {})).fresh grammar.root 0 options.context { nextId } =
        .ok (.success tree.statement tree.derivation, s) ∧
      tree.statement.region.stop = Text.size input ∧ next = s.nextId ∧ tree.statistics = s.statistics := by
  rw [parse] at h
  obtain ⟨_, -, h⟩ := Except.bind_eq_ok.1 h
  obtain ⟨⟨a, s⟩, hrun, h⟩ := Except.bind_eq_ok.1 h
  obtain ⟨result, htree, h⟩ := Except.bind_eq_ok.1 h
  cases h
  obtain ⟨rfl, hstop, hstatistics⟩ := Tree.ofRun_eq_ok htree
  exact ⟨s, hrun, hstop, rfl, hstatistics⟩

/-- Where a repair has attempted the root again, the attempt was on the earlier root, in a state where nothing is remembered, and
the tree shows the text of the document. -/
theorem Grammar.rederive_eq_ok {t : EditedTree} (h : grammar.rederive t options nextId = .ok (tree, next)) :
    ∃ s, (atRoot (.make grammar t.text options t.modified)).again grammar.root t.statement t.derivation 0 options.context
        { nextId } = .ok (.success tree.statement tree.derivation, s) ∧
      tree.statement.region.stop = Text.size t.text ∧ tree.text = t.text ∧ next = s.nextId ∧
      tree.statistics = s.statistics := by
  rw [rederive] at h
  obtain ⟨⟨a, s⟩, hrun, hrest⟩ := Except.bind_eq_ok.1 h
  obtain ⟨result, htree, hshown⟩ := Except.bind_eq_ok.1 hrest
  split at hshown
  · rename_i htext
    cases hshown
    obtain ⟨rfl, hstop, hstatistics⟩ := Tree.ofRun_eq_ok htree
    exact ⟨s, hrun, hstop, htext, rfl, hstatistics⟩
  · cases hshown

/-- The root of a tree that was parsed has every property that passes from attempts to rules. -/
theorem parse_yields {input : String} (hP : P.Passes grammar input)
    (h : grammar.parse input options nextId = .ok (tree, next)) :
    P grammar.root 0 options.context (.success tree.statement tree.derivation) ∧
      tree.statement.region.stop = Text.size input := by
  obtain ⟨s, hrun, hstop, _⟩ := Grammar.parse_eq_ok h
  obtain ⟨hroot, _⟩ := @fresh_yields _ P (.make grammar input options {}) hP _ _ _ _ _ _ _
    (State.remembers_begin P nextId) hrun
  exact ⟨hroot, hstop⟩

/-- The root of a tree whose root was attempted again has every property that passes from attempts to rules and that the nodes
kept have. Its text is that of the document. -/
theorem rederive_yields {t : EditedTree} (hP : P.Passes grammar t.text)
    (hkept : Revisited grammar (Keeping P (.make grammar t.text options t.modified)) none grammar.root options.context
      t.statement t.derivation)
    (h : grammar.rederive t options nextId = .ok (tree, next)) :
    P grammar.root 0 options.context (.success tree.statement tree.derivation) ∧
      tree.statement.region.stop = Text.size t.text ∧ tree.text = t.text := by
  obtain ⟨s, hrun, hstop, htext, _⟩ := Grammar.rederive_eq_ok h
  obtain ⟨hroot, _⟩ := (@again_yields _ P (.make grammar t.text options t.modified) _ _ hP _ _ _ _ hkept).plain _ _ _ _
    (State.remembers_begin P nextId) hrun
  exact ⟨hroot, hstop, htext⟩

end

/-! ## Chains of repairs -/

/-- A tree that comes from a parse and any number of repairs, in contexts that are allowed. -/
inductive Tree.Reached (grammar : Grammar) (allowed : Context → Prop) : Tree → Prop where
  | parse {input : String} {options : Options} {nextId next : NodeId} {tree : Tree} (allows : allowed options.context)
      (parsed : grammar.parse input options nextId = .ok (tree, next)) : Reached grammar allowed tree
  | repair {before tree : Tree} {edits : List Edit} {options : Options} {nextId next : NodeId}
      (reached : Reached grammar allowed before) (allows : allowed options.context)
      (repaired : grammar.repair before edits options nextId = .ok (tree, next)) : Reached grammar allowed tree

/-- What a repair that succeeds has done: nothing, kept a root that no edit touched, or attempted the root again. Only in the
last case it may have given out identities. -/
theorem repair_course {grammar : Grammar} {before tree : Tree} {edits : List Edit} {options : Options}
    {nextId next : NodeId} (h : grammar.repair before edits options nextId = .ok (tree, next)) :
    next = nextId ∧ (edits = [] ∧ tree = before ∨ ∃ t, edits.foldlM EditedTree.edit (.ofTree before) = .ok t ∧
      t.modified.contains t.statement.id = false ∧ Grammar.keepTree t = .ok tree) ∨
    ∃ t, edits.foldlM EditedTree.edit (.ofTree before) = .ok t ∧ t.modified.contains t.statement.id = true ∧
      grammar.rederive t options nextId = .ok (tree, next) := by
  rw [Grammar.repair] at h
  split at h
  · rename_i hempty
    cases h
    exact Or.inl ⟨rfl, Or.inl ⟨List.isEmpty_iff.1 hempty, rfl⟩⟩
  · split at h
    · cases h
    · obtain ⟨t, hedits, h⟩ := Except.bind_eq_ok.1 h
      obtain ⟨_, -, h⟩ := Except.bind_eq_ok.1 h
      cases hmark : t.modified.contains t.statement.id with
      | true =>
        rw [hmark] at h
        exact Or.inr ⟨t, hedits, hmark, h⟩
      | false =>
        rw [hmark] at h
        obtain ⟨kept, hkeep, h⟩ := Except.bind_eq_ok.1 h
        cases h
        exact Or.inl ⟨rfl, Or.inr ⟨t, hedits, hmark, hkeep⟩⟩

/-- What a repair that succeeds has done with the edits: nothing, or made them. -/
theorem repair_eq_ok {grammar : Grammar} {before tree : Tree} {edits : List Edit} {options : Options}
    {nextId next : NodeId} (h : grammar.repair before edits options nextId = .ok (tree, next)) :
    edits = [] ∧ tree = before ∨ ∃ t, edits.foldlM EditedTree.edit (.ofTree before) = .ok t ∧
      (t.modified.contains t.statement.id = true ∧ grammar.rederive t options nextId = .ok (tree, next) ∨
        t.modified.contains t.statement.id = false ∧ Grammar.keepTree t = .ok tree) := by
  obtain ⟨_, hnothing | ⟨t, ht, hkept⟩⟩ | ⟨t, ht, hrederived⟩ := repair_course h
  · exact Or.inl hnothing
  · exact Or.inr ⟨t, ht, Or.inr hkept⟩
  · exact Or.inr ⟨t, ht, Or.inl hrederived⟩

/-- A root that is kept ends with the text. -/
theorem Grammar.keepTree_eq_ok {t : EditedTree} {tree : Tree} (h : keepTree t = .ok tree) :
    tree = ⟨t.statement, t.derivation, {}⟩ ∧ t.statement.region.stop = Text.size t.text := by
  rw [keepTree] at h
  split at h
  · rename_i hstop
    cases h
    exact ⟨rfl, hstop⟩
  · cases h

/-- Edits mark no node of a tree whose rules have looked at nothing. -/
theorem EditedTree.Blank.unmarked {tree : Tree} (hblank : (ofTree tree).Blank) {edits : List Edit} {t : EditedTree}
    (ht : edits.foldlM EditedTree.edit (ofTree tree) = .ok t) (id : NodeId) : t.modified.contains id = false := by
  obtain ⟨_, hdrifts⟩ := hblank.of_edits ht
  rw [hdrifts.modified]
  simp [ofTree]

/-- The repair of a tree whose rules have looked at nothing does nothing, or keeps the root where the edits have moved it. -/
theorem EditedTree.Blank.repair_eq_ok {grammar : Grammar} {before tree : Tree} (hblank : (ofTree before).Blank)
    {edits : List Edit} {options : Options} {nextId next : NodeId}
    (h : grammar.repair before edits options nextId = .ok (tree, next)) :
    edits = [] ∧ tree = before ∨ ∃ t v, edits.foldlM EditedTree.edit (ofTree before) = .ok t ∧
      (ofTree before).Drifts v t ∧ tree = ⟨t.statement, t.derivation, {}⟩ ∧ t.statement.region.stop = Text.size t.text := by
  obtain hnothing | ⟨t, ht, ⟨hmark, _⟩ | ⟨_, hkeep⟩⟩ := Graft.repair_eq_ok h
  · exact Or.inl hnothing
  · rw [hblank.unmarked ht] at hmark
    cases hmark
  · obtain ⟨v, hdrifts⟩ := hblank.of_edits ht
    exact Or.inr ⟨t, v, ht, hdrifts, Grammar.keepTree_eq_ok hkeep⟩

/-- Where edits are made by a repair that succeeds, they fit the text one after the other. -/
theorem applyAll_of_repair {grammar : Grammar} {before tree : Tree} {edits : List Edit} {options : Options}
    {nextId next : NodeId} (h : grammar.repair before edits options nextId = .ok (tree, next)) :
    ∃ edited, Edit.applyAll edits before.text = .ok edited := by
  obtain ⟨rfl, _⟩ | ⟨t, ht, _⟩ := repair_eq_ok h
  · exact ⟨before.text, rfl⟩
  · exact ⟨t.text, EditedTree.applyAll_of_edits ht⟩

/-- The repair of a tree whose rules looked at nothing looks at nothing. -/
theorem blank_of_repair {grammar : Grammar} {before tree : Tree} {edits : List Edit} {options : Options}
    {nextId next : NodeId} (hblank : (EditedTree.ofTree before).Blank)
    (h : grammar.repair before edits options nextId = .ok (tree, next)) : (EditedTree.ofTree tree).Blank := by
  obtain ⟨_, rfl⟩ | ⟨t, _, _, hdrifts, rfl, _⟩ := hblank.repair_eq_ok h
  · exact hblank
  · exact ⟨hdrifts.blank.paired, hdrifts.blank.nodes⟩

end Graft
