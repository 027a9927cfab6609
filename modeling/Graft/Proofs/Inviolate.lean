import Graft.Proofs.Safe
import Graft.Proofs.Whole

/-!
# Invariants are never violated

No call of the engine ends in a fault that says that an invariant was violated, whatever the document and its edits are. A match is
asked for, and ends, only between characters of the document; a loop ends; and after each edit of a tree every region of interest
holds its region and starts with it.
-/

namespace Graft

open Engine

section

variable [Pattern.Compiler]

namespace Except.Intact

theorem ok {α : Type} (a : α) : Except.Intact (.ok a : Except Fault α) := by
  intro fault h
  cases h

theorem checkInput (limits : Limits) (input : String) : Except.Intact (limits.checkInput input) := by
  intro fault h
  rw [Limits.checkInput] at h
  split at h
  · cases h
    exact Fault.Kind.noConfusion
  · cases h

/-- What a run that is over comes to may only be no match. -/
theorem ofRun {unmatched : Nat → Nat → Fault.Cause}
    (h : ∀ size furthest, (unmatched size furthest).kind = .parseFailed) (input : String) (a : Attempt) (s : State) :
    Except.Intact (Tree.ofRun input unmatched a s) := by
  intro fault hr
  have hkind : fault.kind = .parseFailed := by
    rw [Tree.ofRun] at hr
    cases hs : a.statement with
    | none =>
      simp only [hs] at hr
      cases hr
      exact h _ _
    | some statement =>
      simp only [hs] at hr
      split at hr
      · cases hr
      · cases hr
        exact h _ _
  rw [hkind]
  decide

theorem keepTree (t : EditedTree) : Except.Intact (Grammar.keepTree t) := by
  intro fault h
  rw [Grammar.keepTree] at h
  split at h
  · cases h
  · cases h
    exact Fault.Kind.noConfusion

end Except.Intact

/-! ## Edits -/

/-- Edits fail only where one of them does not fit. -/
theorem Edit.kind_of_applyAll {edits : List Edit} {document : String} {fault : Fault}
    (h : applyAll edits document = .error fault) : fault.kind = .invalidEdit := by
  induction edits generalizing document with
  | nil => cases h
  | cons e rest ih =>
    rw [applyAll, List.foldlM_cons] at h
    cases he : e.applyTo document with
    | ok next =>
      rw [he] at h
      exact ih h
    | error other =>
      rw [he] at h
      cases h
      rw [applyTo] at he
      cases hm : e.apply document with
      | ok next =>
        rw [hm] at he
        cases he
      | error misfit =>
        rw [hm] at he
        cases he
        rfl

/-- The first edits of those that fit one after the other fit one after the other. -/
theorem Edit.applyAll_take {edits : List Edit} {document edited : String} (h : applyAll edits document = .ok edited)
    (n : Nat) : ∃ between, applyAll (edits.take n) document = .ok between := by
  rw [applyAll, ← List.take_append_drop n edits, List.foldlM_append] at h
  cases hfirst : applyAll (edits.take n) document with
  | ok between => exact ⟨between, rfl⟩
  | error fault =>
    rw [applyAll] at hfirst
    rw [hfirst] at h
    cases h

/-- Whatever edits are made on a tree that was reached, each region of interest begins with its region and holds it. -/
theorem Tree.Reached.endures {grammar : Grammar} {allowed : Context → Prop} {tree : Tree} (h : tree.Reached grammar allowed) :
    ∃ I : EditedTree → Prop, EditedTree.Endures I ∧ I (.ofTree tree) ∧
      ∀ t, I t → ∀ node ∈ t.nodes, node.1.region.Begins node.2.interest := by
  obtain ⟨hw, _⟩ | hblank := h.whole
  · refine ⟨_, EditedTree.Follows.endures (u := tree.text) hw.formed.paired,
      ⟨_, .begin hw.formed (Nat.le_of_eq hw.stop)⟩, ?_⟩
    rintro t ⟨v, hfollows⟩ node hm
    rw [hfollows.nodes hw.formed.paired] at hm
    obtain ⟨origin, ho, rfl⟩ := List.mem_map.1 hm
    rw [Statement.region_placed, Derivation.interest_placed]
    exact hfollows.begins origin ho
  · refine ⟨_, EditedTree.Blank.endures (.ofTree tree), ⟨_, hblank.drifts⟩, ?_⟩
    rintro t ⟨v, hdrifts⟩ node hm
    obtain ⟨h1, h2, _⟩ := hdrifts.blank.nodes node hm
    rw [h1, h2]
    exact ⟨rfl, Nat.le_refl _⟩

/-! ## Calls -/

theorem Grammar.parse_intact (grammar : Grammar) (input : String) (options : Options) (nextId : NodeId) :
    Except.Intact (grammar.parse input options nextId) := by
  rw [Grammar.parse]
  refine Except.Intact.bind (.checkInput _ _) fun _ _ => ?_
  refine Except.Intact.bind ?_ ?_
  · exact (@fresh_safe _ _ (.make grammar input options {}) Tiled.closed.passes (fun _ _ _ _ h => h) _).safe grammar.root 0
      options.context (Text.isBoundary_zero input) _ (State.remembers_begin _ nextId)
  · rintro ⟨a, s⟩ _
    exact Except.Intact.bind (.ofRun (fun _ _ => rfl) _ _ _) fun _ _ => .ok _

/-- Nodes that tile the text where they are kept let the root be attempted again. -/
theorem Grammar.rederive_intact (grammar : Grammar) (t : EditedTree) (options : Options) (nextId : NodeId)
    (h : Revisited grammar (Keeping (Tiled t.text) (.make grammar t.text options t.modified)) none grammar.root
      options.context t.statement t.derivation) : Except.Intact (grammar.rederive t options nextId) := by
  rw [Grammar.rederive]
  refine Except.Intact.bind ?_ ?_
  · exact (@again_safe _ _ (.make grammar t.text options t.modified) _ _ Tiled.closed.passes (fun _ _ _ _ h => h) _ _ _ _
      h).safe 0 (Text.isBoundary_zero t.text) _ (State.remembers_begin _ nextId)
  · rintro ⟨a, s⟩ _
    refine Except.Intact.bind (.ofRun (fun _ _ => rfl) _ _ _) fun tree _ => ?_
    split
    · exact .ok _
    · intro fault hfault
      cases hfault
      exact Fault.Kind.noConfusion

/-- The root of an edited tree that is attempted again is that of a whole tree, whose nodes tile the text where they are kept. -/
theorem Tree.Reached.repair_intact {grammar : Grammar} {allowed : Context → Prop} {tree : Tree}
    (h : tree.Reached grammar allowed) (edits : List Edit) (options : Options) (nextId : NodeId) :
    Except.Intact (grammar.repair tree edits options nextId) := by
  obtain ⟨I, hI, hbegin, _⟩ := h.endures
  rw [Grammar.repair]
  split
  · exact .ok _
  · split
    · intro fault hfault
      cases hfault
      exact Fault.Kind.noConfusion
    · refine Except.Intact.bind ?_ fun t ht => ?_
      · intro fault hfault
        rw [Edit.kind_of_applyAll (hI.applyAll_eq_error hbegin hfault)]
        decide
      · refine Except.Intact.bind (.checkInput _ _) fun _ _ => ?_
        split
        · rename_i hmark
          obtain ⟨hw, hinterest⟩ := h.whole_of_marked ht hmark
          obtain ⟨v, hfollows⟩ := hw.follows ht
          exact grammar.rederive_intact t options nextId
            (@EditedTree.Follows.tiled _ _ _ _ _ _ hfollows hw.formed (h.tiles hinterest)
              (.make grammar t.text options t.modified) rfl none grammar.root options.context)
        · exact Except.Intact.bind (.keepTree t) fun _ _ => .ok _

/-- **Invariants are never violated**, neither by a parse nor, on a tree that was reached, by edits or a repair. Edits that fit
one after the other are made, and after each of them every region of interest holds its region and starts with it. That no match
violates an invariant says that it starts and ends at boundaries of the text. -/
theorem no_invariant_violated (grammar : Grammar) :
    (∀ input options nextId, Except.Intact (grammar.parse input options nextId)) ∧
      (∀ tree, tree.Reached grammar (fun _ => True) →
        (∀ edits edited, Edit.applyAll edits tree.text = .ok edited → ∀ n, ∃ t, tree.applyEdits (edits.take n) = .ok t ∧
          ∀ node ∈ t.nodes, node.2.interest.contains node.1.region = true ∧
            node.2.interest.offset = node.1.region.offset) ∧
        (∀ edits, Except.Intact (tree.applyEdits edits)) ∧
        ∀ edits options nextId, Except.Intact (grammar.repair tree edits options nextId)) ∧
      ∀ setting rule kind binding pattern offset context s, context.resolvePattern binding = .ok pattern →
        Except.Intact (consume setting rule kind binding offset context s) →
          Text.isBoundary setting.input offset = true ∧
            ∀ length, (pattern.matchFront ((Text.bytes setting.input).drop offset)).length = some length →
              Text.isBoundary setting.input (offset + length) = true := by
  refine ⟨grammar.parse_intact, fun tree hreached => ⟨?_, ?_, hreached.repair_intact⟩, ?_⟩
  · intro edits edited he n
    obtain ⟨I, hI, hbegin, hbegins⟩ := hreached.endures
    obtain ⟨between, hbetween⟩ := Edit.applyAll_take he n
    obtain ⟨t, ht, _, hinv⟩ := hI.edits hbegin hbetween
    exact ⟨t, ht, fun node hm => ⟨(hbegins t hinv node hm).contains, (hbegins t hinv node hm).offset.symm⟩⟩
  · intro edits fault hfault
    obtain ⟨I, hI, hbegin, _⟩ := hreached.endures
    rw [Edit.kind_of_applyAll (hI.applyAll_eq_error hbegin hfault)]
    decide
  · intro setting rule kind binding pattern offset context s hp hintact
    exact boundary_of_consume_intact hp hintact

end

open Pattern.Regex

/-- A letter is put into the place of itself. -/
theorem no_invariant_violated_letterA : ∃ (tree : Tree) (t : EditedTree),
    tree.Reached (.ofPattern .letterA) (fun _ => True) ∧ Edit.applyAll [⟨0, 1, "a"⟩] tree.text = .ok "a" ∧
      tree.applyEdits [⟨0, 1, "a"⟩] = .ok t ∧
      (∀ node ∈ t.nodes, node.2.interest.contains node.1.region = true ∧
        node.2.interest.offset = node.1.region.offset) ∧
      Except.Intact ((Grammar.ofPattern .letterA).repair tree [⟨0, 1, "a"⟩] .plain ⟨1⟩) := by
  have hsize : Text.size "a" ≤ Options.plain.limits.maxInputSize := by decide +kernel
  have he : Edit.applyAll [⟨0, 1, "a"⟩] "a" = .ok "a" := by decide +kernel
  obtain ⟨statistics, hparse⟩ := parse_ofPattern Pattern.matchFront_letterA hsize 0
  have hreached : Tree.Reached (.ofPattern .letterA) (fun _ => True) _ := .parse trivial hparse
  have hfits : Edit.applyAll [⟨0, 1, "a"⟩] (Tree.ofMatch 0 "a" 2 statistics).text = .ok "a" := by
    rw [(whole_of_parse hparse).2]
    exact he
  obtain ⟨hedits, _, hrepair⟩ := (no_invariant_violated (.ofPattern .letterA)).2.1 _ hreached
  obtain ⟨t, ht, hnodes⟩ := hedits _ _ hfits 1
  exact ⟨_, t, hreached, hfits, ht, hnodes, hrepair _ _ _⟩

end Graft
