import Graft.Proofs.Shaped
import Graft.Proofs.Tiles

/-!
# Leaves and the texts that they spell

Of the leaves below a node, those that lie in no value make up the text that the node adds to the value around it: the texts of
those that were read by rules that keep what they consume, joined from left to right. A node keeps no more than it has read, and
keeps the same wherever it lies.
-/

namespace Graft

open Engine

/-! ## Leaves -/

namespace Statement

mutual

/-- The leaves of a statement that lie in no value, with their derivations, from left to right. -/
def ownLeaves : Statement → Derivation → List (Statement × Derivation)
  | leaf id region text, d => [(leaf id region text, d)]
  | group _ _ children, d => ownLeavesOfList children d.children
  | value .., _ => []

/-- The leaves of several statements that lie in no value. -/
def ownLeavesOfList : List Statement → List Derivation → List (Statement × Derivation)
  | s :: statements, d :: derivations => ownLeaves s d ++ ownLeavesOfList statements derivations
  | _, _ => []

end

/-- The leaves of statements that stand one behind the other do so. -/
theorem Adjoin.ownLeaves {start stop : Nat} {statements : List Statement} (h : Adjoin start statements stop)
    (hs : ∀ s ∈ statements, ∀ d, (∀ leaf ∈ s.ownLeaves d, s.region.offset ≤ leaf.1.region.offset ∧
      leaf.1.region.stop ≤ s.region.stop) ∧ (s.ownLeaves d).Pairwise fun a b => a.1.region.stop ≤ b.1.region.offset)
    (derivations : List Derivation) :
    (∀ leaf ∈ ownLeavesOfList statements derivations, start ≤ leaf.1.region.offset ∧ leaf.1.region.stop ≤ stop) ∧
      (ownLeavesOfList statements derivations).Pairwise fun a b => a.1.region.stop ≤ b.1.region.offset := by
  induction statements generalizing start derivations with
  | nil => simp [ownLeavesOfList]
  | cons s rest ih =>
    cases derivations with
    | nil => simp [ownLeavesOfList]
    | cons d derivations =>
      have hbetween := h.between.2 s (List.mem_cons_self ..)
      obtain ⟨hstart, hrest⟩ := h
      obtain ⟨h1, h2⟩ := hs s (List.mem_cons_self ..) d
      obtain ⟨h3, h4⟩ := ih hrest (fun other hm => hs other (List.mem_cons_of_mem _ hm)) derivations
      have hle : s.region.offset ≤ s.region.stop := Nat.le_add_right _ _
      refine ⟨?_, ?_⟩
      · intro leaf hm
        rcases List.mem_append.1 hm with hm | hm
        · have := h1 leaf hm
          omega
        · have := h3 leaf hm
          omega
      · refine List.pairwise_append.2 ⟨h2, h4, fun a ha b hb => ?_⟩
        have h5 := h1 a ha
        have h6 := h3 b hb
        omega

/-- The leaves of a statement that tiles a text stand in its region, one behind the other. -/
theorem Tiles.ownLeaves {input : String} {s : Statement} (h : s.Tiles input) (d : Derivation) :
    (∀ leaf ∈ s.ownLeaves d, s.region.offset ≤ leaf.1.region.offset ∧ leaf.1.region.stop ≤ s.region.stop) ∧
      (s.ownLeaves d).Pairwise fun a b => a.1.region.stop ≤ b.1.region.offset := by
  induction h generalizing d with
  | leaf held => simp [Statement.ownLeaves]
  | group boundary adjoin _ ih => exact adjoin.ownLeaves ih d.children
  | value => simp [Statement.ownLeaves]

end Statement

theorem Statement.ownLeaves_shown (name : Option String) (s : Statement) (d : Derivation) :
    (Reading.shown name s).ownLeaves d = s.ownLeaves d := by
  cases name with
  | none => rfl
  | some name => cases s <;> rfl

variable [Pattern.Compiler]

/-- Whether a node was read by a rule that keeps the text it consumes. -/
def Grammar.keeps (grammar : Grammar) (node : Statement × Derivation) : Bool :=
  match grammar.body? node.2.rule with
  | some (.consume .keep _) => true
  | _ => false

/-- The texts of the nodes that were read by rules that keep what they consume, joined. -/
def Grammar.spell (grammar : Grammar) (nodes : List (Statement × Derivation)) : String :=
  String.join ((nodes.filter grammar.keeps).map (·.1.text))

namespace Grammar

variable (grammar : Grammar)

theorem spell_nil : grammar.spell [] = "" := rfl

theorem spell_append (nodes others : List (Statement × Derivation)) :
    grammar.spell (nodes ++ others) = grammar.spell nodes ++ grammar.spell others := by
  rw [spell, List.filter_append, List.map_append, String.join_append]
  rfl

end Grammar

/-- What is kept of several nodes is spelled by their leaves, if this is so for each of them. -/
theorem Statement.keptOfList_eq_spell {grammar : Grammar} {children : List Taken}
    (h : ∀ child ∈ children, child.statement.kept grammar child.derivation =
      grammar.spell (child.statement.ownLeaves child.derivation)) :
    keptOfList grammar (children.map (·.statement)) (children.map (·.derivation)) =
      grammar.spell (ownLeavesOfList (children.map (·.statement)) (children.map (·.derivation))) := by
  induction children with
  | nil => simp [keptOfList_nil, ownLeavesOfList, Grammar.spell_nil]
  | cons child rest ih =>
    rw [List.map_cons, List.map_cons, keptOfList_cons, ownLeavesOfList, Grammar.spell_append,
      h child (List.mem_cons_self ..), ih fun other hm => h other (List.mem_cons_of_mem _ hm)]

/-- What a node adds to the value around it is spelled by its leaves. -/
theorem Shaped.kept_eq_spell {grammar : Grammar} {s : Statement} {d : Derivation} (h : Shaped grammar s d) :
    s.kept grammar d = grammar.spell (s.ownLeaves d) := by
  induction h with
  | @leaf id region interest text rule kind binding rules =>
    simp only [Statement.kept, Derivation.rule, rules, Statement.ownLeaves, Grammar.spell, Grammar.keeps, List.filter]
    cases kind <;> simp [Statement.text]
  | @group id region interest rule chosen kind edges children rules plain _ ih =>
    have hkept := Statement.keptOfList_eq_spell ih
    simp only [Statement.kept, Derivation.rule, rules, Statement.ownLeaves, Derivation.children]
    cases kind with
    | value nonEmpty => exact absurd rfl (plain nonEmpty)
    | inOrder => exact hkept
    | anyOrder => exact hkept
    | firstOrder => exact hkept
  | value children rules =>
    simp only [Statement.kept, Derivation.rule, rules, Statement.ownLeaves, Grammar.spell_nil]
  | call rules _ ih =>
    simp only [Statement.kept, Derivation.rule, rules, Statement.ownLeaves, Derivation.children,
      Statement.keptOfList_cons, Statement.keptOfList_nil, Statement.ownLeavesOfList, Statement.kept_shown,
      Statement.ownLeaves_shown, String.append_empty, List.append_nil]
    exact ih

/-! ## Kept text -/

/-- Several nodes keep no more than they have read, if this is so for each of them. -/
theorem Statement.size_keptOfList_le {grammar : Grammar} {children : List Taken}
    (h : ∀ child ∈ children, Text.size (child.statement.kept grammar child.derivation) ≤ Text.size child.statement.rawText) :
    Text.size (keptOfList grammar (children.map (·.statement)) (children.map (·.derivation))) ≤
      Text.size (rawTextOfList (children.map (·.statement))) := by
  induction children with
  | nil => simp [keptOfList_nil, Text.size_empty]
  | cons child rest ih =>
    have h1 := h child (List.mem_cons_self ..)
    have h2 := ih fun other hm => h other (List.mem_cons_of_mem _ hm)
    rw [List.map_cons, List.map_cons, keptOfList_cons, rawTextOfList_cons, Text.size_append, Text.size_append]
    omega

/-- A node keeps no more than it has read. -/
theorem Shaped.size_kept_le {grammar : Grammar} {s : Statement} {d : Derivation} (h : Shaped grammar s d) :
    Text.size (s.kept grammar d) ≤ Text.size s.rawText := by
  have hempty : ∀ text, Text.size "" ≤ Text.size text := fun text => by
    rw [Text.size_empty]
    exact Nat.zero_le _
  induction h with
  | @leaf id region interest text rule kind binding rules =>
    simp only [Statement.kept, Derivation.rule, rules, Statement.rawText_leaf]
    cases kind with
    | keep => exact Nat.le_refl _
    | skip => exact hempty _
  | @group id region interest rule chosen kind edges children rules plain _ ih =>
    have hkept := Statement.size_keptOfList_le ih
    simp only [Statement.kept, Derivation.rule, rules, Derivation.children, Statement.rawText_group]
    cases kind with
    | value nonEmpty => exact absurd rfl (plain nonEmpty)
    | inOrder => exact hkept
    | anyOrder => exact hkept
    | firstOrder => exact hkept
  | value children rules =>
    simp only [Statement.kept, Derivation.rule, rules]
    exact hempty _
  | call rules _ ih =>
    simp only [Statement.kept, Derivation.rule, rules, Derivation.children, Statement.keptOfList_cons,
      Statement.keptOfList_nil, Statement.kept_shown, Statement.rawText_group, Statement.rawTextOfList_cons,
      Statement.rawTextOfList_nil, Statement.rawText_shown, String.append_empty]
    exact ih

namespace Statement

mutual

/-- What is kept does not depend on where the nodes lie. -/
theorem kept_placed (g : Grammar) (v : Region → Region) (s : Statement) (d : Derivation) :
    kept g (s.placed v) (d.placed v) = kept g s d := by
  cases s with
  | leaf id region text => simp only [placed_leaf, kept, Derivation.rule_placed]
  | group id region children =>
    rw [placed, kept, kept, Derivation.rule_placed, Derivation.children_placed, ← Derivation.placedList_eq_map,
      keptOfList_placed g v children d.children]
  | value id region name text body =>
    rw [placed, kept, kept, Derivation.rule_placed, Derivation.children_placed]
    cases d.children with
    | nil => rfl
    | cons inner rest => simp only [List.map_cons, kept_placed g v body inner]

theorem keptOfList_placed (g : Grammar) (v : Region → Region) (statements : List Statement) (derivations : List Derivation) :
    keptOfList g (placedList v statements) (Derivation.placedList v derivations) = keptOfList g statements derivations := by
  match statements, derivations with
  | [], _ => rw [placedList, keptOfList_nil, keptOfList_nil]
  | s :: statements, [] => simp [placedList, Derivation.placedList, keptOfList]
  | s :: statements, d :: derivations =>
    rw [placedList, Derivation.placedList, keptOfList_cons, keptOfList_cons, kept_placed g v s d,
      keptOfList_placed g v statements derivations]

end

end Statement

/-- A node of the shape of its rules covers the text that it tiles. -/
theorem Shaped.covers {grammar : Grammar} {s : Statement} {d : Derivation} (h : Shaped grammar s d) {input : String}
    (ht : s.Tiles input) : Attempt.CoversAs grammar input s.region.offset s d where
  start := rfl
  text := ht.slice
  kept := by
    have h1 := h.size_kept_le
    have h2 := Text.size_of_slice? ht.slice
    simp only [Region.stop] at h2
    omega
  known := h.known

end Graft
