import Graft.Proofs.Lookups
import Graft.Proofs.Shaped
import Graft.Proofs.Tracks

/-!
# Trees of several grammars

A tree may be repaired by another grammar than the one that read it. Whatever grammars have made a tree, it tiles a text, and
the value of a rule stands around a group, so no value stands directly in a value. Both hold at every node below.
-/

namespace Graft

open Engine

/-! ## Values apart -/

/-- A statement in which no value stands directly in a value. -/
inductive Statement.Unstacked : Statement → Prop where
  | node {s : Statement} (apart : s.name?.isSome → ∀ child ∈ s.children, child.name? = none)
      (below : ∀ child ∈ s.children, Unstacked child) : Unstacked s

/-- The nodes of a tree are found at paths. -/
theorem Statement.exists_path_of_mem_walk {s : Statement} {d : Derivation} {node : Statement × Derivation}
    (hm : node ∈ s.walk d) : ∃ path, at? path s = some node.1 := by
  have hbelow {s child : Statement} {path : List Nat} (hc : child ∈ s.children) (hpath : at? path child = some node.1) :
      ∃ path, at? path s = some node.1 := by
    obtain ⟨i, hi⟩ := List.mem_iff_getElem?.1 hc
    exact ⟨i :: path, by rw [at?_cons_of_child hi, hpath]⟩
  induction s using fromChildren generalizing d with
  | node s ih =>
    cases s with
    | leaf =>
      rw [walk_leaf, List.mem_singleton] at hm
      exact ⟨[], by rw [hm, at?_nil]⟩
    | group id region children =>
      rw [walk_group, List.mem_cons] at hm
      rcases hm with rfl | hm
      · exact ⟨[], at?_nil _⟩
      · obtain ⟨child, hc, inner, _, hm⟩ := of_mem_walkList hm
        obtain ⟨path, hpath⟩ := ih child hc hm
        exact hbelow hc hpath
    | value id region name text body =>
      rw [walk_value, List.mem_cons] at hm
      rcases hm with rfl | hm
      · exact ⟨[], at?_nil _⟩
      · cases hd : d.children with
        | nil =>
          rw [hd] at hm
          cases hm
        | cons inner rest =>
          rw [hd] at hm
          obtain ⟨path, hpath⟩ := ih body (List.mem_singleton_self body) hm
          exact hbelow (List.mem_singleton_self body) hpath

namespace Statement.Unstacked

variable {s : Statement}

theorem leaf (id : NodeId) (region : Region) (text : String) : (Statement.leaf id region text).Unstacked :=
  .node (fun _ _ h => nomatch h) fun _ h => nomatch h

theorem group (id : NodeId) (region : Region) {children : List Statement} (h : ∀ child ∈ children, child.Unstacked) :
    (Statement.group id region children).Unstacked :=
  .node (fun h => nomatch h) h

/-- A value around a group of such statements is one. -/
theorem value (id inner : NodeId) (region within : Region) (name text : String) {children : List Statement}
    (h : ∀ child ∈ children, child.Unstacked) :
    (Statement.value id region name text (.group inner within children)).Unstacked := by
  refine .node (fun _ child hm => ?_) fun child hm => ?_
  · obtain rfl := List.mem_singleton.1 hm
    rfl
  · obtain rfl := List.mem_singleton.1 hm
    exact group inner within h

/-- The name that a value is shown under does not matter. -/
theorem shown (h : s.Unstacked) (name : Option String) : (Reading.shown name s).Unstacked := by
  cases name with
  | none => exact h
  | some name =>
    cases s with
    | leaf => exact h
    | group => exact h
    | value =>
      cases h with
      | node apart below => exact .node apart below

/-- Where the nodes lie does not matter. -/
theorem placed (h : s.Unstacked) (v : Region → Region) : (s.placed v).Unstacked := by
  induction h with
  | @node s apart _ ih =>
    refine .node (fun hs child hm => ?_) fun child hm => ?_
    · rw [children_placed] at hm
      obtain ⟨origin, ho, rfl⟩ := List.mem_map.1 hm
      rw [name?_placed] at hs ⊢
      exact apart hs origin ho
    · rw [children_placed] at hm
      obtain ⟨origin, ho, rfl⟩ := List.mem_map.1 hm
      exact ih origin ho

theorem child (h : s.Unstacked) {child : Statement} (hc : child ∈ s.children) : child.Unstacked := by
  cases h with
  | node _ below => exact below child hc

/-- No value stands directly in a value below, either. -/
theorem of_at? (h : s.Unstacked) {path : List Nat} {node : Statement} (hnode : at? path s = some node) :
    node.Unstacked := by
  induction path generalizing s with
  | nil =>
    cases hnode
    exact h
  | cons i path ih =>
    obtain ⟨child, hi, hnode⟩ := Option.bind_eq_some_iff.1 hnode
    exact ih (h.child (List.mem_of_getElem? hi)) hnode

theorem of_mem_walk (h : s.Unstacked) {d : Derivation} {node : Statement × Derivation} (hm : node ∈ s.walk d) :
    node.1.Unstacked := by
  obtain ⟨path, hpath⟩ := exists_path_of_mem_walk hm
  exact h.of_at? hpath

/-- So no value below stands directly in a value. -/
theorem exposed (h : s.Unstacked) {path : List Nat} (hpath : path ∈ s.valuePaths) : s.Exposed path := by
  obtain ⟨hne, v, hv, hvalue⟩ := mem_valuePaths.1 hpath
  rw [← List.dropLast_append_getLast hne, at?_append, Option.bind_eq_some_iff] at hv
  obtain ⟨above, habove, hv⟩ := hv
  obtain ⟨child, hi, hv⟩ := Option.bind_eq_some_iff.1 hv
  cases hv
  rw [Exposed, nameAt?, habove, Option.bind_some]
  cases h.of_at? habove with
  | node apart _ =>
    by_contra hname
    rw [apart (Option.isSome_iff_ne_none.2 hname) v (List.mem_of_getElem? hi)] at hvalue
    cases hvalue

end Statement.Unstacked

/-- There are texts of any size. -/
theorem Text.exists_size (n : Nat) : ∃ text, Text.size text = n := by
  induction n with
  | zero => exact ⟨"", Text.size_empty⟩
  | succ n ih =>
    obtain ⟨text, htext⟩ := ih
    have hone : Text.size "a" = 1 := by decide +kernel
    exact ⟨text ++ "a", by rw [Text.size_append, htext, hone]⟩

variable [Pattern.Compiler]

/-- What an attempt has read has no value directly in a value. -/
def Unstacking : Claim := fun _ _ _ a =>
  ∀ s, a.statement = some s → s.Unstacked

/-- Rules put their values around groups. -/
theorem Unstacking.closed {grammar : Grammar} {input : String} : Claim.Closed grammar input Unstacking := by
  have hchildren {edges : List Edge} {live : Context} {offset : Nat} {g : Gathering}
      (h : Gathered Unstacking edges live offset g) : ∀ s ∈ g.children.toList.map (·.statement), s.Unstacked := by
    intro s hs
    obtain ⟨child, hc, rfl⟩ := List.mem_map.1 hs
    exact h.children_of (Q := fun s _ => s.Unstacked) (fun _ _ _ _ ha => ha) child hc
  intro rule offset context a h s hs
  cases h with
  | unmatched => cases hs
  | matched id =>
    cases hs
    exact .leaf _ _ _
  | full id chosen rules plain gathered =>
    cases hs
    exact .group _ _ (hchildren gathered)
  | short => cases hs
  | valued id inner name text rules gathered =>
    cases hs
    exact .value _ _ _ _ _ _ (hchildren gathered)
  | called id rules resolved attempted =>
    obtain ⟨t, ha, rfl, _⟩ := Reading.wrap_eq_success hs
    refine .group _ _ fun child hm => ?_
    obtain rfl := List.mem_singleton.1 hm
    exact (attempted t ha).shown _

/-! ## Trees -/

/-- A tree that comes from a parse and any number of repairs, each of them by some grammar. -/
inductive Tree.Made : Tree → Prop where
  | parse {grammar : Grammar} {input : String} {options : Options} {nextId next : NodeId} {tree : Tree}
      (parsed : grammar.parse input options nextId = .ok (tree, next)) : Made tree
  | repair {grammar : Grammar} {before tree : Tree} {edits : List Edit} {options : Options} {nextId next : NodeId}
      (made : Made before) (repaired : grammar.repair before edits options nextId = .ok (tree, next)) : Made tree

namespace Tree.Made

variable {tree : Tree}

/-- A tree tiles its text, from the start to the end, or its rules have looked at nothing. -/
theorem stands (h : tree.Made) :
    (tree.Whole ∧ tree.derivation.interest.length ≠ 0 ∧ tree.statement.Tiles tree.text) ∨ (EditedTree.ofTree tree).Blank := by
  induction h with
  | parse parsed =>
    obtain ⟨hw, _⟩ := whole_of_parse parsed
    exact hw.looked_or_blank.imp_left fun hinterest => ⟨hw, hinterest, tiles_of_parse parsed⟩
  | repair _ repaired ih =>
    rcases ih with ⟨hbefore, hinterest, htiles⟩ | hblank
    · obtain ⟨edited, he⟩ := applyAll_of_repair repaired
      obtain ⟨hw, _⟩ := hbefore.repair hinterest repaired he
      exact hw.looked_or_blank.imp_left fun hlooked => ⟨hw, hlooked, hbefore.tiles_of_repair hinterest htiles repaired⟩
    · exact Or.inr (blank_of_repair hblank repaired)

/-- Edits move the nodes of a tree. -/
theorem moved (h : tree.Made) {edits : List Edit} {t : EditedTree}
    (ht : edits.foldlM EditedTree.edit (.ofTree tree) = .ok t) : ∃ v, t.statement = tree.statement.placed v := by
  rcases h.stands with ⟨hw, _⟩ | hblank
  · obtain ⟨v, hfollows⟩ := hw.follows ht
    exact ⟨v, hfollows.statement⟩
  · obtain ⟨v, hdrifts⟩ := hblank.of_edits ht
    exact ⟨v, hdrifts.statement⟩

/-- Every tree tiles a text. -/
theorem exists_tiles (h : tree.Made) : ∃ document, tree.statement.Tiles document := by
  rcases h.stands with ⟨_, _, htiles⟩ | hblank
  · exact ⟨_, htiles⟩
  · -- the nodes have no text, so any text will do that reaches to where they lie
    obtain ⟨document, hsize⟩ := Text.exists_size tree.statement.region.offset
    refine ⟨document, hblank.paired.tiles (Text.isBoundary_size document) fun node hm => ?_⟩
    obtain ⟨h1, _, h2⟩ := hblank.nodes node hm
    rw [hsize]
    exact ⟨h1, h2⟩

/-- No value stands directly in a value. -/
theorem unstacked (h : tree.Made) : tree.statement.Unstacked := by
  induction h with
  | parse parsed => exact (parse_yields Unstacking.closed.passes parsed).1 _ rfl
  | @repair grammar before tree edits options nextId next made repaired ih =>
    obtain ⟨_, rfl⟩ | ⟨t, ht, ⟨hmark, hrederive⟩ | ⟨_, hkeep⟩⟩ := repair_eq_ok repaired
    · exact ih
    · rcases made.stands with ⟨hw, _⟩ | hblank
      · obtain ⟨v, hfollows⟩ := hw.follows ht
        have hmodified : (Setting.make grammar t.text options t.modified).modified = t.modified := rfl
        have hkept := hfollows.kept (P := Unstacking) hw.formed hmodified
          (fun node hm p _ rule context s hs => by
            cases hs
            exact (ih.of_mem_walk hm).placed v) none grammar.root options.context
        exact (rederive_yields Unstacking.closed.passes hkept hrederive).1 _ rfl
      · rw [hblank.unmarked ht] at hmark
        cases hmark
    · obtain ⟨v, hmoved⟩ := made.moved ht
      obtain ⟨rfl, _⟩ := Grammar.keepTree_eq_ok hkeep
      rw [hmoved]
      exact ih.placed v

/-- The tokens of a node of a tree are all values below it. -/
theorem map_some_tokens (h : tree.Made) {place : List Nat} {s : Statement}
    (hs : Statement.at? place tree.statement = some s) : s.tokens.map some = s.valuePaths.map (Statement.at? · s) := by
  rw [Statement.map_some_tokens, List.filter_eq_self.2 fun path hpath => decide_eq_true ?_]
  exact (h.unstacked.of_at? hs).exposed hpath

end Tree.Made

end Graft
