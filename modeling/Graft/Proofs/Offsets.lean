import Graft.Proofs.Hygiene
import Graft.Proofs.Made
import Graft.Proofs.Positions

/-!
# The deepest value at an offset

The search for the scope at an offset takes the first scope that holds the offset, goes on below it and never turns back. In a
tree that a parse and repairs have made this finds the deepest value below a node that holds the offset: nodes side by side do
not overlap, so only one child leads to values that hold the offset, and nodes lie inside those above them, so the search need
not enter a value that does not hold it. The values that hold the offset lie on one path, and the search comes to its end.
-/

namespace Graft

open Engine

theorem Region.holds_of_within {r r' : Region} {offset : Nat} (h : r'.holds offset = true) (hoffset : r.offset ≤ r'.offset)
    (hstop : r'.stop ≤ r.stop) : r.holds offset = true := by
  simp only [Region.holds, Bool.and_eq_true, decide_eq_true_eq] at h ⊢
  omega

namespace Statement

variable {s v : Statement} {input : String} {offset : Nat}

/-- Whether a path leads to a value that holds an offset. -/
def HoldsAt (s : Statement) (offset : Nat) (path : List Nat) : Prop :=
  ∃ v, at? path s = some v ∧ v.name?.isSome ∧ v.region.holds offset = true

/-- Whether a path leads to a value below a statement that holds an offset, and no value below that one does. -/
def DeepestAt (s : Statement) (offset : Nat) (path : List Nat) : Prop :=
  path ≠ [] ∧ s.HoldsAt offset path ∧ ∀ more, more ≠ [] → ¬ s.HoldsAt offset (path ++ more)

theorem holdsAt_cons {child : Statement} {i : Nat} (h : s.children[i]? = some child) {path : List Nat} :
    s.HoldsAt offset (i :: path) ↔ child.HoldsAt offset path := by
  rw [HoldsAt, HoldsAt, at?_cons_of_child h]

theorem holdsAt_nil : s.HoldsAt offset [] ↔ s.name?.isSome ∧ s.region.holds offset = true := by
  simp [HoldsAt]

/-- A path that leads to a value takes a first step to a child. -/
theorem HoldsAt.exists_child {i : Nat} {path : List Nat} (h : s.HoldsAt offset (i :: path)) :
    ∃ child, s.children[i]? = some child ∧ child.HoldsAt offset path := by
  obtain ⟨v, hv, hvalue⟩ := h
  obtain ⟨child, hi, hv⟩ := Option.bind_eq_some_iff.1 hv
  exact ⟨child, hi, v, hv, hvalue⟩

/-! ## Nodes inside nodes -/

/-- The children of a statement that tiles a text do so as well, inside its region. -/
theorem Tiles.child (h : s.Tiles input) {child : Statement} (hc : child ∈ s.children) :
    child.Tiles input ∧ s.region.offset ≤ child.region.offset ∧ child.region.stop ≤ s.region.stop := by
  cases h with
  | leaf => cases hc
  | group _ adjoin below =>
    obtain ⟨h1, h2⟩ := adjoin.between.2 child hc
    exact ⟨below child hc, h1, h2⟩
  | value same below =>
    obtain rfl := List.mem_singleton.1 hc
    exact ⟨below, Nat.le_of_eq (congrArg Region.offset same).symm, Nat.le_of_eq (congrArg Region.stop same)⟩

/-- So do the nodes at its paths. -/
theorem Tiles.of_at? (h : s.Tiles input) {path : List Nat} (hv : at? path s = some v) :
    v.Tiles input ∧ s.region.offset ≤ v.region.offset ∧ v.region.stop ≤ s.region.stop := by
  induction path generalizing s with
  | nil =>
    cases hv
    exact ⟨h, Nat.le_refl _, Nat.le_refl _⟩
  | cons i path ih =>
    obtain ⟨child, hi, hv⟩ := Option.bind_eq_some_iff.1 hv
    obtain ⟨hchild, h1, h2⟩ := h.child (List.mem_of_getElem? hi)
    obtain ⟨hnode, h3, h4⟩ := ih hchild hv
    exact ⟨hnode, Nat.le_trans h1 h3, Nat.le_trans h4 h2⟩

/-- A statement holds the offsets of the values at its paths. -/
theorem HoldsAt.holds (h : s.Tiles input) {path : List Nat} (hpath : s.HoldsAt offset path) :
    s.region.holds offset = true := by
  obtain ⟨v, hv, _, hholds⟩ := hpath
  obtain ⟨_, h1, h2⟩ := h.of_at? hv
  exact Region.holds_of_within hholds h1 h2

/-- Two children do not hold one offset. -/
theorem Tiles.child_unique (h : s.Tiles input) {i j : Nat} {child other : Statement} (hi : s.children[i]? = some child)
    (hj : s.children[j]? = some other) (hchild : child.region.holds offset = true)
    (hother : other.region.holds offset = true) : i = j := by
  have hpairs : s.children.Pairwise fun s t => s.region.stop ≤ t.region.offset := by
    cases h with
    | leaf => exact .nil
    | group _ adjoin _ => exact adjoin.pairwise
    | value => exact List.pairwise_singleton _ _
  have hbefore {i j : Nat} {child other : Statement} (hi : s.children[i]? = some child) (hj : s.children[j]? = some other)
      (hchild : child.region.holds offset = true) (hother : other.region.holds offset = true) : ¬ i < j := by
    intro hij
    obtain ⟨hilt, rfl⟩ := List.getElem?_eq_some_iff.1 hi
    obtain ⟨hjlt, rfl⟩ := List.getElem?_eq_some_iff.1 hj
    have hle := List.pairwise_iff_getElem.1 hpairs i j hilt hjlt hij
    simp only [Region.holds, Bool.and_eq_true, decide_eq_true_eq] at hchild hother
    omega
  exact Nat.le_antisymm (Nat.not_lt.1 (hbefore hj hi hother hchild)) (Nat.not_lt.1 (hbefore hi hj hchild hother))

/-! ## The search -/

theorem scopeAt?_eq (s : Statement) (offset : Nat) :
    s.scopeAt? offset = (s.scopes.find? (·.region.holds offset)).map fun v => (v.scopeAt? offset).getD v := by
  have hfind : s.scopes.find? (·.region.holds offset) =
      (s.scopes.attach.find? fun v => v.1.region.holds offset).map Subtype.val := by
    conv_lhs => rw [← List.attach_map_subtype_val s.scopes, List.find?_map]
    rfl
  rw [scopeAt?, hfind]
  cases s.scopes.attach.find? fun v => v.1.region.holds offset with
  | none => rfl
  | some v => rfl

theorem scopeAt?_leaf (id : NodeId) (region : Region) (text : String) : (leaf id region text).scopeAt? offset = none := by
  rw [scopeAt?_eq, scopes, List.find?_nil, Option.map_none]

theorem scopeAt?_value (id : NodeId) (region : Region) (name text : String) (body : Statement) :
    (value id region name text body).scopeAt? offset = body.scopeAt? offset := by
  rw [scopeAt?_eq, scopes, ← scopeAt?_eq]

/-- What the search for an offset finds at a statement or below it. -/
def scopeFrom? (offset : Nat) (s : Statement) : Option Statement :=
  if s.name?.isSome then
    if s.region.holds offset then some ((s.scopeAt? offset).getD s) else none
  else s.scopeAt? offset

/-- The search in a group goes from child to child. -/
theorem scopeAt?_group (id : NodeId) (region : Region) (children : List Statement) :
    (group id region children).scopeAt? offset = children.findSome? (scopeFrom? offset) := by
  rw [scopeAt?_eq, scopes]
  induction children with
  | nil => rw [scopesOfList, List.find?_nil, Option.map_none, List.findSome?_nil]
  | cons s rest ih =>
    rw [List.findSome?_cons, ← ih]
    cases s with
    | leaf => simp [scopesOfList, scopeFrom?, name?, scopeAt?_leaf]
    | group id region children =>
      rw [scopesOfList, List.find?_append, scopeFrom?, if_neg (by simp [name?]), scopeAt?_eq, scopes]
      cases (scopesOfList children).find? (·.region.holds offset) <;> simp
    | value id region name text body =>
      rw [scopesOfList, scopeFrom?, if_pos (by simp [name?])]
      cases hholds : region.holds offset <;> simp [hholds, Statement.region]

/-- The search goes from child to child, where a value does not stand directly in a value. -/
theorem scopeAt?_eq_findSome? (h : s.Unstacked) : s.scopeAt? offset = s.children.findSome? (scopeFrom? offset) := by
  cases s with
  | leaf => rw [scopeAt?_leaf, children, List.findSome?_nil]
  | group => rw [scopeAt?_group, children]
  | value id region name text body =>
    cases h with
    | node apart _ =>
      have hbody : body.name? = none := apart rfl body (List.mem_singleton_self body)
      rw [scopeAt?_value, children, List.findSome?_singleton, scopeFrom?, hbody, if_neg (by simp)]

/-- What a search for an offset comes to among some paths: nothing where no value at one of them holds it, or else the value at
one of them that all others lead to. -/
def Comes (s : Statement) (offset : Nat) (P : List Nat → Prop) : Option Statement → Prop
  | none => ∀ path, P path → ¬ s.HoldsAt offset path
  | some v => ∃ path, P path ∧ at? path s = some v ∧ s.HoldsAt offset path ∧
      ∀ other, P other → s.HoldsAt offset other → other <+: path

/-- What is found below a statement is found from it on, if it is no value that holds the offset or if something is found. -/
theorem Comes.from_below {found : Option Statement} (h : s.Comes offset (· ≠ []) found)
    (hself : found = none → ¬ s.HoldsAt offset []) : s.Comes offset (fun _ => True) found := by
  cases found with
  | none =>
    intro path _
    cases path with
    | nil => exact hself rfl
    | cons i path => exact h _ (List.cons_ne_nil _ _)
  | some v =>
    obtain ⟨path, _, hv, hpath, hall⟩ := h
    refine ⟨path, trivial, hv, hpath, fun other _ hother => ?_⟩
    cases other with
    | nil => exact List.nil_prefix
    | cons i other => exact hall _ (List.cons_ne_nil _ _) hother

/-- A value that holds the offset is found where nothing below it is. -/
theorem comes_from (h : s.Tiles input) (hbelow : s.Comes offset (· ≠ []) (s.scopeAt? offset)) :
    s.Comes offset (fun _ => True) (scopeFrom? offset s) := by
  rw [scopeFrom?]
  split
  · rename_i hvalue
    split
    · rename_i hholds
      cases hfound : s.scopeAt? offset with
      | none =>
        rw [hfound] at hbelow
        refine ⟨[], trivial, at?_nil s, holdsAt_nil.2 ⟨hvalue, hholds⟩, fun other _ hother => ?_⟩
        cases other with
        | nil => exact List.nil_prefix
        | cons i other => exact absurd hother (hbelow _ (List.cons_ne_nil _ _))
      | some v =>
        rw [hfound] at hbelow
        exact hbelow.from_below fun h => nomatch h
    · rename_i hholds
      exact fun path _ hpath => hholds (hpath.holds h)
  · rename_i hvalue
    exact hbelow.from_below fun _ hself => hvalue (holdsAt_nil.1 hself).1

/-- **The search below a statement** comes to the value that the paths to all values below it that hold the offset lead to. -/
theorem comes_below (h : s.Tiles input) (hs : s.Unstacked) : s.Comes offset (· ≠ []) (s.scopeAt? offset) := by
  induction s using fromChildren with
  | node s ih =>
    have hchild (child : Statement) (hc : child ∈ s.children) :
        child.Comes offset (fun _ => True) (scopeFrom? offset child) :=
      comes_from (h.child hc).1 (ih child hc (h.child hc).1 (hs.child hc))
    rw [scopeAt?_eq_findSome? hs]
    cases hfind : s.children.findSome? (scopeFrom? offset) with
    | none =>
      intro path hne hpath
      obtain ⟨i, path, rfl⟩ := List.exists_cons_of_ne_nil hne
      obtain ⟨child, hi, hpath⟩ := hpath.exists_child
      have hc := List.mem_of_getElem? hi
      have hcomes := hchild child hc
      rw [List.findSome?_eq_none_iff.1 hfind child hc] at hcomes
      exact hcomes path trivial hpath
    | some v =>
      obtain ⟨child, hc, hfound⟩ := List.exists_of_findSome?_eq_some hfind
      have hcomes := hchild child hc
      rw [hfound] at hcomes
      obtain ⟨path, _, hv, hpath, hall⟩ := hcomes
      obtain ⟨i, hi⟩ := List.mem_iff_getElem?.1 hc
      refine ⟨i :: path, List.cons_ne_nil _ _, by rw [at?_cons_of_child hi, hv], (holdsAt_cons hi).2 hpath, ?_⟩
      intro other hne hother
      obtain ⟨j, other, rfl⟩ := List.exists_cons_of_ne_nil hne
      obtain ⟨child', hj, hother⟩ := hother.exists_child
      -- both children hold the offset, so they are one child
      obtain rfl := h.child_unique hi hj (hpath.holds (h.child hc).1) (hother.holds (h.child (List.mem_of_getElem? hj)).1)
      obtain rfl := Option.some.inj (hi.symm.trans hj)
      exact List.cons_prefix_cons.2 ⟨rfl, hall other trivial hother⟩

end Statement

section

variable [Pattern.Compiler]

/-- **The scope at an offset is the deepest value that holds it.** At every node of a tree that a parse and repairs have made,
the search for the scope at an offset finds nothing exactly if no value below the node holds the offset. What it finds is a
value below the node that holds the offset and has no value below it that does, and no other place below the node has such a
value. -/
theorem Tree.Made.scopeAt_deepest {tree : Tree} (h : tree.Made) {place : List Nat} {s : Statement}
    (hs : Statement.at? place tree.statement = some s) (offset : Nat) :
    (s.scopeAt? offset = none ↔ ∀ path, path ≠ [] → ¬ s.HoldsAt offset path) ∧
      ∀ v, s.scopeAt? offset = some v →
        ∃ path, Statement.at? path s = some v ∧ s.DeepestAt offset path ∧
          ∀ other, s.DeepestAt offset other → other = path := by
  obtain ⟨document, htiles⟩ := h.exists_tiles
  have hcomes : s.Comes offset (· ≠ []) (s.scopeAt? offset) :=
    Statement.comes_below (htiles.of_at? hs).1 (h.unstacked.of_at? hs)
  constructor
  · constructor
    · intro hnone
      rwa [hnone] at hcomes
    · intro hpaths
      cases hfound : s.scopeAt? offset with
      | none => rfl
      | some v =>
        rw [hfound] at hcomes
        obtain ⟨path, hne, _, hpath, _⟩ := hcomes
        exact absurd hpath (hpaths path hne)
  · intro v hfound
    rw [hfound] at hcomes
    obtain ⟨path, hne, hv, hpath, hall⟩ := hcomes
    refine ⟨path, hv, ⟨hne, hpath, fun more hmore hbelow => ?_⟩, ?_⟩
    · have hle := (hall _ (List.append_ne_nil_of_left_ne_nil hne more) hbelow).length_le
      rw [List.length_append] at hle
      have := List.length_pos_iff.2 hmore
      omega
    · rintro other ⟨hother, hholds, hdeepest⟩
      obtain ⟨more, rfl⟩ := hall other hother hholds
      have hmore : more = [] := by
        by_contra hmore
        exact hdeepest more hmore hpath
      rw [hmore, List.append_nil]

/-- A grammar whose root invokes a value of one match. -/
def Grammar.callingValue (p : Pattern) : Grammar where
  rules := #[⟨none, [], .empty, .consume .keep (.pattern p)⟩,
    ⟨some "v", [], .empty, .container (.value false) [⟨⟨0⟩, .occurrence .once, .empty⟩]⟩,
    ⟨none, [], .empty, .invoke { target := .rule ⟨1⟩ }⟩]
  root := ⟨2⟩

end

open Pattern.Regex

/-- A letter is parsed as a group of a value of some text. -/
theorem parse_callingValue : ∃ id text tree next, (Grammar.callingValue .letterA).parse "a" .plain ⟨0⟩ = .ok (tree, next) ∧
    tree.statement = .group id ⟨0, 1⟩ [.value ⟨2⟩ ⟨0, 1⟩ "v" text (.group ⟨1⟩ ⟨0, 1⟩ [.leaf ⟨0⟩ ⟨0, 1⟩ "a"])] := by
  have hsize : Text.size "a" = 1 := by decide +kernel
  have hremaining : (Setting.make (.callingValue .letterA) "a" .plain {}).remaining 0 = 0 + 1 := by
    simp only [Setting.remaining, Setting.make, hsize]
  let edge : Edge := ⟨⟨0⟩, .occurrence .once, .empty⟩
  let inside : Context := .invocation .empty .empty []
  have hleaf : Run.Gives 2 0 1 ((attempts (.make (.callingValue .letterA) "a" .plain {}) 511).fresh ⟨0⟩ 0 (edge.context inside))
      (.success (.leaf ⟨0⟩ ⟨0, Text.size "a"⟩ "a") (.leaf ⟨0⟩ ⟨0, 2⟩)) :=
    attempt_gives rfl rfl (Nat.lt_of_sub_eq_succ rfl)
      (.lift (a := ⟨none, [], .empty, .consume .keep (.pattern .letterA)⟩) rfl (consume_whole Pattern.matchFront_letterA))
  rw [hsize] at hleaf
  have hread : Run.Gives 2 0 1 (readInOrder (.make (.callingValue .letterA) "a" .plain {})
      (attempts (.make (.callingValue .letterA) "a" .plain {}) 511) ⟨1⟩ inside {} [(edge, 0)] (.begin 0)) (true, _) :=
    .lift (a := ⟨0, edge, edge.context inside, .start .once⟩) rfl
      (.bind (readLane_once hremaining hleaf rfl rfl) (.pure _))
  have hbody : Run.Gives 2 0 2 (inOrder (.make (.callingValue .letterA) "a" .plain {})
      (attempts (.make (.callingValue .letterA) "a" .plain {}) 511) ⟨1⟩ [edge] {} 0 inside)
      (.success (.group ⟨1⟩ ⟨0, 1⟩ [.leaf ⟨0⟩ ⟨0, 1⟩ "a"]) (.group ⟨1⟩ ⟨0, 2⟩ [.leaf ⟨0⟩ ⟨0, 2⟩] [0] none)) :=
    .mark fun _ => .bind hread (.freshId (.pure _))
  obtain ⟨text, t, ht, _⟩ := value_run hbody "v" (s := (State.entered { nextId := ⟨0⟩ }).entered) ⟨rfl, rfl, trivial⟩
  obtain ⟨u, hu, _⟩ : ∃ u, (attempts (.make (.callingValue .letterA) "a" .plain {}) 512).fresh ⟨1⟩ 0 inside
      (State.entered { nextId := ⟨0⟩ }) = .ok (_, u) ∧ u.nextId = t.nextId ∧ u.statistics.hits = t.statistics.hits :=
    attempt_run rfl (Nat.lt_of_sub_eq_succ rfl) (fun hon => absurd hon Bool.false_ne_true) ht
  have hcall : readBody (.make (.callingValue .letterA) "a" .plain {})
      (attempts (.make (.callingValue .letterA) "a" .plain {}) 512) ⟨2⟩ 0 .empty (State.entered { nextId := ⟨0⟩ }) =
      .ok (.success (.group u.nextId ⟨0, 1⟩ [.value ⟨2⟩ ⟨0, 1⟩ "v" text (.group ⟨1⟩ ⟨0, 1⟩ [.leaf ⟨0⟩ ⟨0, 1⟩ "a"])])
        (.around ⟨2⟩ (.around ⟨1⟩ (.group ⟨1⟩ ⟨0, 2⟩ [.leaf ⟨0⟩ ⟨0, 2⟩] [0] none))), u.issued) := by
    have hinvoke : (Grammar.callingValue .letterA).body? ⟨2⟩ = some (.invoke { target := .rule ⟨1⟩ }) := rfl
    rw [readBody_invoke hinvoke]
    change ((attempts (.make (.callingValue .letterA) "a" .plain {}) 512).fresh ⟨1⟩ 0 inside >>=
      wrap ⟨2⟩ { target := .rule ⟨1⟩ }) _ = _
    rw [Run.bind_apply, hu]
    rfl
  obtain ⟨w, hw, _⟩ : ∃ w, (atRoot (.make (.callingValue .letterA) "a" .plain {})).fresh ⟨2⟩ 0 .empty
      { nextId := ⟨0⟩ } = .ok (_, w) ∧ w.nextId = u.issued.nextId ∧ w.statistics.hits = u.issued.statistics.hits :=
    attempt_run rfl (Nat.succ_pos 511) (fun hon => absurd hon Bool.false_ne_true) hcall
  refine ⟨u.nextId, text, _, _, parse_of_run (by rw [hsize]; decide) hw hsize.symm, rfl⟩

/-- The value that a group holds is found at its letter. -/
theorem Tree.Made.scopeAt_deepest_letterA : ∃ (tree : Tree) (s v : Statement) (path : List Nat), tree.Made ∧
    Statement.at? [] tree.statement = some s ∧ s.scopeAt? 0 = some v ∧ Statement.at? path s = some v ∧
      s.DeepestAt 0 path := by
  obtain ⟨id, text, tree, next, hparse, hstatement⟩ := parse_callingValue
  have hs : Statement.at? [] tree.statement = some tree.statement := Statement.at?_nil _
  obtain ⟨hnone, hsome⟩ := Tree.Made.scopeAt_deepest (.parse hparse) hs 0
  have hvalue : tree.statement.HoldsAt 0 [0] := by
    rw [hstatement]
    exact ⟨_, rfl, rfl, rfl⟩
  cases hfound : tree.statement.scopeAt? 0 with
  | none => exact absurd hvalue (hnone.1 hfound [0] (List.cons_ne_nil _ _))
  | some v =>
    obtain ⟨path, hv, hdeepest, _⟩ := hsome v hfound
    exact ⟨tree, _, v, path, .parse hparse, hs, hfound, hv, hdeepest⟩

end Graft
