import Graft.Proofs.Paths
import Graft.Statement.Scopes

/-!
# Looking up values

Two searches list values below a statement: the tokens go from scope to scope, and the search by name goes from node to node
and stops below a value that it finds. Both are searches from the top in the sense of `map_some_of_search`, so each of them
lists the values at certain paths, in the order of the paths. The tokens leave out the values that stand directly in a value:
its scopes are those of its body, and a body that is a value is not among its own. So the tokens hold all values below a
statement exactly if no value stands directly in another one.
-/

namespace Graft.Statement

/-- The name of the value at the end of a path. -/
def nameAt? (s : Statement) (path : List Nat) : Option String :=
  (at? path s).bind name?

/-- The paths to the values below a statement, in the order of a walk from the top and from left to right. -/
def valuePaths (s : Statement) : List (List Nat) :=
  s.paths.filter fun path => (s.nameAt? path).isSome

/-- Whether the node above the end of a path is no value. -/
def Exposed (s : Statement) (path : List Nat) : Prop :=
  s.nameAt? path.dropLast = none

/-- Whether a path ends at a value with a name, and passes no other value with that name below the statement. -/
def Outermost (s : Statement) (name : String) (path : List Nat) : Prop :=
  s.nameAt? path = some name ∧ ∀ k < path.length, 0 < k → s.nameAt? (path.take k) ≠ some name

instance (s : Statement) (path : List Nat) : Decidable (s.Exposed path) :=
  inferInstanceAs (Decidable (_ = _))

instance (s : Statement) (name : String) (path : List Nat) : Decidable (s.Outermost name path) :=
  inferInstanceAs (Decidable (_ ∧ _))

/-- The empty path leads to the statement itself. -/
theorem nameAt?_nil (s : Statement) : s.nameAt? [] = s.name? := by
  rw [nameAt?, at?_nil, Option.bind_some]

/-- A path through a child leads where the rest of it leads from that child. -/
theorem nameAt?_cons {s child : Statement} {i : Nat} (h : s.children[i]? = some child) (path : List Nat) :
    s.nameAt? (i :: path) = child.nameAt? path := by
  rw [nameAt?, at?_cons_of_child h, nameAt?]

/-- The paths to the values below a statement are its paths to values, but for the empty one. -/
theorem mem_valuePaths {s : Statement} {path : List Nat} :
    path ∈ s.valuePaths ↔ path ≠ [] ∧ ∃ v, at? path s = some v ∧ v.name?.isSome := by
  rw [valuePaths, List.mem_filter, mem_paths, and_assoc, nameAt?]
  refine and_congr_right fun _ => ?_
  cases at? path s with
  | none => simp
  | some v => simp

/-! ## Paths step by step -/

/-- A child is exposed if the statement is no value itself. -/
theorem exposed_singleton {s : Statement} {i : Nat} : s.Exposed [i] ↔ s.name? = none := by
  rw [Exposed, List.dropLast_singleton, nameAt?_nil]

/-- What lies below a child is exposed if it is so from there. -/
theorem exposed_cons {s child : Statement} {i : Nat} {path : List Nat} (h : s.children[i]? = some child)
    (hpath : path ≠ []) : s.Exposed (i :: path) ↔ child.Exposed path := by
  rw [Exposed, Exposed, List.dropLast_cons_of_ne_nil hpath, nameAt?_cons h]

/-- A child is outermost if it has the name itself. -/
theorem outermost_singleton {s child : Statement} {name : String} {i : Nat} (h : s.children[i]? = some child) :
    s.Outermost name [i] ↔ child.name? = some name := by
  rw [Outermost, nameAt?_cons h, nameAt?_nil]
  refine and_iff_left fun k hk hpos => ?_
  rw [List.length_singleton] at hk
  omega

/-- What lies below a child is outermost if it is so from there and the child has another name. -/
theorem outermost_cons {s child : Statement} {name : String} {i : Nat} {path : List Nat} (h : s.children[i]? = some child)
    (hpath : path ≠ []) : s.Outermost name (i :: path) ↔ child.name? ≠ some name ∧ child.Outermost name path := by
  have htake (k : Nat) : s.nameAt? ((i :: path).take (k + 1)) = child.nameAt? (path.take k) := by
    rw [List.take_succ_cons, nameAt?_cons h]
  constructor
  · rintro ⟨hname, hk⟩
    rw [nameAt?_cons h] at hname
    refine ⟨?_, hname, fun k hlt hpos => ?_⟩
    · rw [← nameAt?_nil, ← List.take_zero, ← htake]
      exact hk 1 (by simpa using List.length_pos_iff.2 hpath) Nat.zero_lt_one
    · rw [← htake]
      exact hk (k + 1) (Nat.succ_lt_succ hlt) (Nat.succ_pos k)
  · rintro ⟨hchild, hname, hk⟩
    refine ⟨by rw [nameAt?_cons h, hname], fun k hlt hpos => ?_⟩
    obtain ⟨k, rfl⟩ := Nat.exists_eq_succ_of_ne_zero (Nat.ne_of_gt hpos)
    rw [htake]
    cases k with
    | zero => rwa [List.take_zero, nameAt?_nil]
    | succ k => exact hk (k + 1) (Nat.lt_of_succ_lt_succ hlt) (Nat.succ_pos k)

/-! ## The tokens -/

/-- The tokens of a statement are its scopes, each of them followed by its own tokens. -/
theorem tokens_eq (s : Statement) : s.tokens = s.scopes.flatMap fun v => v :: v.tokens := by
  rw [tokens]
  simp

/-- A leaf has no tokens. -/
theorem tokens_leaf (id : NodeId) (region : Region) (text : String) : (leaf id region text).tokens = [] := by
  rw [tokens_eq, scopes, List.flatMap_nil]

/-- The tokens of a group are the scopes of its children, each of them followed by its own tokens. -/
theorem tokens_group (id : NodeId) (region : Region) (children : List Statement) :
    (group id region children).tokens = (scopesOfList children).flatMap fun v => v :: v.tokens := by
  rw [tokens_eq, scopes]

/-- The tokens of a value are those of its body, which is no token itself. -/
theorem tokens_value (id : NodeId) (region : Region) (name text : String) (body : Statement) :
    (value id region name text body).tokens = body.tokens := by
  rw [tokens_eq, scopes, ← tokens_eq]

/-- The scopes of several children, each followed by its tokens, are found child by child. -/
theorem flatMap_scopesOfList (statements : List Statement) :
    (scopesOfList statements).flatMap (fun v => v :: v.tokens) =
      statements.flatMap fun child => (if child.name?.isSome then [child] else []) ++ child.tokens := by
  induction statements with
  | nil => rw [scopesOfList, List.flatMap_nil, List.flatMap_nil]
  | cons s rest ih =>
    rw [List.flatMap_cons, ← ih]
    cases s with
    | leaf => simp [scopesOfList, name?, tokens_leaf]
    | group => simp [scopesOfList, name?, tokens_group]
    | value => simp [scopesOfList, name?]

/-- The tokens are found from child to child. A child that is a value is one of them unless it stands in a value. -/
theorem tokens_eq_flatMap (s : Statement) :
    s.tokens = s.children.flatMap fun child =>
      (if s.name?.isNone && child.name?.isSome then [child] else []) ++ if true then child.tokens else [] := by
  cases s with
  | leaf => rw [tokens_leaf, children, List.flatMap_nil]
  | group id region children =>
    rw [tokens_group, flatMap_scopesOfList]
    rfl
  | value => simp [tokens_value, children, name?]

/-- The tokens are the exposed values, in the order of their paths. -/
theorem map_some_tokens (s : Statement) :
    s.tokens.map some = (s.valuePaths.filter (s.Exposed ·)).map (at? · s) := by
  rw [valuePaths, List.filter_filter]
  refine map_some_of_search _ _ _ (fun s path => decide (s.Exposed path) && (s.nameAt? path).isSome)
    tokens_eq_flatMap ?_ ?_ s
  · intro s child i hi
    have hexposed : decide (s.Exposed [i]) = s.name?.isNone := by
      rw [Bool.eq_iff_iff, decide_eq_true_eq, exposed_singleton, Option.isNone_iff_eq_none]
    rw [nameAt?_cons hi, nameAt?_nil, hexposed]
  · intro s child i path hi hpath
    simp [exposed_cons hi hpath, nameAt?_cons hi]

/-! ## The search by name -/

/-- Several statements are searched by name one after the other. -/
theorem valuesNamedOfList_eq (name : String) (statements : List Statement) :
    valuesNamedOfList name statements = statements.flatMap (valuesNamed name) := by
  induction statements with
  | nil => rw [valuesNamedOfList, List.flatMap_nil]
  | cons s rest ih => rw [valuesNamedOfList, ih, List.flatMap_cons]

/-- The search by name below a statement searches its children. -/
theorem collect_eq (s : Statement) (name : String) : s.collect name = s.children.flatMap (valuesNamed name) := by
  rw [collect, valuesNamedOfList_eq]

/-- The search by name finds the statement itself, or else goes on below it. -/
theorem valuesNamed_eq (name : String) (s : Statement) :
    s.valuesNamed name =
      (if s.name? = some name then [s] else []) ++ if s.name? ≠ some name then s.collect name else [] := by
  cases s with
  | leaf => simp [valuesNamed, name?, collect_eq, children]
  | group => simp [valuesNamed, name?, collect, children]
  | value id region own text body =>
    by_cases h : own = name <;> simp [valuesNamed, name?, collect_eq, children, h]

/-- The search by name finds the outermost values with the name, in the order of their paths. -/
theorem map_some_collect (s : Statement) (name : String) :
    (s.collect name).map some = (s.valuePaths.filter (s.Outermost name ·)).map (at? · s) := by
  have hvalues : s.valuePaths.filter (s.Outermost name ·) = s.paths.filter (s.Outermost name ·) := by
    rw [valuePaths, List.filter_filter]
    refine List.filter_congr fun path _ => ?_
    rw [Bool.and_eq_left_iff_imp, decide_eq_true_eq]
    exact fun h => Option.isSome_iff_exists.2 ⟨name, h.1⟩
  rw [hvalues]
  refine map_some_of_search (collect · name) (fun _ child => decide (child.name? = some name))
    (fun _ child => decide (child.name? ≠ some name)) (fun s path => decide (s.Outermost name path)) ?_ ?_ ?_ s
  · intro s
    rw [collect_eq]
    refine List.flatMap_congr fun child _ => ?_
    rw [valuesNamed_eq]
    simp only [decide_eq_true_eq]
  · intro s child i hi
    exact decide_eq_decide.2 (outermost_singleton hi)
  · intro s child i path hi hpath
    rw [← Bool.decide_and]
    exact decide_eq_decide.2 (outermost_cons hi hpath)

/-- **The lookups find values where they stand.** The values below a statement have paths, and the list of these paths is in
lexicographic order: each value once, those above a value before it. The tokens are the values at those of the paths whose
ends do not stand directly in a value, in this order, so they are all values exactly if no value below the statement stands
directly in a value. The search by a name finds the values with the name at those of the paths that pass no other value with
the name below the statement, in this order as well. -/
theorem tokens_and_collect (s : Statement) :
    s.valuePaths.Pairwise (· < ·) ∧
    (∀ path, path ∈ s.valuePaths ↔ path ≠ [] ∧ ∃ v, at? path s = some v ∧ v.name?.isSome) ∧
    s.tokens.map some = (s.valuePaths.filter (s.Exposed ·)).map (at? · s) ∧
    (s.tokens.map some = s.valuePaths.map (at? · s) ↔ ∀ path ∈ s.valuePaths, s.Exposed path) ∧
    ∀ name, (s.collect name).map some = (s.valuePaths.filter (s.Outermost name ·)).map (at? · s) := by
  refine ⟨(pairwise_paths s).filter _, fun _ => mem_valuePaths, map_some_tokens s, ?_, map_some_collect s⟩
  rw [map_some_tokens]
  constructor
  · intro h path hpath
    have hlength := congrArg List.length h
    rw [List.length_map, List.length_map, List.length_filter_eq_length_iff] at hlength
    exact of_decide_eq_true (hlength path hpath)
  · intro h
    rw [List.filter_eq_self.2 fun path hpath => decide_eq_true (h path hpath)]

/-- The tokens do not hold all values below a statement: here a value stands directly in a value. The search by name finds
it. -/
theorem exists_value_without_token :
    ∃ s v : Statement, at? [0] s = some v ∧ v.name? = some "b" ∧ s.collect "b" = [v] ∧ s.tokens = [] :=
  ⟨value ⟨0⟩ ⟨0, 1⟩ "a" "x" (value ⟨1⟩ ⟨0, 1⟩ "b" "x" (leaf ⟨2⟩ ⟨0, 1⟩ "x")),
    value ⟨1⟩ ⟨0, 1⟩ "b" "x" (leaf ⟨2⟩ ⟨0, 1⟩ "x"), rfl, rfl, rfl, by rw [tokens_value, tokens_value, tokens_leaf]⟩

end Graft.Statement
