import Mathlib.Data.List.Basic
import Graft.Statement

/-!
# Paths

The nodes below a statement have paths, one each. A walk through the statement from the top, and from left to right, meets
them in the lexicographic order of their paths, in which a node comes before the nodes below it. A search that goes down from
each node to its children, and says at each step whether to take the child and whether to go on below it, finds the nodes at
the paths that pass all of its steps, in this order.
-/

namespace Graft.Statement

/-- The nodes right below a statement are smaller than it. -/
theorem sizeOf_lt_of_mem_children {s child : Statement} (h : child ∈ s.children) : sizeOf child < sizeOf s := by
  cases s with
  | leaf => cases h
  | group id region children =>
    simp only [Statement.children] at h
    have := List.sizeOf_lt_of_mem h
    simp only [group.sizeOf_spec]
    omega
  | value id region name text body =>
    obtain rfl := List.mem_singleton.1 h
    simp only [value.sizeOf_spec]
    omega

/-- What holds of a statement when it holds of the nodes right below it holds of every statement. -/
@[elab_as_elim]
theorem fromChildren {motive : Statement → Prop} (node : ∀ s, (∀ child ∈ s.children, motive child) → motive s)
    (s : Statement) : motive s :=
  node s fun child _ => fromChildren node child
termination_by sizeOf s
decreasing_by exact sizeOf_lt_of_mem_children ‹_›

/-- The node at the end of a path: for each step down, the path has the place of a child. -/
def at? : List Nat → Statement → Option Statement
  | [], s => some s
  | i :: path, s => s.children[i]?.bind (at? path)

@[simp] theorem at?_nil (s : Statement) : at? [] s = some s := by
  rw [at?]

theorem at?_cons (i : Nat) (path : List Nat) (s : Statement) : at? (i :: path) s = s.children[i]?.bind (at? path) := by
  rw [at?]

theorem at?_cons_of_child {i : Nat} {s child : Statement} (h : s.children[i]? = some child) (path : List Nat) :
    at? (i :: path) s = at? path child := by
  rw [at?_cons, h, Option.bind_some]

/-- A path leads through the nodes at its fronts. -/
theorem at?_append (path more : List Nat) (s : Statement) : at? (path ++ more) s = (at? path s).bind (at? more) := by
  induction path generalizing s with
  | nil => rw [List.nil_append, at?_nil, Option.bind_some]
  | cons i path ih =>
    rw [List.cons_append, at?_cons, at?_cons]
    cases s.children[i]? with
    | none => rfl
    | some child => exact ih child

/-! ## The walk -/

mutual

/-- The paths to the nodes below a statement, in the order of a walk from the top and from left to right. -/
def paths : Statement → List (List Nat)
  | leaf .. => []
  | group _ _ children => pathsOfList 0 children
  | value _ _ _ _ body => [0] :: body.paths.map (0 :: ·)

/-- The paths to several children, counted from a number on, and to the nodes below them. -/
def pathsOfList (i : Nat) : List Statement → List (List Nat)
  | [] => []
  | s :: rest => [i] :: s.paths.map (i :: ·) ++ pathsOfList (i + 1) rest

end

theorem pathsOfList_eq (i : Nat) (statements : List Statement) :
    pathsOfList i statements = (statements.zipIdx i).flatMap fun (s, i) => [i] :: s.paths.map (i :: ·) := by
  induction statements generalizing i with
  | nil => rw [pathsOfList, List.zipIdx_nil, List.flatMap_nil]
  | cons s rest ih => rw [pathsOfList, ih, List.zipIdx_cons, List.flatMap_cons]

theorem paths_eq (s : Statement) : s.paths = s.children.zipIdx.flatMap fun (s, i) => [i] :: s.paths.map (i :: ·) := by
  rw [← pathsOfList_eq]
  cases s with
  | leaf => rw [paths, children, pathsOfList]
  | group => rw [paths, children]
  | value => rw [paths, children, pathsOfList, pathsOfList, List.append_nil]

/-- The paths lead to the nodes below a statement, and to all of them. -/
theorem mem_paths {s : Statement} {path : List Nat} : path ∈ s.paths ↔ path ≠ [] ∧ (at? path s).isSome := by
  induction s using fromChildren generalizing path with
  | node s ih =>
    rw [paths_eq, List.mem_flatMap]
    constructor
    · rintro ⟨⟨child, i⟩, hchild, hpath⟩
      have hi : s.children[i]? = some child := List.mem_zipIdx_iff_getElem?.1 hchild
      rcases List.mem_cons.1 hpath with rfl | hpath
      · exact ⟨List.cons_ne_nil _ _, by rw [at?_cons_of_child hi, at?_nil, Option.isSome_some]⟩
      · obtain ⟨more, hmore, rfl⟩ := List.mem_map.1 hpath
        rw [at?_cons_of_child hi]
        exact ⟨List.cons_ne_nil _ _, ((ih child (List.mem_of_getElem? hi)).1 hmore).2⟩
    · rintro ⟨hpath, hsome⟩
      obtain ⟨i, more, rfl⟩ := List.exists_cons_of_ne_nil hpath
      obtain ⟨v, hv⟩ := Option.isSome_iff_exists.1 hsome
      rw [at?_cons, Option.bind_eq_some_iff] at hv
      obtain ⟨child, hi, hv⟩ := hv
      refine ⟨(child, i), List.mem_zipIdx_iff_getElem?.2 hi, List.mem_cons.2 ?_⟩
      rcases more with - | ⟨j, more⟩
      · exact .inl rfl
      · exact .inr (List.mem_map_of_mem
          ((ih child (List.mem_of_getElem? hi)).2 ⟨List.cons_ne_nil _ _, by rw [hv, Option.isSome_some]⟩))

/-- The paths through a child start with the step to it. -/
theorem exists_eq_cons_of_mem {i : Nat} {paths : List (List Nat)} {path : List Nat} (h : path ∈ [i] :: paths.map (i :: ·)) :
    ∃ more, path = i :: more := by
  rcases List.mem_cons.1 h with rfl | h
  · exact ⟨[], rfl⟩
  · obtain ⟨more, _, rfl⟩ := List.mem_map.1 h
    exact ⟨more, rfl⟩

/-- **The paths are in lexicographic order**: each node once, before the nodes below it, and these before those on its
right. -/
theorem pairwise_paths (s : Statement) : s.paths.Pairwise (· < ·) := by
  induction s using fromChildren with
  | node s ih =>
    rw [paths_eq, List.pairwise_flatMap]
    constructor
    · rintro ⟨child, i⟩ hchild
      have hmem : child ∈ s.children := List.mem_of_getElem? (List.mem_zipIdx_iff_getElem?.1 hchild)
      rw [List.pairwise_cons]
      constructor
      · intro path hpath
        obtain ⟨more, hmore, rfl⟩ := List.mem_map.1 hpath
        obtain ⟨j, more, rfl⟩ := List.exists_cons_of_ne_nil (mem_paths.1 hmore).1
        exact .cons .nil
      · exact List.pairwise_map.2 ((ih child hmem).imp fun h => .cons h)
    -- the paths through two children differ at their first steps
    · rw [List.pairwise_iff_getElem]
      intro i j hi hj hij x hx y hy
      simp only [List.getElem_zipIdx, Nat.zero_add] at hx hy
      obtain ⟨_, rfl⟩ := exists_eq_cons_of_mem hx
      obtain ⟨_, rfl⟩ := exists_eq_cons_of_mem hy
      exact .rel hij

/-- A search from the top finds the nodes at the paths that pass its steps. Of each child it says whether to take it, and
whether to go on below it. -/
theorem map_some_of_search (find : Statement → List Statement) (takes enters : Statement → Statement → Bool)
    (passes : Statement → List Nat → Bool)
    (hfind : ∀ s, find s = s.children.flatMap fun child =>
      (if takes s child then [child] else []) ++ if enters s child then find child else [])
    (htakes : ∀ {s child i}, s.children[i]? = some child → passes s [i] = takes s child)
    (henters : ∀ {s child i path}, s.children[i]? = some child → path ≠ [] →
      passes s (i :: path) = (enters s child && passes child path)) (s : Statement) :
    (find s).map some = (s.paths.filter (passes s)).map (at? · s) := by
  induction s using fromChildren with
  | node s ih =>
    rw [hfind, paths_eq, List.map_flatMap, List.filter_flatMap, List.map_flatMap]
    conv_lhs => rw [← List.zipIdx_map_fst 0 s.children, List.flatMap_map]
    refine List.flatMap_congr ?_
    rintro ⟨child, i⟩ hchild
    have hi : s.children[i]? = some child := List.mem_zipIdx_iff_getElem?.1 hchild
    have htaken : ([[i]].filter (passes s)).map (at? · s) = (if takes s child then [child] else []).map some := by
      rw [List.filter_singleton, htakes hi]
      cases takes s child with
      | false => rfl
      | true => exact congrArg (fun found => [found]) ((at?_cons_of_child hi []).trans (at?_nil child))
    have hbelow : ((child.paths.map (i :: ·)).filter (passes s)).map (at? · s) =
        (if enters s child then find child else []).map some := by
      have hat : (at? · s) ∘ (i :: ·) = (at? · child) := funext (at?_cons_of_child hi)
      have hpasses : child.paths.filter (passes s ∘ (i :: ·)) =
          child.paths.filter fun path => enters s child && passes child path :=
        List.filter_congr fun path hpath => henters hi (mem_paths.1 hpath).1
      rw [List.filter_map, List.map_map, hat, hpasses]
      cases enters s child with
      | false => simp
      | true => simpa using (ih child (List.mem_of_getElem? hi)).symm
    rw [List.map_append, ← htaken, ← hbelow, ← List.map_append, ← List.filter_append, List.singleton_append]

end Graft.Statement
