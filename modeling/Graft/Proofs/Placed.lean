import Mathlib.Data.List.Basic
import Graft.Marking
import Graft.Proofs.Formed

/-!
# Trees at other places

Edits move all regions of a tree by one function of regions, which need not move them all by the same distance. The tree keeps
its shape: each node still has its derivation beside it, and the nodes that are visited are the nodes at their new places. A
subtree all of whose regions lie where the function moves by one distance is moved as a whole.
-/

namespace Graft

open Engine

namespace Statement

mutual

/-- A statement whose regions are moved by a function. -/
def placed (v : Region → Region) : Statement → Statement
  | leaf id region text => leaf id (v region) text
  | group id region children => group id (v region) (placedList v children)
  | value id region name text body => value id (v region) name text (body.placed v)

/-- Several statements whose regions are moved by a function. -/
def placedList (v : Region → Region) : List Statement → List Statement
  | [] => []
  | s :: rest => s.placed v :: placedList v rest

end

/-- Several statements are placed one by one. -/
theorem placedList_eq_map (v : Region → Region) (statements : List Statement) :
    placedList v statements = statements.map (placed v) := by
  induction statements with
  | nil => rfl
  | cons s rest ih => rw [placedList, ih, List.map_cons]

@[simp] theorem placed_leaf (v : Region → Region) (id : NodeId) (region : Region) (text : String) :
    (leaf id region text).placed v = leaf id (v region) text := by
  rw [placed]

@[simp] theorem placed_group (v : Region → Region) (id : NodeId) (region : Region) (children : List Statement) :
    (group id region children).placed v = group id (v region) (children.map (placed v)) := by
  rw [placed, placedList_eq_map]

@[simp] theorem placed_value (v : Region → Region) (id : NodeId) (region : Region) (name text : String)
    (body : Statement) : (value id region name text body).placed v = value id (v region) name text (body.placed v) := by
  rw [placed]

@[simp] theorem id_placed (v : Region → Region) (s : Statement) : (s.placed v).id = s.id := by
  cases s <;> simp [id]

@[simp] theorem region_placed (v : Region → Region) (s : Statement) : (s.placed v).region = v s.region := by
  cases s <;> simp [region]

@[simp] theorem name?_placed (v : Region → Region) (s : Statement) : (s.placed v).name? = s.name? := by
  cases s <;> simp [name?]

@[simp] theorem text_placed (v : Region → Region) (s : Statement) : (s.placed v).text = s.text := by
  cases s <;> simp [text]

@[simp] theorem children_placed (v : Region → Region) (s : Statement) :
    (s.placed v).children = s.children.map (placed v) := by
  cases s <;> simp [children]

mutual

/-- Placing twice is placing by both maps. -/
theorem placed_placed (v w : Region → Region) (s : Statement) : (s.placed v).placed w = s.placed (w ∘ v) := by
  cases s with
  | leaf id region text => simp
  | group id region children =>
    simp only [placed, Function.comp]
    exact congrArg _ (placedList_placedList v w children)
  | value id region name text body =>
    simp only [placed, Function.comp]
    exact congrArg _ (placed_placed v w body)

/-- Placing several statements twice is placing them by both maps. -/
theorem placedList_placedList (v w : Region → Region) (statements : List Statement) :
    placedList w (placedList v statements) = placedList (w ∘ v) statements := by
  cases statements with
  | nil => rfl
  | cons s rest => rw [placedList, placedList, placedList, placed_placed v w s, placedList_placedList v w rest]

end

mutual

/-- Placing every region where it is changes nothing. -/
theorem placed_id (s : Statement) : s.placed (fun r => r) = s := by
  cases s with
  | leaf id region text => simp
  | group id region children => rw [placed, placedList_id children]
  | value id region name text body => rw [placed, placed_id body]

/-- Placing the regions of several statements where they are changes nothing. -/
theorem placedList_id (statements : List Statement) : placedList (fun r => r) statements = statements := by
  cases statements with
  | nil => rfl
  | cons s rest => rw [placedList, placed_id s, placedList_id rest]

end

mutual

/-- The text of a statement stays with it. -/
theorem rawText_placed (v : Region → Region) (s : Statement) : (s.placed v).rawText = s.rawText := by
  cases s with
  | leaf id region text => rw [placed_leaf, rawText_leaf, rawText_leaf]
  | group id region children =>
    rw [placed, rawText_group, rawText_group]
    exact rawTextOfList_placed v children
  | value id region name text body =>
    rw [placed, rawText_value, rawText_value]
    exact rawText_placed v body

/-- Several statements have the same raw text wherever they are placed. -/
theorem rawTextOfList_placed (v : Region → Region) (statements : List Statement) :
    rawTextOfList (placedList v statements) = rawTextOfList statements := by
  cases statements with
  | nil => rw [placedList]
  | cons s rest => rw [placedList, rawTextOfList_cons, rawTextOfList_cons, rawText_placed v s, rawTextOfList_placed v rest]

end

end Statement

namespace Derivation

mutual

/-- A derivation whose regions of interest are moved by a function. -/
def placed (v : Region → Region) : Derivation → Derivation
  | leaf rule interest => leaf rule (v interest)
  | group rule interest children edges chosen => group rule (v interest) (placedList v children) edges chosen
  | wrap rule interest inner => wrap rule (v interest) (inner.placed v)

/-- Several derivations whose regions of interest are moved by a function. -/
def placedList (v : Region → Region) : List Derivation → List Derivation
  | [] => []
  | d :: rest => d.placed v :: placedList v rest

end

/-- Several derivations are placed one by one. -/
theorem placedList_eq_map (v : Region → Region) (derivations : List Derivation) :
    placedList v derivations = derivations.map (placed v) := by
  induction derivations with
  | nil => rfl
  | cons d rest ih => rw [placedList, ih, List.map_cons]

@[simp] theorem placed_leaf (v : Region → Region) (rule : RuleId) (interest : Region) :
    (leaf rule interest).placed v = leaf rule (v interest) := by
  rw [placed]

@[simp] theorem placed_group (v : Region → Region) (rule : RuleId) (interest : Region) (children : List Derivation)
    (edges : List Nat) (chosen : Option Nat) :
    (group rule interest children edges chosen).placed v =
      group rule (v interest) (children.map (placed v)) edges chosen := by
  rw [placed, placedList_eq_map]

@[simp] theorem placed_wrap (v : Region → Region) (rule : RuleId) (interest : Region) (inner : Derivation) :
    (wrap rule interest inner).placed v = wrap rule (v interest) (inner.placed v) := by
  rw [placed]

@[simp] theorem rule_placed (v : Region → Region) (d : Derivation) : (d.placed v).rule = d.rule := by
  cases d <;> simp [rule]

@[simp] theorem interest_placed (v : Region → Region) (d : Derivation) : (d.placed v).interest = v d.interest := by
  cases d <;> simp [interest]

@[simp] theorem children_placed (v : Region → Region) (d : Derivation) :
    (d.placed v).children = d.children.map (placed v) := by
  cases d <;> simp [children]

mutual

/-- Placing a derivation twice is placing it by both maps. -/
theorem placed_placed (v w : Region → Region) (d : Derivation) : (d.placed v).placed w = d.placed (w ∘ v) := by
  cases d with
  | leaf rule interest => simp
  | group rule interest children edges chosen =>
    simp only [placed, Function.comp]
    exact congrArg (fun cs => group rule _ cs edges chosen) (placedList_placedList v w children)
  | wrap rule interest inner =>
    simp only [placed, Function.comp]
    exact congrArg _ (placed_placed v w inner)

/-- Placing several derivations twice is placing them by both maps. -/
theorem placedList_placedList (v w : Region → Region) (derivations : List Derivation) :
    placedList w (placedList v derivations) = placedList (w ∘ v) derivations := by
  cases derivations with
  | nil => rfl
  | cons d rest => rw [placedList, placedList, placedList, placed_placed v w d, placedList_placedList v w rest]

end

mutual

/-- Placing every interest where it is changes nothing. -/
theorem placed_id (d : Derivation) : d.placed (fun r => r) = d := by
  cases d with
  | leaf rule interest => simp
  | group rule interest children edges chosen => rw [placed, placedList_id children]
  | wrap rule interest inner => rw [placed, placed_id inner]

/-- Placing the interests of several derivations where they are changes nothing. -/
theorem placedList_id (derivations : List Derivation) : placedList (fun r => r) derivations = derivations := by
  cases derivations with
  | nil => rfl
  | cons d rest => rw [placedList, placed_id d, placedList_id rest]

end

end Derivation

/-! ## Nodes with their derivations -/

/-- A statement whose nodes each have a derivation of their shape. -/
inductive Paired : Statement → Derivation → Prop where
  | leaf {id : NodeId} {region : Region} {text : String} {rule : RuleId} {interest : Region} :
      Paired (.leaf id region text) (.leaf rule interest)
  | group {id : NodeId} {region : Region} {rule : RuleId} {interest : Region} {chosen : Option Nat}
      (children : List Taken) : (∀ child ∈ children, Paired child.statement child.derivation) →
      Paired (.group id region (children.map (·.statement)))
        (.group rule interest (children.map (·.derivation)) (children.map (·.edge)) chosen)
  | value {id : NodeId} {region : Region} {name text : String} {rule : RuleId} {interest : Region} {body : Statement}
      {inner : Derivation} : Paired body inner → Paired (.value id region name text body) (.wrap rule interest inner)
  | call {id : NodeId} {region : Region} {rule : RuleId} {interest : Region} {body : Statement} {inner : Derivation} :
      Paired body inner → Paired (.group id region [body]) (.wrap rule interest inner)

/-- The nodes of a statement that is formed as its derivation says have derivations of their shape. -/
theorem Formed.paired {s : Statement} {d : Derivation} (h : Formed s d) : Paired s d := by
  induction h with
  | leaf _ _ => exact .leaf
  | group children _ _ _ ih => exact .group children ih
  | value _ ih => exact .value ih
  | call _ ih => exact .call ih

/-- A node has the shape of its derivation under whatever name it is shown. -/
theorem Paired.shown {s : Statement} {d : Derivation} (h : Paired s d) (name : Option String) :
    Paired (Reading.shown name s) d := by
  cases name with
  | none => exact h
  | some name =>
    cases h with
    | leaf => exact .leaf
    | group children hf => exact .group children hf
    | value hf => exact .value hf
    | call hf => exact .call hf

@[simp] theorem Reading.shown_placed (v : Region → Region) (name : Option String) (s : Statement) :
    (shown name s).placed v = shown name (s.placed v) := by
  cases name with
  | none => rfl
  | some name => cases s <;> simp [shown, Statement.renamed]

/-- A child whose regions are moved by a function. -/
def Engine.Taken.placed (v : Region → Region) (child : Taken) : Taken :=
  ⟨child.edge, child.statement.placed v, child.derivation.placed v⟩

namespace Statement

/-- The nodes of several children are those of each of them, one after the other. -/
theorem walkList_map (children : List Taken) :
    walkList (children.map (·.statement)) (children.map (·.derivation)) =
      children.flatMap fun child => child.statement.walk child.derivation := by
  induction children with
  | nil => rfl
  | cons child rest ih => rw [List.map_cons, List.map_cons, walkList_cons, ih, List.flatMap_cons]

/-- The nodes of a call are the call itself and those of what it called. -/
theorem walk_call (id : NodeId) (region : Region) (rule : RuleId) (interest : Region) (body : Statement)
    (inner : Derivation) :
    (group id region [body]).walk (.wrap rule interest inner) =
      (group id region [body], .wrap rule interest inner) :: body.walk inner := by
  have h := walkList_map [⟨0, body, inner⟩]
  rw [List.map_singleton, List.map_singleton, List.flatMap_singleton] at h
  rw [walk_group, Derivation.children, h]

end Statement

/-- The nodes of a tree that is shown under another name are its nodes, but for the root. -/
theorem Statement.mem_walk_shown {name : Option String} {s : Statement} {d : Derivation} {node : Statement × Derivation}
    (h : node ∈ (Reading.shown name s).walk d) : node = (Reading.shown name s, d) ∨ node ∈ s.walk d := by
  cases name with
  | none => exact Or.inr h
  | some name =>
    cases s with
    | leaf => exact Or.inr h
    | group => exact Or.inr h
    | value id region own text body =>
      simp only [Reading.shown, renamed, walk_value, List.mem_cons] at h ⊢
      exact h.imp (fun h => h) Or.inr

namespace Paired

variable {s : Statement} {d : Derivation} {v : Region → Region}

/-- A pair stays one wherever its parts are placed. -/
theorem placed (h : Paired s d) (v : Region → Region) : Paired (s.placed v) (d.placed v) := by
  induction h with
  | leaf => simpa using Paired.leaf
  | @group id region rule interest chosen children _ ih =>
    have h1 := @Paired.group id (v region) rule (v interest) chosen (children.map (Taken.placed v))
      (by simpa [Taken.placed] using ih)
    simpa [Taken.placed, Function.comp_def] using h1
  | value _ ih => simpa using Paired.value ih
  | call _ ih => simpa using Paired.call ih

/-- Moving all regions moves those of the statement and those of interest. -/
theorem mapRegions_eq (h : Paired s d) (v : Region → Region) : s.mapRegions v d = (s.placed v, d.placed v) := by
  induction h with
  | leaf => simp [Statement.mapRegions, Derivation.withInterest, Derivation.interest]
  | @group id region rule interest chosen children _ ih =>
    have hlist : ∀ rest : List Taken, (∀ child ∈ rest, child ∈ children) →
        Statement.mapRegionsList v (rest.map (·.statement)) (rest.map (·.derivation)) =
          ((rest.map (·.statement)).map (Statement.placed v), (rest.map (·.derivation)).map (Derivation.placed v)) := by
      intro rest hrest
      induction rest with
      | nil => simp [Statement.mapRegionsList]
      | cons child rest ih2 =>
        simp only [List.map_cons, Statement.mapRegionsList]
        rw [ih child (hrest child (List.mem_cons_self ..)), ih2 fun c hm => hrest c (List.mem_cons_of_mem _ hm)]
    simp only [Statement.mapRegions, Derivation.children, hlist children fun _ hm => hm, Derivation.withChildren,
      Derivation.withInterest, Derivation.interest, Statement.placed_group, Derivation.placed_group]
  | value _ ih =>
    simp [Statement.mapRegions, Derivation.children, ih, Derivation.withChildren, Derivation.withInterest,
      Derivation.interest]
  | call _ ih =>
    simp [Statement.mapRegions, Statement.mapRegionsList, Derivation.children, ih, Derivation.withChildren,
      Derivation.withInterest, Derivation.interest]

/-- The nodes of a tree at other places are its nodes at those places. -/
theorem walk_placed (h : Paired s d) (v : Region → Region) :
    (s.placed v).walk (d.placed v) = (s.walk d).map fun node => (node.1.placed v, node.2.placed v) := by
  induction h with
  | leaf => simp [Statement.walk_leaf]
  | @group id region rule interest chosen children _ ih =>
    have hlist := Statement.walkList_map (children.map (Taken.placed v))
    simp only [List.map_map, Function.comp_def, Taken.placed] at hlist
    rw [Statement.placed_group, Derivation.placed_group, Statement.walk_group, Statement.walk_group, Derivation.children,
      Derivation.children, List.map_cons, Statement.placed_group, Derivation.placed_group, Statement.walkList_map,
      List.map_map, List.map_map]
    simp only [Function.comp_def, hlist, List.map_flatMap, List.flatMap_map]
    exact congrArg _ (List.flatMap_congr ih)
  | value _ ih =>
    simp only [Statement.placed_value, Derivation.placed_wrap, Statement.walk_value, Derivation.children, ih,
      List.map_cons]
  | call _ ih =>
    simp only [Statement.placed_group, Derivation.placed_wrap, List.map_cons, List.map_nil, Statement.walk_call, ih]

/-- The nodes below a node of a tree are nodes of the tree. -/
theorem mem_walk_trans (h : Paired s d) {node other : Statement × Derivation} (hm : node ∈ s.walk d)
    (ho : other ∈ node.1.walk node.2) : other ∈ s.walk d := by
  induction h with
  | leaf =>
    obtain rfl := List.mem_singleton.1 (Statement.walk_leaf _ _ _ _ ▸ hm)
    exact ho
  | group children _ ih =>
    rw [Statement.walk_group, Derivation.children, Statement.walkList_map] at hm ⊢
    rcases List.mem_cons.1 hm with rfl | hm
    · rw [Statement.walk_group, Derivation.children, Statement.walkList_map] at ho
      exact ho
    · obtain ⟨child, hc, hm⟩ := List.mem_flatMap.1 hm
      exact List.mem_cons_of_mem _ (List.mem_flatMap.2 ⟨child, hc, ih child hc hm⟩)
  | value _ ih =>
    rw [Statement.walk_value, Derivation.children] at hm ⊢
    rcases List.mem_cons.1 hm with rfl | hm
    · rw [Statement.walk_value, Derivation.children] at ho
      exact ho
    · exact List.mem_cons_of_mem _ (ih hm)
  | call _ ih =>
    rw [Statement.walk_call] at hm ⊢
    rcases List.mem_cons.1 hm with rfl | hm
    · rw [Statement.walk_call] at ho
      exact ho
    · exact List.mem_cons_of_mem _ (ih hm)

/-- A tree each of whose nodes is moved by one distance is moved as a whole. -/
theorem recast_placed {o p : Nat} (h : Paired s d) (hv : ∀ node ∈ s.walk d,
      (v node.1.region).movedBy o = node.1.region.movedBy p ∧ (v node.2.interest).movedBy o = node.2.interest.movedBy p) :
    (s.placed v).recast (.moved o) = s.recast (.moved p) ∧ (d.placed v).recast (.moved o) = d.recast (.moved p) := by
  induction h with
  | leaf =>
    rw [Statement.walk_leaf] at hv
    obtain ⟨h1, h2⟩ := hv _ (List.mem_cons_self ..)
    simp only [Statement.region, Derivation.interest] at h1 h2
    simp [Recasting.moved, h1, h2]
  | @group id region rule interest chosen children _ ih =>
    rw [Statement.walk_group, Derivation.children, Statement.walkList_map] at hv
    obtain ⟨h1, h2⟩ := hv _ (List.mem_cons_self ..)
    have hchild : ∀ child ∈ children,
        (child.statement.placed v).recast (.moved o) = child.statement.recast (.moved p) ∧
          (child.derivation.placed v).recast (.moved o) = child.derivation.recast (.moved p) :=
      fun child hc => ih child hc fun node hm => hv node (List.mem_cons_of_mem _ (List.mem_flatMap.2 ⟨child, hc, hm⟩))
    have hstatements : ((children.map (·.statement)).map (Statement.placed v)).map (Statement.recast (.moved o)) =
        (children.map (·.statement)).map (Statement.recast (.moved p)) := by
      simp only [List.map_map]
      exact List.map_congr_left fun child hc => (hchild child hc).1
    have hderivations : ((children.map (·.derivation)).map (Derivation.placed v)).map (Derivation.recast (.moved o)) =
        (children.map (·.derivation)).map (Derivation.recast (.moved p)) := by
      simp only [List.map_map]
      exact List.map_congr_left fun child hc => (hchild child hc).2
    constructor
    · rw [Statement.placed_group, Statement.recast_group, Statement.recast_group, hstatements]
      exact congrArg (fun r => Statement.group id r _) h1
    · rw [Derivation.placed_group, Derivation.recast_group, Derivation.recast_group, hderivations]
      exact congrArg (fun r => Derivation.group rule r _ _ chosen) h2
  | @value id region name text rule interest body inner _ ih =>
    rw [Statement.walk_value, Derivation.children] at hv
    obtain ⟨h1, h2⟩ := hv _ (List.mem_cons_self ..)
    obtain ⟨h3, h4⟩ := ih fun node hm => hv node (List.mem_cons_of_mem _ hm)
    constructor
    · rw [Statement.placed_value, Statement.recast_value, Statement.recast_value, h3]
      exact congrArg (fun r => Statement.value id r name text _) h1
    · rw [Derivation.placed_wrap, Derivation.recast_wrap, Derivation.recast_wrap, h4]
      exact congrArg (fun r => Derivation.wrap rule r _) h2
  | @call id region rule interest body inner _ ih =>
    rw [Statement.walk_call] at hv
    obtain ⟨h1, h2⟩ := hv _ (List.mem_cons_self ..)
    obtain ⟨h3, h4⟩ := ih fun node hm => hv node (List.mem_cons_of_mem _ hm)
    constructor
    · rw [Statement.placed_group, Statement.recast_group, Statement.recast_group, List.map_singleton, List.map_singleton,
        List.map_singleton, h3]
      exact congrArg (fun r => Statement.group id r _) h1
    · rw [Derivation.placed_wrap, Derivation.recast_wrap, Derivation.recast_wrap, h4]
      exact congrArg (fun r => Derivation.wrap rule r _) h2

end Paired

/-! ## Nodes of well-formed trees -/

namespace Formed

variable {s : Statement} {d : Derivation}

/-- Every node of a well-formed tree is the root of one, and lies inside the tree. -/
theorem of_mem_walk (h : Formed s d) {node : Statement × Derivation} (hm : node ∈ s.walk d) :
    Formed node.1 node.2 ∧ s.region.offset ≤ node.1.region.offset ∧ node.1.region.stop ≤ s.region.stop ∧
      node.2.interest.stop ≤ d.interest.stop := by
  induction h with
  | leaf hs hn =>
    rw [Statement.walk_leaf, List.mem_singleton] at hm
    subst hm
    exact ⟨.leaf hs hn, Nat.le_refl _, Nat.le_refl _, Nat.le_refl _⟩
  | group children hs hf hi ih =>
    rw [Statement.walk_group, Derivation.children, Statement.walkList_map] at hm
    rcases List.mem_cons.1 hm with rfl | hm
    · exact ⟨.group children hs hf hi, Nat.le_refl _, Nat.le_refl _, Nat.le_refl _⟩
    · obtain ⟨child, hc, hm⟩ := List.mem_flatMap.1 hm
      obtain ⟨h1, h2, h3, h4⟩ := ih child hc hm
      obtain ⟨h5, h6, h7⟩ := hi child hc
      exact ⟨h1, Nat.le_trans h5 h2, Nat.le_trans h3 h6, Nat.le_trans h4 h7⟩
  | value hf ih =>
    rw [Statement.walk_value, Derivation.children] at hm
    rcases List.mem_cons.1 hm with rfl | hm
    · exact ⟨.value hf, Nat.le_refl _, Nat.le_refl _, Nat.le_refl _⟩
    · exact ih hm
  | call hf ih =>
    rw [Statement.walk_call] at hm
    rcases List.mem_cons.1 hm with rfl | hm
    · exact ⟨.call hf, Nat.le_refl _, Nat.le_refl _, Nat.le_refl _⟩
    · exact ih hm

end Formed

/-- A region inside an interest. It does not start where the interest ends, unless that is empty. -/
structure Region.Inside (r interest : Region) : Prop where
  offset : interest.offset ≤ r.offset
  stop : r.stop ≤ interest.stop
  seen : interest.length = 0 ∨ r.offset < interest.stop

/-- A region is inside itself. -/
theorem Region.Inside.self (r : Region) : r.Inside r :=
  ⟨Nat.le_refl _, Nat.le_refl _, by simp only [Region.stop]; omega⟩

/-- A function moves every region inside an interest by the distance from where that starts to `p`. -/
def Region.MovesTo (v : Region → Region) (interest : Region) (p : Nat) : Prop :=
  ∀ r : Region, r.Inside interest → (v r).movedBy interest.offset = r.movedBy p

namespace Formed

variable {s : Statement} {d : Derivation} {v : Region → Region} {interest : Region} {p : Nat}

/-- A node inside a region that is moved as a whole is moved with it, and so is where its rule looked. -/
theorem moved (hv : Region.MovesTo v interest p) {region other : Region} (hs : region.Sits other)
    (hin : other.Inside interest) :
    (v region).movedBy interest.offset = region.movedBy p ∧ (v other).movedBy interest.offset = other.movedBy p := by
  have h1 := hs.offset
  have h2 := hs.stop
  have h3 := hin.offset
  have h4 := hin.stop
  have h5 := hin.seen
  exact ⟨hv region ⟨by omega, by omega, by omega⟩, hv other hin⟩

/-- The children of a node inside a region lie in it, too. -/
theorem inside_child {region other : Region} {child : Taken} (hs : region.Sits other) (hin : other.Inside interest)
    (hf : Formed child.statement child.derivation)
    (hi : region.offset ≤ child.statement.region.offset ∧ child.statement.region.stop ≤ region.stop ∧
      child.derivation.interest.stop ≤ other.stop) : child.derivation.interest.Inside interest := by
  obtain ⟨h3, h4, h5⟩ := hi
  have h6 := hf.sits.offset
  have h7 := hs.offset
  have h8 := hs.seen
  have h9 := hin.offset
  have h10 := hin.stop
  have h11 := hin.seen
  refine ⟨by omega, by omega, ?_⟩
  simp only [Region.stop] at *
  omega

/-- A subtree inside a region that is moved as a whole is moved as a whole. -/
theorem recast_placed (h : Formed s d) (hv : Region.MovesTo v interest p) (hd : d.interest.Inside interest) :
    (s.placed v).recast (.moved interest.offset) = s.recast (.moved p) ∧
      (d.placed v).recast (.moved interest.offset) = d.recast (.moved p) := by
  refine h.paired.recast_placed fun node hm => ?_
  obtain ⟨hformed, h1, h2, h3⟩ := h.of_mem_walk hm
  have h4 := h.sits.offset
  have h5 := h.sits.seen
  have h6 := hformed.sits.offset
  have h7 := hd.offset
  have h8 := hd.stop
  have h9 := hd.seen
  refine moved hv hformed.sits ⟨by omega, by omega, ?_⟩
  simp only [Region.stop] at *
  omega

/-- A subtree inside a region that is moved as a whole stays well-formed. -/
theorem placed (h : Formed s d) (hv : Region.MovesTo v interest p) (hd : d.interest.Inside interest) :
    Formed (s.placed v) (d.placed v) := by
  have hsits : ∀ {region other : Region}, region.Sits other → other.Inside interest → (v region).Sits (v other) := by
    intro region other hs hin
    obtain ⟨h1, h2⟩ := moved hv hs hin
    simp only [Region.movedBy, Region.mk.injEq] at h1 h2
    have h3 := hs.offset
    have h4 := hs.stop
    have h5 := hs.seen
    simp only [Region.stop] at h4 h5
    refine ⟨by omega, ?_, ?_⟩
    · simp only [Region.stop]
      omega
    · simp only [Region.stop]
      omega
  induction h with
  | @leaf id region text rule other hs hn =>
    obtain ⟨_, h2⟩ := moved hv hs hd
    simp only [Region.movedBy, Region.mk.injEq] at h2
    rw [Statement.placed_leaf, Derivation.placed_leaf]
    exact .leaf (hsits hs hd) (by omega)
  | @group id region rule other chosen children hs hf hi ih =>
    have h1 := @Formed.group id _ rule _ chosen (children.map (Taken.placed v)) (hsits hs hd)
      (by
        intro child hm
        obtain ⟨origin, hc, rfl⟩ := List.mem_map.1 hm
        exact ih origin hc (inside_child hs hd (hf origin hc) (hi origin hc)))
      (by
        intro child hm
        obtain ⟨origin, hc, rfl⟩ := List.mem_map.1 hm
        obtain ⟨h1, h2⟩ := moved hv hs hd
        obtain ⟨h3, h4⟩ := moved hv (hf origin hc).sits (inside_child hs hd (hf origin hc) (hi origin hc))
        obtain ⟨h5, h6, h7⟩ := hi origin hc
        simp only [Region.movedBy, Region.mk.injEq] at h1 h2 h3 h4
        simp only [Taken.placed, Statement.region_placed, Derivation.interest_placed, Region.stop] at h5 h6 h7 ⊢
        omega)
    simpa [Taken.placed, Function.comp_def] using h1
  | value _ ih => simpa using Formed.value (ih hd)
  | call _ ih => simpa using Formed.call (ih hd)

end Formed

end Graft
