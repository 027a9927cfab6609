import Graft.Statement

/-!
# Derivations

Beside each statement stands how it was derived: by which rule, and in which region the text was looked at to derive it. The
region of interest may reach past the statement, and past the end of the text by one byte, which stands for the end.
-/

namespace Graft

/-- How a statement was derived. A group keeps for each child the edge it was read by, and which edge was chosen where only
one may be. -/
inductive Derivation where
  | leaf (rule : RuleId) (interest : Region)
  | group (rule : RuleId) (interest : Region) (children : List Derivation) (edges : List Nat) (chosen : Option Nat)
  | wrap (rule : RuleId) (interest : Region) (inner : Derivation)
  deriving Repr, Inhabited

namespace Derivation

/-- The rule that derived a statement. -/
def rule : Derivation → RuleId
  | leaf rule _ | group rule .. | wrap rule .. => rule

/-- Where the text was looked at. -/
def interest : Derivation → Region
  | leaf _ interest | group _ interest .. | wrap _ interest _ => interest

/-- A derivation that looked somewhere else. -/
def withInterest (interest : Region) : Derivation → Derivation
  | leaf rule _ => leaf rule interest
  | group rule _ children edges chosen => group rule interest children edges chosen
  | wrap rule _ inner => wrap rule interest inner

/-- The derivations of the statements right below. -/
def children : Derivation → List Derivation
  | leaf .. => []
  | group _ _ children .. => children
  | wrap _ _ inner => [inner]

/-- A derivation with other derivations right below it. A wrapping derivation has exactly one. -/
def withChildren (children : List Derivation) : Derivation → Derivation
  | leaf rule interest => leaf rule interest
  | group rule interest _ edges chosen => group rule interest children edges chosen
  | wrap rule interest inner => wrap rule interest (children.head?.getD inner)

/-- A derivation around another, which looked where that one did. -/
def around (rule : RuleId) (inner : Derivation) : Derivation :=
  wrap rule inner.interest inner

end Derivation

/-- What an attempt of a rule came to: what was read, if it succeeded, and how it was derived. -/
structure Attempt where
  statement : Option Statement
  derivation : Derivation
  deriving Repr, Inhabited

namespace Attempt

/-- An attempt that succeeded. -/
def success (statement : Statement) (derivation : Derivation) : Attempt :=
  ⟨some statement, derivation⟩

/-- An attempt that failed after looking at a region. -/
def failure (rule : RuleId) (interest : Region) : Attempt :=
  ⟨none, .leaf rule interest⟩

/-- Where an attempt looked. -/
def interest (a : Attempt) : Region :=
  a.derivation.interest

end Attempt

/-! ## Statements with their derivations -/

namespace Statement

mutual

/-- The nodes of `walk` in front of others. -/
def walkBefore : Statement → Derivation → List (Statement × Derivation) → List (Statement × Derivation)
  | leaf id region text, d, others => (.leaf id region text, d) :: others
  | group id region children, d, others => (.group id region children, d) :: walkListBefore children d.children others
  | value id region name text body, d, others =>
    (.value id region name text body, d) ::
      match d.children with
      | [] => others
      | inner :: _ => walkBefore body inner others

/-- The nodes of `walkList` in front of others. -/
def walkListBefore :
    List Statement → List Derivation → List (Statement × Derivation) → List (Statement × Derivation)
  | s :: statements, d :: derivations, others => walkBefore s d (walkListBefore statements derivations others)
  | _, _, others => others

end

/-- The nodes of a statement with their derivations, each before those below it. Children are paired in order; what one
side has more is left out. -/
def walk (s : Statement) (d : Derivation) : List (Statement × Derivation) :=
  walkBefore s d []

/-- The nodes of several statements with their derivations. -/
def walkList (statements : List Statement) (derivations : List Derivation) : List (Statement × Derivation) :=
  walkListBefore statements derivations []

mutual

theorem walkBefore_eq_append (s : Statement) (d : Derivation) (others : List (Statement × Derivation)) :
    walkBefore s d others = walk s d ++ others := by
  cases s with
  | leaf => simp [walk, walkBefore]
  | group id region children =>
    simp only [walk, walkBefore, List.cons_append]
    rw [walkListBefore_eq_append children, walkList]
  | value id region name text body =>
    simp only [walk, walkBefore, List.cons_append]
    split
    · rfl
    · rw [walkBefore_eq_append body, walk]

theorem walkListBefore_eq_append (statements : List Statement) (derivations : List Derivation)
    (others : List (Statement × Derivation)) :
    walkListBefore statements derivations others = walkList statements derivations ++ others := by
  match statements, derivations with
  | s :: statements, d :: derivations =>
    simp only [walkList, walkListBefore]
    rw [walkListBefore_eq_append statements, walkBefore_eq_append s, walkBefore_eq_append s, walkList, List.append_assoc]
  | [], _ => simp [walkList, walkListBefore]
  | _ :: _, [] => simp [walkList, walkListBefore]

end

theorem walk_leaf (id : NodeId) (region : Region) (text : String) (d : Derivation) :
    walk (leaf id region text) d = [(leaf id region text, d)] := by
  simp [walk, walkBefore]

theorem walk_group (id : NodeId) (region : Region) (children : List Statement) (d : Derivation) :
    walk (group id region children) d = (group id region children, d) :: walkList children d.children := by
  simp [walk, walkBefore, walkList]

theorem walk_value (id : NodeId) (region : Region) (name text : String) (body : Statement) (d : Derivation) :
    walk (value id region name text body) d =
      (value id region name text body, d) ::
        match d.children with
        | [] => []
        | inner :: _ => walk body inner := by
  simp only [walk, walkBefore]

theorem walkList_cons (s : Statement) (statements : List Statement) (d : Derivation) (derivations : List Derivation) :
    walkList (s :: statements) (d :: derivations) = walk s d ++ walkList statements derivations := by
  simp only [walkList, walkListBefore, walkBefore_eq_append]

mutual

/-- Move the regions of the nodes that `walk` visits, those of the statement and those of interest alike. -/
def mapRegions (f : Region → Region) : Statement → Derivation → Statement × Derivation
  | leaf id region text, d => (.leaf id (f region) text, d.withInterest (f d.interest))
  | group id region children, d =>
    let below := mapRegionsList f children d.children
    (.group id (f region) below.1, (d.withChildren below.2).withInterest (f d.interest))
  | value id region name text body, d =>
    match d.children with
    | [] => (.value id (f region) name text body, d.withInterest (f d.interest))
    | inner :: rest =>
      let below := mapRegions f body inner
      (.value id (f region) name text below.1, (d.withChildren (below.2 :: rest)).withInterest (f d.interest))

/-- Move the regions of several statements and their derivations. -/
def mapRegionsList (f : Region → Region) : List Statement → List Derivation → List Statement × List Derivation
  | s :: statements, d :: derivations =>
    let first := mapRegions f s d
    let others := mapRegionsList f statements derivations
    (first.1 :: others.1, first.2 :: others.2)
  | statements, derivations => (statements, derivations)

end

end Statement

end Graft
