import Graft.Statement
import Graft.Text.Quoted

/-!
# Scopes

The scopes of a statement are the values nearest below it: those that no other value stands above. Groups are looked
through. The queries go from scope to scope, except for the search by name, which goes through every statement and stops
below a value that it finds.
-/

namespace Graft.Statement

mutual

/-- The scopes of a statement, in order. -/
def scopes : Statement → List Statement
  | leaf .. => []
  | group _ _ children => scopesOfList children
  | value _ _ _ _ body => body.scopes

/-- The scopes that several children contribute: a value stands for itself, a group for its scopes. -/
def scopesOfList : List Statement → List Statement
  | [] => []
  | leaf .. :: rest => scopesOfList rest
  | group _ _ children :: rest => scopesOfList children ++ scopesOfList rest
  | value id region name text body :: rest => value id region name text body :: scopesOfList rest

end

mutual

theorem sizeOf_lt_of_mem_scopes {s v : Statement} (h : v ∈ s.scopes) : sizeOf v < sizeOf s := by
  cases s with
  | leaf => simp [scopes] at h
  | group id region children =>
    simp only [scopes] at h
    have := sizeOf_lt_of_mem_scopesOfList h
    simp only [group.sizeOf_spec]
    omega
  | value id region name text body =>
    simp only [scopes] at h
    have := sizeOf_lt_of_mem_scopes h
    simp only [value.sizeOf_spec]
    omega

theorem sizeOf_lt_of_mem_scopesOfList {l : List Statement} {v : Statement} (h : v ∈ scopesOfList l) :
    sizeOf v < sizeOf l := by
  cases l with
  | nil => simp [scopesOfList] at h
  | cons s rest =>
    cases s with
    | leaf =>
      simp only [scopesOfList] at h
      have := sizeOf_lt_of_mem_scopesOfList h
      simp only [List.cons.sizeOf_spec]
      omega
    | group id region children =>
      simp only [scopesOfList, List.mem_append] at h
      simp only [List.cons.sizeOf_spec, group.sizeOf_spec]
      rcases h with h | h
      · have := sizeOf_lt_of_mem_scopesOfList h
        omega
      · have := sizeOf_lt_of_mem_scopesOfList h
        omega
    | value id region name text body =>
      simp only [scopesOfList, List.mem_cons] at h
      simp only [List.cons.sizeOf_spec]
      rcases h with rfl | h
      · omega
      · have := sizeOf_lt_of_mem_scopesOfList h
        omega

end

/-- The scopes with a name. -/
def scopesNamed (s : Statement) (name : String) : List Statement :=
  s.scopes.filter fun v => v.name? == some name

/-- The first scope with a name. -/
def firstScope? (s : Statement) (name : String) : Option Statement :=
  s.scopes.find? fun v => v.name? == some name

/-- The text of the first scope with a name. -/
def firstText? (s : Statement) (name : String) : Option String :=
  (s.firstScope? name).map text

/-- Whether some scope has a name. -/
def hasScope (s : Statement) (name : String) : Bool :=
  (s.firstScope? name).isSome

/-- The names of the scopes, each once, in the order of their first scopes. -/
def scopeNames (s : Statement) : List String :=
  (s.scopes.filterMap name?).foldl (fun names name => if names.contains name then names else names ++ [name]) []

/-- The scopes, each followed by its own scopes and theirs. -/
def tokens (s : Statement) : List Statement :=
  s.scopes.attach.flatMap fun ⟨v, _⟩ => v :: v.tokens
termination_by sizeOf s
decreasing_by exact sizeOf_lt_of_mem_scopes ‹_›

/-- The deepest scope that an offset lies in, going from each scope to the first of its own that holds the offset. -/
def scopeAt? (s : Statement) (offset : Nat) : Option Statement :=
  match s.scopes.attach.find? fun v => v.1.region.holds offset with
  | none => none
  | some ⟨v, _⟩ => some ((v.scopeAt? offset).getD v)
termination_by sizeOf s
decreasing_by exact sizeOf_lt_of_mem_scopes ‹_›

/-- Whether two statements have the same name and text, and scopes that do so pair by pair. -/
def contentsEqual (s t : Statement) : Bool :=
  s.name? == t.name? && s.text == t.text && s.scopes.length == t.scopes.length &&
    (s.scopes.attach.zip t.scopes).all fun ⟨⟨v, _⟩, w⟩ => v.contentsEqual w
termination_by sizeOf s
decreasing_by exact sizeOf_lt_of_mem_scopes ‹_›

mutual

/-- The values with a name at or below a statement, without those below another one of them. -/
def valuesNamed (name : String) : Statement → List Statement
  | leaf .. => []
  | group _ _ children => valuesNamedOfList name children
  | value id region own text body =>
    if own = name then [value id region own text body] else body.valuesNamed name

/-- The values with a name at or below several statements. -/
def valuesNamedOfList (name : String) : List Statement → List Statement
  | [] => []
  | s :: rest => s.valuesNamed name ++ valuesNamedOfList name rest

end

/-- The values with a name below a statement, without those below another one of them. -/
def collect (s : Statement) (name : String) : List Statement :=
  valuesNamedOfList name s.children

/-! ## Showing statements -/

/-- The scopes below a statement, one line each, every scope indented below the one that holds it. -/
def outline (s : Statement) (indent : Nat) : String :=
  String.join (s.scopes.attach.map fun ⟨v, _⟩ =>
    "".pushn ' ' (2 * indent) ++ v.name?.getD "" ++ " " ++ v.region.text ++ " " ++ Text.Quoted.encode v.text ++ "\n" ++
      v.outline (indent + 1))
termination_by sizeOf s
decreasing_by exact sizeOf_lt_of_mem_scopes ‹_›

/-- The scopes below a statement as an indented list. -/
def pretty (s : Statement) : String :=
  s.outline 0

/-- A statement on one line. -/
def display : Statement → String
  | value _ region name text _ => name ++ region.text ++ "=" ++ Text.Quoted.encode text
  | s => s.region.text ++ Text.Quoted.encode s.rawText

end Graft.Statement
