import Graft.Data.Record
import Graft.Statement

/-!
# Statements as data

A statement is saved as a record of its identity, its region and a choice between the three kinds of statement.
-/

namespace Graft.Statement

/-- A statement as data, given what is particular to its kind. -/
def encodeAs (id : NodeId) (region : Region) (tag : String) (content : Data) : Data :=
  .object [("id", .natural id.index), ("region", region.encode), ("kind", .object [(tag, content)])]

mutual

/-- A statement as data. -/
def encode : Statement → Data
  | leaf id region text => encodeAs id region "Consumed" (.text text)
  | group id region children => encodeAs id region "Collection" (.list (encodeList children))
  | value id region name text body =>
    encodeAs id region "Value" (.object [("name", .text name), ("value", .text text), ("sub", body.encode)])

/-- Several statements as data. -/
def encodeList : List Statement → List Data
  | [] => []
  | s :: rest => s.encode :: encodeList rest

end

/-- How deep some data is nested. -/
def height : Data → Nat
  | .list items => heightOfList items + 1
  | .object fields => heightOfFields fields + 1
  | _ => 0
where
  /-- How deep several data are nested. -/
  heightOfList : List Data → Nat
    | [] => 0
    | item :: rest => max (height item) (heightOfList rest)
  /-- How deep the fields of an object are nested. -/
  heightOfFields : List (String × Data) → Nat
    | [] => 0
    | (_, item) :: rest => max (height item) (heightOfFields rest)

/-- The statement that some data stands for, when it is nested at most so deep. -/
def decodeWithin? : Nat → Data → Option Statement
  | 0, _ => none
  | fuel + 1, d => do
    let [id, region, kind] ← d.parts? ["id", "region", "kind"] | none
    let id : NodeId := ⟨← id.toSize?⟩
    let region ← Region.decode? region
    match kind with
    | .object [(tag, content)] =>
      if tag = "Consumed" then return leaf id region (← content.toText?)
      else if tag = "Collection" then
        match content with
        | .list items => return group id region (← items.mapM (decodeWithin? fuel))
        | _ => none
      else if tag = "Value" then
        let .object _ := content | none
        let [name, text, body] ← content.parts? ["name", "value", "sub"] | none
        return value id region (← name.toText?) (← text.toText?) (← decodeWithin? fuel body)
      else none
    | _ => none

/-- The statement that some data stands for. -/
def decode? (d : Data) : Option Statement :=
  decodeWithin? (height d + 1) d

end Graft.Statement
