import Graft.Data
import Graft.Occurrence

/-!
# Occurrences as data

An occurrence is saved as a choice: a tag and what belongs to it. `Any` has nothing that belongs to it and may be written
as a text.
-/

namespace Graft.Occurrence

mutual

/-- An occurrence as data. -/
def encode : Occurrence → Data
  | exactly n => .object [("Exact", .natural n)]
  | atLeast n => .object [("AtLeast", .natural n)]
  | atMost n => .object [("AtMost", .natural n)]
  | between least most => .object [("Range", .list [.natural least, .natural most])]
  | any => .text "Any"
  | oneOf choices => .object [("Alternatives", .list (encodeList choices))]

/-- Several occurrences as data. -/
def encodeList : List Occurrence → List Data
  | [] => []
  | choice :: rest => choice.encode :: encodeList rest

end

/-- The bounds that a list of two sizes stands for. -/
def bounds? : List Data → Option Occurrence
  | [least, most] => do return between (← least.toSize?) (← most.toSize?)
  | _ => none

/-- The occurrence without further parts that a tag and its content stand for. -/
def simple? (tag : String) (content : Data) : Option Occurrence :=
  if tag = "Exact" then content.toSize?.map exactly
  else if tag = "AtLeast" then content.toSize?.map atLeast
  else if tag = "AtMost" then content.toSize?.map atMost
  else if tag = "Any" then
    match content with
    | .null => some any
    | _ => none
  else if tag = "Range" then
    match content with
    | .list items => bounds? items
    | _ => none
  else none

mutual

/-- The occurrence that some data stands for. -/
def decode? : Data → Option Occurrence
  | .text tag => if tag = "Any" then some any else none
  | .object [(tag, .list items)] =>
    if tag = "Alternatives" then (decodeList? items).map oneOf else simple? tag (.list items)
  | .object [(tag, content)] => simple? tag content
  | _ => none

/-- The occurrences that several data stand for. -/
def decodeList? : List Data → Option (List Occurrence)
  | [] => some []
  | item :: rest =>
    match decode? item, decodeList? rest with
    | some choice, some choices => some (choice :: choices)
    | _, _ => none

end

end Graft.Occurrence
