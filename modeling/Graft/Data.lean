import Graft.Text

/-!
# Data

The form in which values are saved and exchanged: numbers, texts, lists and objects. Only natural numbers are ever written;
any other number can be read, and is no part of any value.
-/

namespace Graft

/-- A saved value. -/
inductive Data where
  | null
  | bool (b : Bool)
  | natural (n : Nat)
  | otherNumber
  | text (s : String)
  | list (items : List Data)
  | object (fields : List (String × Data))
  deriving Inhabited

namespace Data

/-- A field of an object. -/
def field? (name : String) (fields : List (String × Data)) : Option Data :=
  List.lookup name fields

/-- A natural number up to a largest one. -/
def toNatural? (largest : Nat) : Data → Option Nat
  | natural n => if n ≤ largest then some n else none
  | _ => none

/-- A size. -/
def toSize? : Data → Option Nat :=
  toNatural? largestSize

/-- A text. -/
def toText? : Data → Option String
  | text s => some s
  | _ => none

/-- The parts of a record with the fields named, in that order. A list of as many items stands for them too; fields that
are not named are passed over. -/
def parts? (names : List String) : Data → Option (List Data)
  | object fields => names.mapM (field? · fields)
  | list items => if items.length = names.length then some items else none
  | _ => none

end Data

end Graft
