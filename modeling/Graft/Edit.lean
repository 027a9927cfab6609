import Graft.Text
import Graft.Text.Quoted

/-!
# Edits

An edit replaces some bytes of a document by a text. It fits a document when it stays inside it and cuts it only between
characters; several edits are made one after the other, each on the document the ones before it left.
-/

namespace Graft

/-- Some bytes of a document and the text that takes their place. -/
structure Edit where
  offset : Nat
  length : Nat
  text : String
  deriving DecidableEq, Repr, Inhabited

namespace Edit

/-- Why an edit does not fit a document. -/
inductive Misfit where
  | overflow
  | outside (size : Nat)
  | insideCharacter
  deriving DecidableEq, Repr

/-- The offset right after the bytes that are replaced. -/
def stop (edit : Edit) : Nat :=
  edit.offset + edit.length

/-- Whether an edit changes nothing. -/
def isNoop (edit : Edit) : Bool :=
  edit.length == 0 && edit.text.isEmpty

/-- Why an edit does not fit a document, if it does not. -/
def misfit? (edit : Edit) (document : String) : Option Misfit :=
  if largestSize < edit.stop then some .overflow
  else if Text.size document < edit.stop then some (.outside (Text.size document))
  else if Text.isBoundary document edit.offset && Text.isBoundary document edit.stop then none
  else some .insideCharacter

/-- The document after an edit that fits it. -/
def apply (edit : Edit) (document : String) : Except Misfit String :=
  match edit.misfit? document with
  | some misfit => .error misfit
  | none =>
    match Text.splice? document edit.offset edit.stop edit.text with
    | some edited => .ok edited
    | none => .error .insideCharacter

/-- An edit as it stands in messages. -/
def display (edit : Edit) : String :=
  s!"({edit.offset}, {edit.length}, {Text.Quoted.encode edit.text})"

end Edit

end Graft
