import Graft.Pattern.Expression
import Graft.Text

/-!
# Steps of reading a pattern

The source of a pattern is read from left to right into an expression. Flags set inside a group hold up to its end. In the
spaced mode white space and comments between the parts of a pattern are skipped. A source that breaks a rule of the
syntax, or that asks for bytes outside the text encoding, is no pattern; which rule it breaks is not told.
-/

namespace Graft.Pattern.Reader

/-- The modes that flags switch. -/
structure Flags where
  ignoreCase : Bool := false
  multiLine : Bool := false
  dotAll : Bool := false
  swapGreed : Bool := false
  wide : Bool := true
  spaced : Bool := false
  broadLines : Bool := false
  deriving DecidableEq, Repr

/-- How far a reader has come: what is left of the source, the flags in force, the group names seen and the number of
groups seen. -/
structure Place where
  rest : List Char
  flags : Flags := {}
  names : List (List Char) := []
  groups : Nat := 0

/-- A step of reading. It fails where the source is no pattern. -/
abbrev Reading := StateT Place Option

/-- An expression and how deep its parts are nested. -/
structure Piece where
  expression : Expression
  nesting : Nat := 0

/-- The deepest nesting of parts that a pattern may have. -/
def maxNesting : Nat := 250

/-- The largest count that a repetition may name. -/
def maxRepetition : Nat := 0xFFFFFFFF

/-- What is left of the source. -/
def rest : Reading (List Char) := do
  return (← get).rest

/-- Go on at a later place of the source. -/
def goTo (rest : List Char) : Reading Unit :=
  modify fun place => { place with rest }

/-- The flags in force. -/
def flags : Reading Flags := do
  return (← get).flags

/-- Put other flags in force. -/
def setFlags (flags : Flags) : Reading Unit :=
  modify fun place => { place with flags }

/-- The source without the white space and the comments at its front. -/
def dropSpace (inComment : Bool) : List Char → List Char
  | [] => []
  | c :: rest =>
    if inComment then dropSpace (c != '\n') rest
    else if Text.isBlank c then dropSpace false rest
    else if c == '#' then dropSpace true rest
    else c :: rest

/-- Skip white space and comments, in the spaced mode. -/
def skipSpace : Reading Unit := do
  if (← flags).spaced then goTo (dropSpace false (← rest))

/-- Take one character. -/
def take : Reading Char := do
  match ← rest with
  | [] => failure
  | c :: rest =>
    goTo rest
    return c

/-- Take a character if it stands next. -/
def takeIf (wanted : Char) : Reading Bool := do
  match ← rest with
  | c :: rest =>
    if c = wanted then
      goTo rest
      return true
    else return false
  | [] => return false

/-- Take a character that has to stand next. -/
def expect (wanted : Char) : Reading Unit := do
  unless ← takeIf wanted do failure

end Graft.Pattern.Reader
