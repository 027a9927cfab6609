import Graft.Pattern.Reader.Bracket

/-!
# Reading patterns

A pattern is a choice between branches, a branch a sequence of parts, and a part a character, a set, an assertion or a
group, each with as many repetition signs behind it as there are.
-/

namespace Graft.Pattern.Reader

/-- A part of a branch. Setting flags takes a place of its own and cannot be repeated. -/
inductive Part where
  | piece (p : Piece)
  | setting

/-- A part as a piece. A setting reads nothing. -/
def Part.toPiece : Part → Piece
  | piece p => p
  | setting => ⟨.empty, 0⟩

/-- The parts of a branch, in order, as one piece. -/
def ofParts (parts : List Part) : Piece :=
  match parts with
  | [part] => part.toPiece
  | parts =>
    let pieces := parts.map Part.toPiece
    ⟨.sequence (pieces.map Piece.expression),
      if parts.isEmpty then 0 else pieces.foldl (fun deepest piece => max deepest piece.nesting) 0 + 1⟩

/-- The branches of a choice, in order, as one piece. -/
def ofBranches (branches : List Piece) : Piece :=
  match branches with
  | [branch] => branch
  | branches =>
    ⟨.choice (branches.map Piece.expression),
      branches.foldl (fun deepest branch => max deepest branch.nesting) 0 + 1⟩

/-! ## Single parts -/

/-- One character as an expression, in the flags in force. -/
def charExpression (c : Char) (byByte : Bool) : Reading Expression := do
  let flags ← flags
  if !flags.wide && byByte && 0x80 ≤ c.toNat then failure
  let set := CharacterSet.single c
  return .ofSet (if flags.ignoreCase then set.withBothCases flags.wide else set) (!flags.wide)

/-- The expression of an escape. -/
def escapeExpression : Escape → Reading Expression
  | .char c byByte => charExpression c byByte
  | .set set => return .ofSet set (!(← flags).wide)
  | .check assertion => return .check assertion

/-- The dot: any character, or any that does not end a line. -/
def dotExpression : Reading Expression := do
  let flags ← flags
  if !flags.wide then failure
  let ends : CharacterSet := if flags.broadLines then .ofRanges [(10, 10), (13, 13)] else .single '\n'
  return .ofSet (if flags.dotAll then .all else ends.complement) false

/-- The start or the end of a line or, unless lines are told apart, of the text. -/
def boundary (text line broadLine : Assertion) : Reading Expression := do
  let flags ← flags
  return .check (if !flags.multiLine then text else if flags.broadLines then broadLine else line)

/-- A part that is no group, set or repetition, from its first character on. -/
def primitive : Reading Expression := do
  match ← take with
  | '\\' => escapeExpression (← escape)
  | '.' => dotExpression
  | '^' => boundary .textStart .lineStart .broadLineStart
  | '$' => boundary .textEnd .lineEnd .broadLineEnd
  | c => charExpression c false

/-! ## Repetitions -/

/-- Whether a repetition is greedy: a question mark behind it says no, and flags may swap the two. -/
def isGreedy (marked : Bool) : Reading Bool := do
  return marked == (← flags).swapGreed

/-- The digits of a number, with white space skipped between them in the spaced mode. -/
def numberDigits : Nat → List Char → Reading (List Char)
  | 0, digits => return digits
  | fuel + 1, digits => do
    match ← rest with
    | c :: after =>
      if '0' ≤ c && c ≤ '9' then
        goTo after
        skipSpace
        numberDigits fuel (digits ++ [c])
      else return digits
    | [] => return digits

/-- Skip white space in any mode. -/
def skipBlanks : Reading Unit := do
  goTo ((← rest).dropWhile Text.isBlank)

/-- A number that has to stand next. White space may surround it. -/
def number : Reading Nat := do
  skipBlanks
  let digits ← numberDigits ((← rest).length) []
  skipBlanks
  skipSpace
  if digits.isEmpty then failure
  if maxRepetition < Text.decimalValue digits then failure
  return Text.decimalValue digits

/-- How often a counted repetition repeats: at least so often, and at most so often if that is said. -/
def counts : Reading (Nat × Option Nat) := do
  skipSpace
  let least ← number
  if ← takeIf ',' then
    skipSpace
    if ← takeIf '}' then return (least, none)
    else
      let most ← number
      expect '}'
      return (least, some most)
  else
    expect '}'
    return (least, some least)

/-- How often the repetition of a piece repeats, from its sign on. -/
def repetitionCounts : Reading (Nat × Option Nat) := do
  match ← take with
  | '?' => return (0, some 1)
  | '*' => return (0, none)
  | '+' => return (1, none)
  | _ =>
    let (least, most) ← counts
    if most.any (· < least) then failure
    skipSpace
    return (least, most)

/-- A repetition of the piece before it, from its sign on. -/
def repetition (piece : Piece) : Reading Part := do
  let (least, most) ← repetitionCounts
  let greedy ← isGreedy (← takeIf '?')
  return .piece ⟨.repeating piece.expression least most greedy, piece.nesting + 1⟩

/-! ## Groups -/

/-- Whether a character may stand in a group name, at its front or behind. -/
def isNameChar (first : Bool) (c : Char) : Bool :=
  c == '_' || c.isAlpha || Text.inRanges Text.wordCharacter c.toNat && 0x80 ≤ c.toNat ||
    !first && (c.isDigit || c == '.' || c == '[' || c == ']')

/-- The name of a group, up to its closing bracket. No two groups have the same name. -/
def groupName : Reading Unit := do
  let source ← rest
  let name := source.takeWhile (· != '>')
  match source.dropWhile (· != '>') with
  | [] => failure
  | _ :: after =>
    match name with
    | [] => failure
    | first :: others =>
      if !isNameChar true first || !others.all (isNameChar false) then failure
      if (← get).names.contains name then failure
      modify fun place => { place with rest := after, names := name :: place.names }

/-- The flags with one of them switched. -/
def switch (flags : Flags) (on : Bool) : Char → Option Flags
  | 'i' => some { flags with ignoreCase := on }
  | 'm' => some { flags with multiLine := on }
  | 's' => some { flags with dotAll := on }
  | 'U' => some { flags with swapGreed := on }
  | 'R' => some { flags with broadLines := on }
  | 'u' => some { flags with wide := on }
  | 'x' => some { flags with spaced := on }
  | _ => none

/-- The letters of a flag list up to a colon or a closing bracket, and the flags they leave in force. A letter stands at
most once, and so does the dash after which flags are switched off. -/
def flagLetters : Nat → List Char → Flags → Reading (List Char × Flags)
  | 0, _, _ => failure
  | fuel + 1, seen, flags => do
    match ← rest with
    | [] => failure
    | c :: after =>
      if c = ':' || c = ')' then
        if seen.head? = some '-' then failure
        return (seen, flags)
      if seen.contains c then failure
      goTo after
      if c = '-' then flagLetters fuel (c :: seen) flags
      else
        let some flags := switch flags (!seen.contains '-') c | failure
        flagLetters fuel (c :: seen) flags

/-- Whether a source looks ahead or behind, which no pattern may. -/
def looksAround : List Char → Bool
  | '?' :: '=' :: _ | '?' :: '!' :: _ | '?' :: '<' :: '=' :: _ | '?' :: '<' :: '!' :: _ => true
  | _ => false

/-- What an opening bracket begins: a group with the flags inside it, or a setting of flags. -/
inductive Opening where
  | numbered (number : Nat)
  | plain (inside : Flags)
  | setting (flags : Flags)

/-- The group that begins here, with the next number. -/
def nextGroup : Reading Opening := do
  let number := (← get).groups
  modify fun place => { place with groups := number + 1 }
  return .numbered number

/-- What follows an opening bracket, up to the body of its group. -/
def opening : Reading Opening := do
  skipSpace
  let source ← rest
  let flags ← flags
  if looksAround source then failure
  match source with
  | '?' :: 'P' :: '<' :: after | '?' :: '<' :: after =>
    goTo after
    groupName
    nextGroup
  | '?' :: after =>
    goTo after
    let (letters, inside) ← flagLetters (after.length + 1) [] flags
    if ← takeIf ')' then
      if letters.isEmpty then failure
      return .setting inside
    else
      expect ':'
      return .plain inside
  | _ => nextGroup

/-- A group around a piece. -/
def grouped (piece : Piece) (expression : Expression) : Part :=
  .piece ⟨expression, piece.nesting + 1⟩

/-- The branches up to the end of the source or the bracket that closes the group. The branches and the parts read so far
are given newest first. -/
def branches : Nat → Bool → List Piece → List Part → Reading Piece
  | 0, _, _, _ => failure
  | fuel + 1, inGroup, done, parts => do
    skipSpace
    match ← rest with
    | [] => if inGroup then failure else return ofBranches (ofParts parts.reverse :: done).reverse
    | ')' :: after =>
      if !inGroup then failure
      goTo after
      return ofBranches (ofParts parts.reverse :: done).reverse
    | '|' :: after =>
      goTo after
      branches fuel inGroup (ofParts parts.reverse :: done) []
    | '(' :: after =>
      goTo after
      match ← opening with
      | .setting flags =>
        setFlags flags
        branches fuel inGroup done (.setting :: parts)
      | .numbered number =>
        let outside ← flags
        let body ← branches fuel true [] []
        setFlags outside
        branches fuel inGroup done (grouped body (.group number body.expression) :: parts)
      | .plain inside =>
        let outside ← flags
        setFlags inside
        let body ← branches fuel true [] []
        setFlags outside
        branches fuel inGroup done (grouped body body.expression :: parts)
    | '[' :: after =>
      goTo after
      let (set, nesting) ← bracketed (after.length + 1)
      branches fuel inGroup done (.piece ⟨.ofSet set (!(← flags).wide), nesting⟩ :: parts)
    | c :: _ =>
      if c = '?' || c = '*' || c = '+' || c = '{' then
        match parts with
        | .piece piece :: parts => branches fuel inGroup done ((← repetition piece) :: parts)
        | _ => failure
      else branches fuel inGroup done (.piece ⟨← primitive, 0⟩ :: parts)

/-- The expression that a source stands for. -/
def read (source : String) : Option Expression := do
  let start : Place := { rest := source.toList }
  let (piece, _) ← (branches (source.length + 1) false [] []).run start
  if maxNesting < piece.nesting then none else some piece.expression

end Graft.Pattern.Reader
