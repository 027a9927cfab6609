import Graft.Occurrence
import Graft.Text.Property

/-!
# Reading occurrences

A text is split at bars and white space; each piece is one token, and several tokens stand for a choice. `?`, `*` and `+`
stand alone; a number, a number before `+` or `-`, and two numbers around `-` are the other tokens.
-/

namespace Graft.Occurrence

/-- Why a text is no occurrence. The token at fault is kept. -/
inductive ReadError where
  | empty
  | malformed (token : String)
  | tooLarge (token : String)
  | inverted (token : String)
  deriving DecidableEq, Repr

/-- Whether a character is one of the ten digits. -/
def isDigit (c : Char) : Bool :=
  '0' ≤ c && c ≤ '9'

/-- The number that some characters of a token stand for. -/
def readCount (token digits : List Char) : Except ReadError Nat :=
  if digits.isEmpty || !digits.all isDigit then .error (.malformed (String.ofList token))
  else if largestSize < Text.decimalValue digits then .error (.tooLarge (String.ofList token))
  else .ok (Text.decimalValue digits)

/-- The occurrence that two numbers around a dash stand for. -/
def readRange (token least most : List Char) : Except ReadError Occurrence := do
  let least ← readCount token least
  let most ← readCount token most
  if most < least then throw (.inverted (String.ofList token))
  pure (.between least most)

/-- The occurrence that one token stands for. -/
def readToken (token : List Char) : Except ReadError Occurrence :=
  if token = ['?'] then .ok optional
  else if token = ['*'] then .ok any
  else if token = ['+'] then .ok atLeastOnce
  else if token.getLast? = some '+' then do
    let least ← readCount token token.dropLast
    pure (if least = 0 then any else atLeast least)
  else if token.getLast? = some '-' then do
    let most ← readCount token token.dropLast
    pure (atMost most)
  else if token.contains '-' then
    readRange token (token.takeWhile (· != '-')) ((token.dropWhile (· != '-')).drop 1)
  else do
    let count ← readCount token token
    pure (exactly count)

/-- The tokens of a text. -/
def tokens (text : String) : List (List Char) :=
  Text.fields (fun c => c == '|' || Text.isBlank c) text.toList

/-- The occurrence that a text stands for. -/
def read (text : String) : Except ReadError Occurrence :=
  match tokens text with
  | [] => .error .empty
  | [token] => readToken token
  | several => do
    let choices ← several.mapM readToken
    pure (oneOf choices)

end Graft.Occurrence
