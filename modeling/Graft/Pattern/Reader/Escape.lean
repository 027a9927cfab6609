import Graft.Pattern.Reader.Basic

/-!
# Escapes

What may stand after a backslash: a character by its number, a control by its letter, a punctuation mark, a set of
characters or an assertion.
-/

namespace Graft.Pattern.Reader

/-- What an escape stands for. A character written by two hexadecimal digits may also mean a byte. -/
inductive Escape where
  | char (c : Char) (byByte : Bool)
  | set (s : CharacterSet)
  | check (assertion : Assertion)

/-- The value of a hexadecimal digit. -/
def hexValue? (c : Char) : Option Nat :=
  if '0' ≤ c && c ≤ '9' then some (c.toNat - '0'.toNat)
  else if 'a' ≤ c && c ≤ 'f' then some (c.toNat - 'a'.toNat + 10)
  else if 'A' ≤ c && c ≤ 'F' then some (c.toNat - 'A'.toNat + 10)
  else none

/-- The character with a scalar value, if there is one. -/
def scalar? (value : Nat) : Option Char :=
  if h : value.isValidChar then some (Char.ofNatAux value h) else none

/-- A fixed number of hexadecimal digits, after the digits read so far. -/
def hexDigits : Nat → Nat → Reading Nat
  | 0, value => return value
  | count + 1, value => do
    let some digit := hexValue? (← take) | failure
    skipSpace
    hexDigits count (value * 16 + digit)

/-- Hexadecimal digits up to a closing brace, at most as many as there are characters left. -/
def hexBraced : Nat → Option Nat → Reading Nat
  | 0, _ => failure
  | fuel + 1, value => do
    match ← take with
    | '}' => match value with
      | some value => return value
      | none => failure
    | c =>
      let some digit := hexValue? c | failure
      skipSpace
      hexBraced fuel (some (value.getD 0 * 16 + digit))

/-- The character that a hexadecimal escape stands for, after its letter. -/
def hexEscape (digits : Nat) : Reading Escape := do
  skipSpace
  if ← takeIf '{' then
    skipSpace
    let value ← hexBraced ((← rest).length) none
    skipSpace
    let some c := scalar? value | failure
    return .char c false
  else
    let some c := scalar? (← hexDigits digits 0) | failure
    return .char c (digits == 2)

/-- Whether an escape may stand before a character to mean the character itself. -/
def isEscapable (c : Char) : Bool :=
  c.toNat < 0x80 && !c.isAlphanum && c != '<' && c != '>'

/-- A set or its complement. A set of bytes has no complement inside the text encoding. -/
def setOrComplement (negated : Bool) (narrow wide : CharacterSet) : Reading Escape := do
  let set := if (← flags).wide then wide else narrow
  if !negated then return .set set
  else if (← flags).wide then return .set set.complement
  else failure

/-- A test for words, of ASCII or of every script. -/
def wordTest (test : WordTest) : Reading Escape := do
  return .check (if (← flags).wide then .wideWord test else .word test)

/-- The letters and dashes at the front of a source, with white space skipped between them in the spaced mode. -/
def testName : Nat → Reading (List Char)
  | 0 => return []
  | fuel + 1 => do
    match ← rest with
    | c :: after =>
      if c.isAlpha || c == '-' then
        goTo after
        skipSpace
        return c :: (← testName fuel)
      else return []
    | [] => return []

/-- The word test that is named in braces, if a name stands there. A count is none. -/
def namedTest? : Reading (Option WordTest) := do
  let start ← rest
  if !(← takeIf '{') then return none
  skipSpace
  match ← rest with
  | [] => failure
  | source@(c :: _) =>
    if !(c.isAlpha || c == '-') then
      goTo start
      return none
    let name ← testName source.length
    expect '}'
    match String.ofList name with
    | "start" => return some .start
    | "end" => return some .stop
    | "start-half" => return some .noneBefore
    | "end-half" => return some .noneBehind
    | _ => failure

/-- What stands after a backslash. -/
def escape : Reading Escape := do
  let c ← take
  match c with
  | 'x' => hexEscape 2
  | 'u' => hexEscape 4
  | 'U' => hexEscape 8
  | 'd' => setOrComplement false .asciiDigit ⟨Text.decimalDigit⟩
  | 'D' => setOrComplement true .asciiDigit ⟨Text.decimalDigit⟩
  | 's' => setOrComplement false .asciiSpace ⟨Text.whiteSpace⟩
  | 'S' => setOrComplement true .asciiSpace ⟨Text.whiteSpace⟩
  | 'w' => setOrComplement false .asciiWord ⟨Text.wordCharacter⟩
  | 'W' => setOrComplement true .asciiWord ⟨Text.wordCharacter⟩
  | 'a' => return .char '\x07' false
  | 'f' => return .char '\x0c' false
  | 't' => return .char '\t' false
  | 'n' => return .char '\n' false
  | 'r' => return .char '\r' false
  | 'v' => return .char '\x0b' false
  | 'A' => return .check .textStart
  | 'z' => return .check .textEnd
  | 'b' => wordTest ((← namedTest?).getD .edge)
  | 'B' => wordTest .inside
  | '<' => wordTest .start
  | '>' => wordTest .stop
  | _ => if isEscapable c then return .char c false else failure

end Graft.Pattern.Reader
