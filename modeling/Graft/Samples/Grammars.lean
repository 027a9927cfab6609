import Graft.Grammar.Draft

/-!
# Sample grammars

Small grammars, one or two for each kind of rule, with texts that they accept and texts that they reject. Patterns of a
sample are numbered from the serial number given.
-/

namespace Graft.Samples

open Drafting

variable [Pattern.Compiler]

/-- A number of at least one digit. -/
def numberValue (serial : Nat) : Except Fault Grammar :=
  toGrammar do
    let digits ← keep serial "[0-9]+"
    value "v" [.once digits]

/-- A value of digits and letters, each read by itself. -/
def digitValue (serial : Nat) : Except Fault Grammar :=
  toGrammar do
    let digit ← keep serial "[0-9a-z]"
    value "v" [.any digit]

/-- Digits that belong to a value and letters that do not. -/
def valueWithSkip (serial : Nat) : Except Fault Grammar :=
  toGrammar do
    let digit ← keep serial "[0-9]"
    let letter ← skip (serial + 1) "[a-z]"
    value "v" [.any digit, .any letter]

/-- A value of one letter. It is named for the letter. -/
def letterValue (serial : Nat) (letter : String) : Drafting RuleId := do
  let leaf ← keep serial letter
  value letter [.once leaf]

/-- Two letters in any order. -/
def letterPair (serial : Nat) : Except Fault Grammar :=
  toGrammar do
    let a ← keep serial "a"
    let b ← keep (serial + 1) "b"
    let a ← value "a" [.once a]
    let b ← value "b" [.once b]
    anyOrder [.once a, .once b]

/-- A choice that commits to one letter where a later edge would take more. -/
def firstOrderCommit (serial : Nat) : Except Fault Grammar :=
  toGrammar do
    let x ← keep serial "x"
    firstOrder [.times x (.exactly 1), .times x (.atLeast 1)]

/-- Three letters in any order, with a count for each. -/
def letterBag (serial : Nat) : Except Fault Grammar :=
  toGrammar do
    let a ← letterValue serial "a"
    let b ← letterValue (serial + 1) "b"
    let c ← letterValue (serial + 2) "c"
    anyOrder [.any a, .atLeastOnce b, .optional c]

/-- Any number of tokens, each a pair of digits or a word. -/
def pairOrWord (serial : Nat) : Except Fault Grammar :=
  toGrammar do
    let digit ← keep serial "[0-9]"
    let word ← keep (serial + 1) "[a-z]+"
    let digit ← value "d" [.once digit]
    let word ← value "w" [.once word]
    let token ← firstOrder [.times digit (.exactly 2), .once word]
    inOrder [.any token]

/-- Numbers with commas between them. -/
def numberList (serial : Nat) : Except Fault Grammar :=
  toGrammar do
    let digits ← keep serial "[0-9]+"
    let comma ← skip (serial + 1) ","
    let number ← value "n" [.once digits]
    let more ← inOrder [.once comma, .once number]
    inOrder [.once number, .any more]

/-- Words with single spaces between them. -/
def wordList (serial : Nat) : Except Fault Grammar :=
  toGrammar do
    let word ← keep serial "[a-z]+"
    let space ← skip (serial + 1) " "
    let named ← value "word" [.once word]
    let tail ← inOrder [.once space, .once named]
    inOrder [.once named, .any tail]

/-- A number and a word, both read by one rule that takes its pattern as an argument. -/
def typedPair (serial : Nat) : Except Fault Grammar :=
  toGrammar do
    let token ← declare (some "token")
    setParameters token [⟨"p", .pattern⟩]
    let body ← consume .keep (token.parameter "p")
    let _ ← defineContainer token (.value true) [.once body]
    let digits ← Pattern.ofSource serial "[0-9]+"
    let letters ← Pattern.ofSource (serial + 1) "[a-z]+"
    let number ← invoke { target := .rule token, shownAs := some "number", arguments := [.pattern digits] }
    let space ← skip (serial + 2) " "
    let word ← invoke { target := .rule token, shownAs := some "word", arguments := [.pattern letters] }
    inOrder [.once number, .once space, .once word]

/-- How many serial numbers a sample may use. -/
def serialsUsed : Nat := 3

/-- A sample grammar with texts that it accepts and texts that it rejects. -/
structure Sample where
  name : String
  grammar : Nat → Except Fault Grammar
  accepts : List String
  rejects : List String

/-- All samples. -/
def all : List Sample :=
  [⟨"number_value", numberValue, ["123", "0"], ["abc", "", "12a"]⟩,
    ⟨"digit_value", digitValue, ["", "123", "12x"], ["1-2", "1 "]⟩,
    ⟨"value_with_skip", valueWithSkip, ["123abc", "", "abc", "7"], ["abc1", "1a2"]⟩,
    ⟨"letter_pair", letterPair, ["ab", "ba"], ["b", "aa", "", "abb"]⟩,
    ⟨"first_order_commit", firstOrderCommit, ["x"], ["xx", ""]⟩,
    ⟨"letter_bag", letterBag, ["b", "abba", "cab", "bca"], ["", "ac", "bcc"]⟩,
    ⟨"pair_or_word", pairOrWord, ["", "12", "12ab34", "ab"], ["123", "1", "1a", "12-"]⟩,
    ⟨"number_list", numberList, ["1", "1,22,333"], ["", "1,", ",1", "1,,2"]⟩,
    ⟨"word_list", wordList, ["alpha", "alpha beta gamma"], ["", "alpha ", "alpha  beta"]⟩,
    ⟨"typed_pair", typedPair, ["42 abc"], ["abc 42", "42abc", "42 "]⟩]

/-- The sample with a name. -/
def named? (name : String) : Option Sample :=
  all.find? (·.name = name)

end Graft.Samples
