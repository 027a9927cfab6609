import Graft.Pattern.CharacterSet

/-!
# Expressions

What a pattern means once its source is read: texts, sets of characters and assertions, put together by sequence, ordered
choice and repetition. Expressions are built by `sequence`, `choice`, `repeating` and `ofSet`, which keep them in a simple
form: a sequence has no sequence, no empty part and no two neighbouring texts right inside it, a choice has no choice right
inside it, and what can be said by one set is one set.
-/

namespace Graft.Pattern

/-- A test of the place between two bytes for a word: whether one begins or ends here, whether neither does, whether one
begins, whether one ends, whether none stands before, and whether none stands behind. -/
inductive WordTest where
  | edge
  | inside
  | start
  | stop
  | noneBefore
  | noneBehind
  deriving DecidableEq, Repr

/-- A test of the place between two bytes. It reads nothing. Lines end at a line feed; broad lines also at a carriage
return, but not between the two. The wide word tests count the words of every script. -/
inductive Assertion where
  | textStart
  | textEnd
  | lineStart
  | lineEnd
  | broadLineStart
  | broadLineEnd
  | word (test : WordTest)
  | wideWord (test : WordTest)
  deriving DecidableEq, Repr

/-- A pattern. Where a choice or a repetition has two ways to go on, the first that succeeds is taken; a repetition that is
not greedy prefers to stop. A set knows whether it was read as a set of ASCII characters only. -/
inductive Expression where
  | empty
  | text (chars : List Char)
  | chars (set : CharacterSet) (narrow : Bool)
  | check (assertion : Assertion)
  | seq (first rest : Expression)
  | either (first rest : Expression)
  | repeated (body : Expression) (least : Nat) (most : Option Nat) (greedy : Bool)
  | group (number : Nat) (body : Expression)
  deriving DecidableEq, Repr, Inhabited

namespace Expression

/-! ## Sets -/

/-- A set of characters as an expression. A set of one character is a text. -/
def ofSet (set : CharacterSet) (narrow : Bool) : Expression :=
  match set.ranges with
  | [] => chars .empty true
  | [(first, last)] => if first = last then text [Char.ofNat first] else chars set narrow
  | _ => chars set narrow

/-- The set that an expression reads one character of, if it does just that. -/
def toSet? : Expression → Option CharacterSet
  | text [c] => some (.single c)
  | chars set _ => some set
  | _ => none

/-! ## Sequences -/

/-- The parts of a sequence. -/
def parts : Expression → List Expression
  | empty => []
  | seq first rest => first :: rest.parts
  | e => [e]

/-- An expression before the parts of a sequence. Texts that become neighbours become one. -/
def before : Expression → List Expression → List Expression
  | text cs, text ds :: rest => text (cs ++ ds) :: rest
  | e, rest => e :: rest

/-- Parts one after the other. -/
def chain : List Expression → Expression
  | [] => empty
  | [e] => e
  | e :: rest => seq e (chain rest)

/-- Several expressions one after the other. -/
def sequence (expressions : List Expression) : Expression :=
  chain ((expressions.flatMap parts).foldr before [])

/-! ## Choices -/

/-- The branches of a choice. -/
def branches : Expression → List Expression
  | either first rest => first :: rest.branches
  | e => [e]

/-- The first of several branches that succeeds. -/
def firstOf : List Expression → Expression
  | [] => chars .empty true
  | [e] => e
  | e :: rest => either e (firstOf rest)

/-- The parts with which two sequences begin alike. -/
def sharedFront : List Expression → List Expression → List Expression
  | e :: es, f :: fs => if e = f then e :: sharedFront es fs else []
  | _, _ => []

/-- The parts with which several branches begin alike. Only sequences share a front. -/
def frontOfAll : List Expression → List Expression
  | [] => []
  | [e] => match e with
    | seq .. => e.parts
    | _ => []
  | e :: rest => match e with
    | seq .. => sharedFront e.parts (frontOfAll rest)
    | _ => []

/-- The choice between branches, where the front that they share is read once and chosen before what follows it. -/
def choiceWithin : Nat → List Expression → Expression
  | 0, options => firstOf options
  | fuel + 1, options =>
    match options.flatMap branches with
    | [e] => e
    | options =>
      match options.mapM toSet? with
      | some sets => ofSet (.ofRanges (sets.flatMap CharacterSet.ranges)) false
      | none =>
        let front := frontOfAll options
        if front.isEmpty then firstOf options
        else
          let behind := options.map fun e => chain (e.parts.drop front.length)
          sequence (front ++ [choiceWithin fuel behind])

/-- How many parts an expression is made of. -/
def size : Expression → Nat
  | seq first rest | either first rest => first.size + rest.size + 1
  | repeated body .. | group _ body => body.size + 1
  | _ => 1

/-- The first of several expressions that succeeds. Each front taken off makes the branches smaller, so their size bounds
how often that can be done. -/
def choice (options : List Expression) : Expression :=
  choiceWithin (options.foldl (fun total e => total + e.size) 1) options

/-! ## Repetitions -/

/-- The least number of characters that an expression reads; nothing if it has a part that reads no character at all, as an
empty set does. -/
def leastLength? : Expression → Option Nat
  | empty | check _ => some 0
  | text cs => some cs.length
  | chars set _ => if set.ranges.isEmpty then none else some 1
  | seq first rest => do return (← first.leastLength?) + (← rest.leastLength?)
  | either first rest => do return min (← first.leastLength?) (← rest.leastLength?)
  | repeated body least .. => do return (← body.leastLength?) * least
  | group _ body => body.leastLength?

/-- Whether an expression reads something whenever it succeeds, as far as can be told from its parts. -/
def alwaysReads (e : Expression) : Bool :=
  e.leastLength?.any (0 < ·)

/-- Whether an expression never reads anything. -/
def neverReads : Expression → Bool
  | empty | check _ => true
  | text _ | chars .. => false
  | seq first rest | either first rest => first.neverReads && rest.neverReads
  | repeated body _ most _ => most.isSome && body.neverReads
  | group _ body => body.neverReads

/-- An expression at least `least` times and, if that is said, at most `most` times. What never reads anything is tried
once at most. -/
def repeating (body : Expression) (least : Nat) (most : Option Nat) (greedy : Bool) : Expression :=
  let (least, most) := if body.neverReads then (min least 1, some (min (most.getD 1) 1)) else (least, most)
  if least = 0 ∧ most = some 0 then empty
  else if least = 1 ∧ most = some 1 then body
  else repeated body least most greedy

/-! ## Words -/

/-- Whether an expression tests for the words of every script. -/
def hasWideWords : Expression → Bool
  | empty | text _ | chars .. => false
  | check (.wideWord _) => true
  | check _ => false
  | seq first rest | either first rest => first.hasWideWords || rest.hasWideWords
  | repeated body .. | group _ body => body.hasWideWords

end Expression

end Graft.Pattern
