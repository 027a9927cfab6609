import Graft.Pattern.Expression

/-!
# Programs

An expression is laid out as a list of instructions that name each other by their place. It is laid out from its end to its
front, so that each part knows where to go on; only a loop is given its place before what it repeats. A choice names two
places, the preferred one first.
-/

namespace Graft.Pattern

/-- A place in a program. -/
abbrev Label := Nat

/-- What is done at a place of a program. -/
inductive Instruction where
  | read (set : CharacterSet) (next : Label)
  | check (assertion : Assertion) (next : Label)
  | branch (preferred other : Label)
  | accept
  deriving DecidableEq, Repr, Inhabited

/-- The instructions laid out so far, and the place from which they go on. -/
structure Layout where
  code : Array Instruction
  start : Label
  deriving DecidableEq, Repr, Inhabited

namespace Layout

/-- One more instruction in front. -/
def push (l : Layout) (instruction : Instruction) : Layout :=
  let place := l.code.size
  ⟨l.code.push instruction, place⟩

/-- A branch that prefers to repeat, or not to. -/
def branchTo (greedy : Bool) (again onward : Label) : Instruction :=
  if greedy then .branch again onward else .branch onward again

/-- Something done over and over: its loop stands behind it, and the result starts with it. -/
def plus (greedy : Bool) (body : Layout → Layout) (l : Layout) : Layout :=
  let loop := l.code.size
  let onward := l.start
  let l' := body (l.push .accept)
  { l' with code := l'.code.setIfInBounds loop (branchTo greedy l'.start onward) }

/-- Something done over and over or not at all, where it always reads: the result starts with its loop. -/
def star (greedy : Bool) (body : Layout → Layout) (l : Layout) : Layout :=
  let loop := l.code.size
  { plus greedy body l with start := loop }

/-- Something done over and over or not at all, where it may read nothing: a choice stands before it, apart from its
loop. -/
def optionalPlus (greedy : Bool) (body : Layout → Layout) (l : Layout) : Layout :=
  let onward := l.start
  let l' := plus greedy body l
  l'.push (branchTo greedy l'.start onward)

/-- Something up to `count` times, each time only after the one before; wherever it stops, it goes on at the same place. -/
def upTo (greedy : Bool) (body : Layout → Layout) (count : Nat) (l : Layout) : Layout :=
  let onward := l.start
  Nat.repeat (fun l' =>
    let l'' := body l'
    l''.push (branchTo greedy l''.start onward)) count l

/-- Something at least `least` times and at most `most` times, if that is said. -/
def times (body : Layout → Layout) (reads : Bool) (least : Nat) (most : Option Nat) (greedy : Bool) (l : Layout) :
    Layout :=
  match most with
  | some most => Nat.repeat body least (upTo greedy body (most - least) l)
  | none =>
    match least with
    | 0 => if reads then star greedy body l else optionalPlus greedy body l
    | least + 1 => Nat.repeat body least (plus greedy body l)

end Layout

namespace Expression

/-- The instructions of an expression before others. -/
def layOut : Expression → Layout → Layout
  | empty, l => l
  | text cs, l => cs.foldr (fun c l => l.push (.read (.single c) l.start)) l
  | chars set _, l => l.push (.read set l.start)
  | check assertion, l => l.push (.check assertion l.start)
  | seq first rest, l => first.layOut (rest.layOut l)
  | either first rest, l =>
    let onward := l.start
    let second := rest.layOut l
    let other := second.start
    let first := first.layOut { second with start := onward }
    first.push (.branch first.start other)
  | repeated body least most greedy, l => Layout.times body.layOut body.alwaysReads least most greedy l
  | group _ body, l => body.layOut l

end Expression

/-- A program: its instructions and where it begins. -/
structure Program where
  instructions : Array Instruction
  start : Label
  deriving DecidableEq, Repr, Inhabited

/-- The program of an expression. It ends with the one instruction that accepts. -/
def Program.ofExpression (expression : Expression) : Program :=
  let l := expression.layOut ⟨#[.accept], 0⟩
  ⟨l.code, l.start⟩

end Graft.Pattern
