import Graft.Pattern.Reader.Escape

/-!
# Bracketed sets

A set in brackets is a list of characters, ranges, escapes, named sets and further bracketed sets. Operators between such
lists join from left to right; a caret after the bracket takes the complement of the whole.
-/

namespace Graft.Pattern.Reader

/-- A set being read inside brackets: its characters, how many items it has and how deep they are nested. -/
structure Items where
  set : CharacterSet := .empty
  count : Nat := 0
  nesting : Nat := 0

/-- The items with one more. -/
def Items.add (items : Items) (set : CharacterSet) (nesting : Nat := 0) : Items :=
  ⟨items.set.union set, items.count + 1, max items.nesting nesting⟩

/-- The items as one operand. -/
def Items.operand (items : Items) : CharacterSet × Nat :=
  (items.set, if items.count ≤ 1 then items.nesting else items.nesting + 1)

/-- What joins two sets inside brackets. -/
inductive SetOperator where
  | both
  | without
  | exclusive

/-- What two operators join. -/
def SetOperator.apply : SetOperator → CharacterSet → CharacterSet → CharacterSet
  | both, s, t => s.intersection t
  | without, s, t => s.difference t
  | exclusive, s, t => s.symmetricDifference t

/-- A set with both cases of its letters, where case is ignored. -/
def foldCase (set : CharacterSet) : Reading CharacterSet := do
  let flags ← flags
  return if flags.ignoreCase then set.withBothCases flags.wide else set

/-- A whole set: case is ignored before the complement is taken. A set of bytes has no complement. -/
def closeSet (negated : Bool) (set : CharacterSet) : Reading CharacterSet := do
  let set ← foldCase set
  if !negated then return set
  else if (← flags).wide then return set.complement
  else failure

/-- Join the operands read so far with a new one. -/
def joinOperands (pending : Option (SetOperator × CharacterSet × Nat)) (items : Items) :
    Reading (CharacterSet × Nat) := do
  let (set, nesting) := items.operand
  match pending with
  | none => return (set, nesting)
  | some (operator, left, leftNesting) =>
    return (operator.apply (← foldCase left) (← foldCase set), max leftNesting nesting + 1)

/-- The name between colons at the front of a source, whether a caret negates it, and what follows the bracket. -/
def namedSet? (source : List Char) : Option (CharacterSet × Bool × List Char) :=
  match source with
  | ':' :: source =>
    let negated := source.head? = some '^'
    let source := if negated then source.drop 1 else source
    match source.dropWhile (· != ':') with
    | ':' :: ']' :: after =>
      (CharacterSet.named? (String.ofList (source.takeWhile (· != ':')))).map fun set => (set, negated, after)
    | _ => none
  | _ => none

/-- One character or escape inside brackets. -/
def setAtom : Reading Escape := do
  let c ← take
  if c = '\\' then escape else return .char c false

/-- The character that an atom stands for. Without the wide mode only ASCII characters may stand in a set. -/
def atomChar : Escape → Reading Char
  | .char c _ => do
    if (← flags).wide || c.toNat < 0x80 then return c else failure
  | _ => failure

/-- The set that an atom stands for. -/
def atomSet (atom : Escape) : Reading CharacterSet := do
  match atom with
  | .set set => return set
  | .char .. => return .single (← atomChar atom)
  | .check _ => failure

/-- The character after the next one, past white space in the spaced mode. -/
def afterNext (spaced : Bool) (source : List Char) : Option Char :=
  if spaced then
    match source.dropWhile Text.isBlank with
    | '#' :: source => (source.dropWhile Text.isBlank).head?
    | source => source.head?
  else source.head?

/-- One item inside brackets: an atom, or a range between two. -/
def setRange : Reading CharacterSet := do
  let first ← setAtom
  skipSpace
  match ← rest with
  | [] => failure
  | '-' :: after =>
    let following := afterNext (← flags).spaced after
    if following = some ']' || following = some '-' then atomSet first
    else
      goTo after
      skipSpace
      let last ← setAtom
      let first ← atomChar first
      let last ← atomChar last
      if last < first then failure
      return .range first.toNat last.toNat
  | _ => atomSet first

/-- The dashes at the front of a bracketed set, which stand for themselves. -/
def leadingDashes : Nat → Items → Reading Items
  | 0, items => return items
  | fuel + 1, items => do
    if ← takeIf '-' then
      skipSpace
      leadingDashes fuel (items.add (.single '-'))
    else return items

/-- The operator at the front of a source and what follows it. -/
def setOperator? : List Char → Option (SetOperator × List Char)
  | '&' :: '&' :: after => some (.both, after)
  | '-' :: '-' :: after => some (.without, after)
  | '~' :: '~' :: after => some (.exclusive, after)
  | _ => none

mutual

/-- A bracketed set, after its opening bracket. -/
def bracketed : Nat → Reading (CharacterSet × Nat)
  | 0 => failure
  | fuel + 1 => do
    skipSpace
    let negated ← takeIf '^'
    if negated then skipSpace
    let items ← leadingDashes ((← rest).length) {}
    let items ← if items.count = 0 then do
        if ← takeIf ']' then
          skipSpace
          pure (items.add (.single ']'))
        else pure items
      else pure items
    if (← rest).isEmpty then failure
    let (set, nesting) ← setItems fuel none items
    return (← closeSet negated set, nesting + 1)

/-- The rest of a bracketed set. -/
def setItems : Nat → Option (SetOperator × CharacterSet × Nat) → Items → Reading (CharacterSet × Nat)
  | 0, _, _ => failure
  | fuel + 1, pending, items => do
    skipSpace
    match ← rest with
    | [] => failure
    | '[' :: after =>
      match namedSet? after with
      | some (set, negated, after) =>
        goTo after
        setItems fuel pending (items.add (← closeSet negated set))
      | none =>
        goTo after
        let (set, nesting) ← bracketed fuel
        setItems fuel pending (items.add set nesting)
    | ']' :: after =>
      goTo after
      joinOperands pending items
    | source =>
      match setOperator? source with
      | some (operator, after) =>
        goTo after
        let (set, nesting) ← joinOperands pending items
        setItems fuel (some (operator, set, nesting)) {}
      | none => setItems fuel pending (items.add (← setRange))

end

end Graft.Pattern.Reader
