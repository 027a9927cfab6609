import Std.Data.HashSet
import Graft.Pattern.Program
import Graft.Text

/-!
# Running a program over bytes

A configuration is a list of threads, the preferred ones first. A thread stands at a place of the program or inside a
character: it reads a character byte by byte, and lives as long as some character of its set begins with the bytes it has
read. A thread that waits for an assertion lives until the next byte, or the end, decides it; the places are then followed
anew from the front of the list, with more assertions holding than before. Where a thread accepts, the threads behind it
are dropped. That a thread has accepted is seen one byte later, as `Configuration.accepted`.
-/

namespace Graft.Pattern

/-- The first bytes of a character: the bits they give, how many bytes are to come, and the least scalar value that has so
many bytes. -/
structure CharacterStart where
  bits : Nat
  toCome : Nat
  least : Nat
  deriving DecidableEq, Repr

/-- The scalar values whose bytes begin as read. -/
def CharacterStart.span (p : CharacterStart) : Nat × Nat :=
  let unit := 1 <<< (6 * p.toCome)
  (max (p.bits * unit) p.least, p.bits * unit + (unit - 1))

/-- The first bytes of a character with one more. -/
def CharacterStart.extend? : Option CharacterStart → UInt8 → Option CharacterStart
  | none, byte =>
    let value := byte.toNat
    if value < 0x80 then some ⟨value, 0, 0⟩
    else if value < 0xC0 then none
    else if value < 0xE0 then some ⟨value - 0xC0, 1, 0x80⟩
    else if value < 0xF0 then some ⟨value - 0xE0, 2, 0x800⟩
    else if value < 0xF8 then some ⟨value - 0xF0, 3, 0x10000⟩
    else none
  | some p, byte =>
    let value := byte.toNat
    if p.toCome = 0 || value < 0x80 || 0xC0 ≤ value then none
    else some ⟨p.bits * 64 + (value - 0x80), p.toCome - 1, p.least⟩

/-- One way to go on: from a place of the program, or from inside a character of a set. -/
inductive Thread where
  | at (label : Label)
  | inside (set : CharacterSet) (so : CharacterStart) (next : Label)
  deriving DecidableEq, Repr

/-- Where a run stands: its threads, the assertions that hold here, whether the byte before belongs to a word, whether it is
a carriage return, and whether a thread had accepted before that byte. -/
structure Configuration where
  threads : List Thread
  holding : List Assertion
  afterWord : Bool
  afterReturn : Bool
  accepted : Bool
  deriving DecidableEq, Repr

/-- The threads found so far, newest first, and the places among them. -/
structure Found where
  places : Std.HashSet Label := {}
  threads : List Thread := []

namespace Found

/-- One more place. -/
def addPlace (found : Found) (label : Label) : Found :=
  ⟨found.places.insert label, .at label :: found.threads⟩

/-- One more thread inside a character. -/
def addInside (found : Found) (set : CharacterSet) (so : CharacterStart) (next : Label) : Found :=
  { found with threads := .inside set so next :: found.threads }

end Found

namespace Program

/-- The most steps that it takes to follow the branches of a program. -/
def budget (p : Program) : Nat :=
  2 * p.instructions.size + 1

/-- Follow branches and holding assertions from the labels of a list, the first ones first. Each place is visited once and
becomes a thread. -/
def explore (p : Program) (holding : List Assertion) : Nat → List Label → Found → Found
  | 0, _, found => found
  | _ + 1, [], found => found
  | fuel + 1, label :: labels, found =>
    if found.places.contains label then explore p holding fuel labels found
    else
      let found := found.addPlace label
      match p.instructions[label]? with
      | some (.branch preferred other) => explore p holding fuel (preferred :: other :: labels) found
      | some (.check assertion next) =>
        explore p holding fuel (if holding.contains assertion then next :: labels else labels) found
      | _ => explore p holding fuel labels found

/-- Follow branches and holding assertions from one label. -/
def reach (p : Program) (holding : List Assertion) (label : Label) (found : Found) : Found :=
  p.explore holding p.budget [label] found

/-- Where a run begins: at the start of a text, and of a line, with no word before. -/
def initial (p : Program) : Configuration :=
  let holding := [.textStart, .lineStart, .broadLineStart, .word .noneBefore]
  { threads := (p.reach holding p.start {}).threads.reverse
    holding
    afterWord := false
    afterReturn := false
    accepted := false }

/-- Whether a byte belongs to an ASCII word. -/
def isWordByte (byte : UInt8) : Bool :=
  CharacterSet.asciiWord.contains byte.toNat

/-- The assertions about lines that the next byte, or the end of the text, decides to hold. -/
def decidedLines (c : Configuration) : Option UInt8 → List Assertion
  | none => [.textEnd, .lineEnd, .broadLineEnd] ++ if c.afterReturn then [.broadLineStart] else []
  | some byte =>
    if byte = 10 then if c.afterReturn then [.lineEnd] else [.lineEnd, .broadLineEnd]
    else (if byte = 13 then [.broadLineEnd] else []) ++ if c.afterReturn then [.broadLineStart] else []

/-- The tests for words that the next byte, or the end of the text, decides to hold. -/
def decidedWords (c : Configuration) (next : Option UInt8) : List WordTest :=
  match c.afterWord, next.any isWordByte with
  | true, true => [.inside]
  | true, false => [.edge, .stop, .noneBehind]
  | false, true => [.edge, .start]
  | false, false => [.inside, .noneBehind]

/-- The assertions that the next byte, or the end of the text, decides to hold. -/
def decided (c : Configuration) (next : Option UInt8) : List Assertion :=
  decidedLines c next ++ (decidedWords c next).map .word

/-- Whether a thread waits for one of some assertions. -/
def waitsFor (p : Program) (assertions : List Assertion) : Thread → Bool
  | .at label =>
    match p.instructions[label]? with
    | some (.check assertion _) => assertions.contains assertion
    | _ => false
  | .inside .. => false

/-- The threads of a configuration once the next byte, or the end of the text, is known: where one of them waited for an
assertion that holds now, all places are followed anew. -/
def settle (p : Program) (c : Configuration) (next : Option UInt8) : List Thread :=
  let new := (decided c next).filter fun assertion => !c.holding.contains assertion
  if c.threads.any (p.waitsFor new) then
    let holding := c.holding ++ new
    (c.threads.foldl (fun (found : Found) thread =>
      match thread with
      | .at label => p.reach holding label found
      | .inside set so next => found.addInside set so next) {}).threads.reverse
  else c.threads

/-- Whether a thread accepts. -/
def isAccepting (p : Program) : Thread → Bool
  | .at label => p.instructions[label]? == some .accept
  | .inside .. => false

/-- What a thread that reads a character of a set leads to by a byte, added to what is found: the place behind the set
after the last byte of the character. -/
def readByte (p : Program) (holding : List Assertion) (byte : UInt8) (set : CharacterSet) (so : Option CharacterStart)
    (next : Label) (found : Found) : Found :=
  match CharacterStart.extend? so byte with
  | none => found
  | some so =>
    if !set.meets so.span.1 so.span.2 then found
    else if so.toCome = 0 then p.reach holding next found
    else found.addInside set so next

/-- What a thread leads to by a byte, added to what is found. -/
def feed (p : Program) (holding : List Assertion) (byte : UInt8) (found : Found) : Thread → Found
  | .at label =>
    match p.instructions[label]? with
    | some (.read set next) => p.readByte holding byte set none next found
    | _ => found
  | .inside set so next => p.readByte holding byte set (some so) next found

/-- The assertions that hold right after a byte. -/
def holdingAfter (byte : UInt8) : List Assertion :=
  (if byte = 10 then [.lineStart, .broadLineStart] else []) ++ if isWordByte byte then [] else [.word .noneBefore]

/-- The configuration after a byte. -/
def step (p : Program) (c : Configuration) (byte : UInt8) : Configuration :=
  let threads := p.settle c (some byte)
  let holding := holdingAfter byte
  { threads := ((threads.takeWhile (!p.isAccepting ·)).foldl (p.feed holding byte) {}).threads.reverse
    holding
    afterWord := isWordByte byte
    afterReturn := byte = 13
    accepted := threads.any p.isAccepting }

/-- Whether a run that ends here has accepted. -/
def accepts (p : Program) (c : Configuration) : Bool :=
  (p.settle c none).any p.isAccepting

end Program

/-- Whether a run can neither go on nor report anything. -/
def Configuration.isDead (c : Configuration) : Bool :=
  c.threads.isEmpty && !c.accepted

/-! ## Dead configurations -/

theorem Configuration.isDead_iff {c : Configuration} : c.isDead = true ↔ c.threads = [] ∧ c.accepted = false := by
  rw [Configuration.isDead, Bool.and_eq_true, List.isEmpty_iff, Bool.not_eq_true']

namespace Program

variable {p : Program} {c : Configuration}

/-- Without threads there is nothing to decide. -/
theorem settle_of_threads_nil (h : c.threads = []) (next : Option UInt8) : p.settle c next = [] := by
  simp only [settle, h, List.any_nil, Bool.false_eq_true, if_false]

/-- A dead configuration does not accept at the end. -/
theorem accepts_of_isDead (h : c.isDead = true) : p.accepts c = false := by
  rw [accepts, settle_of_threads_nil (Configuration.isDead_iff.1 h).1, List.any_nil]

/-- A dead configuration stays dead. -/
theorem isDead_step (byte : UInt8) (h : c.isDead = true) : (p.step c byte).isDead = true := by
  rw [Configuration.isDead_iff, step, settle_of_threads_nil (Configuration.isDead_iff.1 h).1]
  exact ⟨rfl, rfl⟩

end Program

end Graft.Pattern
