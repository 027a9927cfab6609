import Graft.Pattern
import Graft.Text

/-!
# Anchored matching

A match starts at the first of the bytes given and is the preferred one. Beside its length stands how many bytes had to be
looked at to be sure of it; the end of the bytes counts as one more. The run stops as soon as nothing that may follow
can change the answer.
-/

namespace Graft.Pattern

/-- The length of a match, if there is one, and how far it was looked for. -/
structure Outcome where
  length : Option Nat
  examined : Nat
  deriving DecidableEq, Repr

/-- Whether some bytes may be cut after so many of them. -/
def isCut (bytes : List UInt8) (length : Nat) : Bool :=
  match bytes.drop length with
  | [] => length == bytes.length
  | byte :: _ => Text.startsCharacter byte

variable [Compiler]

/-- Whether nothing that may follow changes what a run has reported: every byte and the end are tried. -/
def isFinal (p : Pattern) (c : Compiler.Configuration) : Bool :=
  ((List.range 256).all fun byte => Compiler.isDead (Compiler.step p.automaton c (UInt8.ofNat byte))) &&
    !Compiler.accepts p.automaton c

/-- Run on from a configuration reached after `read` bytes, with the last match reported so far. -/
def run (p : Pattern) (c : Compiler.Configuration) (read : Nat) (best : Option Nat) : List UInt8 → Outcome
  | [] => ⟨if Compiler.accepts p.automaton c then some read else best, read + 1⟩
  | byte :: rest =>
    let c := Compiler.step p.automaton c byte
    if Compiler.accepted c then
      if p.isFinal c then ⟨some read, read + 1⟩ else run p c (read + 1) (some read) rest
    else if Compiler.isDead c then ⟨best, read + 1⟩
    else run p c (read + 1) best rest

/-- The preferred match at the front of some bytes. A match that would end inside a character is none. -/
def matchFront (p : Pattern) (bytes : List UInt8) : Outcome :=
  let outcome := p.run (Compiler.initial p.automaton) 0 none bytes
  ⟨outcome.length.filter (isCut bytes), outcome.examined⟩

end Graft.Pattern
