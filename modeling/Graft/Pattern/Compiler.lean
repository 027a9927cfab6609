/-!
# Compilers

What a source means is told by the automaton that it is compiled into. Which automaton that is depends on the syntax of sources
and on what their characters stand for. Nothing here depends on either: a compiler is whatever comes to automata that read bytes
one by one and that never leave a dead configuration.
-/

namespace Graft.Pattern

/-- Why a source is no pattern. -/
inductive CompileError where
  | malformed
  | wideWords
  deriving DecidableEq, Repr

/-- A way to compile sources into automata. An automaton sees a match one byte late, as what follows may decide whether it is one;
where nothing follows, it is asked instead. -/
class Compiler where
  /-- What a source is compiled into. -/
  Automaton : Type
  /-- Where a run of an automaton stands. -/
  Configuration : Type
  /-- The automaton of a source. -/
  compile : String → Except CompileError Automaton
  /-- Where a run begins. -/
  initial : Automaton → Configuration
  /-- Where a run stands after one more byte. -/
  step : Automaton → Configuration → UInt8 → Configuration
  /-- Whether the bytes before the last one are a match. -/
  accepted : Configuration → Bool
  /-- Whether the bytes are a match when the text ends behind them. -/
  accepts : Automaton → Configuration → Bool
  /-- Whether a run can neither go on nor report anything. -/
  isDead : Configuration → Bool
  /-- A dead configuration reports no match. -/
  accepted_of_isDead {c : Configuration} : isDead c = true → accepted c = false
  /-- A dead configuration reports none at the end either. -/
  accepts_of_isDead {a : Automaton} {c : Configuration} : isDead c = true → accepts a c = false
  /-- A dead configuration stays dead. -/
  isDead_step {a : Automaton} {c : Configuration} (byte : UInt8) : isDead c = true → isDead (step a c byte) = true

end Graft.Pattern
