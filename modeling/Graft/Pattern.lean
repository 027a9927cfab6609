import Graft.Pattern.Compiler

/-!
# Patterns

A pattern is a source with the automaton it stands for. Each time a source is compiled the pattern gets a serial number, so
that patterns compiled apart are told apart even where their sources agree.
-/

namespace Graft

variable [Pattern.Compiler]

/-- A compiled pattern. -/
structure Pattern where
  serial : Nat
  source : String
  automaton : Pattern.Compiler.Automaton
  compiled : Pattern.Compiler.compile source = .ok automaton

namespace Pattern

/-- Two patterns are equal as soon as their serial numbers and sources are: the automaton follows from the source. -/
theorem eq_iff (p q : Pattern) : p = q ↔ p.serial = q.serial ∧ p.source = q.source := by
  constructor
  · rintro rfl
    exact ⟨rfl, rfl⟩
  · intro ⟨hserial, hsource⟩
    obtain ⟨serial, source, automaton, hp⟩ := p
    obtain ⟨serial', source', automaton', hq⟩ := q
    simp only at hserial hsource
    subst hserial hsource
    have : automaton = automaton' := by
      rw [hp] at hq
      exact Except.ok.inj hq
    subst this
    rfl

instance : DecidableEq Pattern := fun p q => decidable_of_iff _ (eq_iff p q).symm

instance : Hashable Pattern := ⟨fun p => hash p.serial⟩

/-- Compile a source. -/
def compile (serial : Nat) (source : String) : Except CompileError Pattern :=
  match h : Compiler.compile source with
  | .ok automaton => .ok ⟨serial, source, automaton, h⟩
  | .error e => .error e

/-- A pattern as it stands in messages. -/
def text (p : Pattern) : String :=
  "/" ++ p.source ++ "/"

end Pattern

end Graft
