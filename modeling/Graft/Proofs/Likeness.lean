import Graft.Proofs.Reading
import Graft.Proofs.Steps

/-!
# Runs that are alike

Two runs on one text may be alike in what they come to, in what they add to the text of the innermost value, in how far they
reach. Which of these is meant is left open here. A likeness is any relation of runs that the steps of the engine keep, so that
runs put together from the same steps are alike whenever the attempts inside them are.
-/

namespace Graft

open Engine

variable {α β γ δ : Type}

/-! ## Outcomes -/

/-- Which of two runs a limit may stop where it does not stop the other. -/
inductive Leave where
  | neither
  | first
  | either
  deriving DecidableEq

variable [Pattern.Compiler]

/-- Two runs come to results that are related or end in the same fault, unless a limit stops one of them that has leave. -/
inductive Mirrors (leave : Leave) (Q : α → State → β → State → Prop) :
    Except Fault (α × State) → Except Fault (β × State) → Prop where
  | ok {a : α} {s : State} {b : β} {t : State} (related : Q a s b t) : Mirrors leave Q (.ok (a, s)) (.ok (b, t))
  | same (fault : Fault) : Mirrors leave Q (.error fault) (.error fault)
  | stopped {fault : Fault} {r : Except Fault (β × State)} (given : leave ≠ .neither) (limit : fault.kind = .limitExceeded) :
      Mirrors leave Q (.error fault) r
  | excused {fault : Fault} {r : Except Fault (α × State)} (given : leave = .either) (limit : fault.kind = .limitExceeded) :
      Mirrors leave Q r (.error fault)

namespace Mirrors

variable {leave : Leave} {Q : α → State → β → State → Prop} {P : γ → State → δ → State → Prop}

theorem mono {Q' : α → State → β → State → Prop} {x : Except Fault (α × State)} {y : Except Fault (β × State)}
    (h : Mirrors leave Q x y) (hQ : ∀ a s b t, Q a s b t → Q' a s b t) : Mirrors leave Q' x y := by
  cases h with
  | ok related => exact .ok (hQ _ _ _ _ related)
  | same fault => exact .same fault
  | stopped given limit => exact .stopped given limit
  | excused given limit => exact .excused given limit

/-- Runs one after the other. -/
theorem bind {x : Run α} {y : Run β} {f : α → Run γ} {g : β → Run δ} {s t : State} (h : Mirrors leave Q (x s) (y t))
    (hf : ∀ a s b t, Q a s b t → Mirrors leave P (f a s) (g b t)) :
    Mirrors leave P ((x >>= f) s) ((y >>= g) t) := by
  rw [Run.bind_apply, Run.bind_apply]
  generalize x s = r at h
  generalize y t = r' at h
  cases h with
  | ok related => exact hf _ _ _ _ related
  | same fault => exact .same fault
  | stopped given limit => exact .stopped given limit
  | excused given limit => exact .excused given limit

end Mirrors

/-! ## Likenesses -/

/-- Take back the text collected since a mark, and come to a result. -/
def Run.giveUp (mark : Nat) (result : α) : Run α := do
  Run.rollback mark
  return result

/-- A way in which runs on one text are alike, given how what they come to is related. It is kept by the steps that the rules of
the engine are made of. -/
structure Likeness (σ τ : Setting) where
  Alike {α β : Type} (R : α → β → Prop) (x : Run α) (y : Run β) : Prop
  grammar : τ.grammar = σ.grammar
  input : τ.input = σ.input
  pure {α β : Type} {R : α → β → Prop} {a : α} {b : β} (h : R a b) : Alike R (pure a) (pure b)
  fail {α β : Type} {R : α → β → Prop} (cause : Fault.Cause) : Alike R (Run.fail cause) (Run.fail cause)
  lift {α : Type} (x : Except Fault α) : Alike (· = ·) (liftM x : Run α) (liftM x : Run α)
  bind {α β γ δ : Type} {R : α → β → Prop} {S : γ → δ → Prop} {x : Run α} {y : Run β} {f : α → Run γ} {g : β → Run δ}
    (h : Alike R x y) (hf : ∀ a b, R a b → Alike S (f a) (g b)) : Alike S (x >>= f) (y >>= g)
  freshId : Alike (fun _ _ => True) Run.freshId Run.freshId
  append (text : String) : Alike (fun _ _ => True) (Run.append text) (Run.append text)
  /-- What follows a mark does not depend on it, or takes back all text since. -/
  marked {α β γ δ : Type} {R : α → β → Prop} {S : γ → δ → Prop} {x : Run α} {y : Run β} {f : Nat → α → Run γ}
    {g : Nat → β → Run δ} (h : Alike R x y)
    (hf : ∀ a b, R a b → (∀ m m', Alike S (f m a) (g m' b)) ∨
      ∃ c d, S c d ∧ (∀ m, f m a = Run.giveUp m c) ∧ ∀ m, g m b = Run.giveUp m d) :
    Alike S (Run.mark >>= fun m => x >>= f m) (Run.mark >>= fun m => y >>= g m)
  /-- What is read as a value has the same text in both runs. -/
  valued {α β γ δ : Type} {R : α → β → Prop} {S : γ → δ → Prop} {x : Run α} {y : Run β} {f : α → String → Run γ}
    {g : β → String → Run δ} (h : Alike R x y) (hf : ∀ a b text, R a b → Alike S (f a text) (g b text)) :
    Alike S (Run.openValue >>= fun _ => x >>= fun a => Run.closeValue >>= f a)
      (Run.openValue >>= fun _ => y >>= fun b => Run.closeValue >>= g b)

/-- Attempts that are the same up to identities. -/
abbrev Attempt.Same (a b : Attempt) : Prop := a.recast .bare = b.recast .bare

namespace Likeness

variable {σ τ : Setting} (L : Likeness σ τ) (A B : Attempts)

/-- Attempts from scratch are alike. -/
def Fresh : Prop :=
  ∀ rule offset context, L.Alike Attempt.Same (A.fresh rule offset context) (B.fresh rule offset context)

/-- Attempts of any rules on an earlier node are alike. -/
def Again (node : Earlier) : Prop :=
  ∀ rule offset context, L.Alike Attempt.Same (A.again rule node.1 node.2 offset context)
    (B.again rule node.1 node.2 offset context)

theorem remaining_eq (L : Likeness σ τ) (offset : Nat) : τ.remaining offset = σ.remaining offset := by
  rw [Setting.remaining, Setting.remaining, L.input]

/-- Matching depends on the input alone. -/
theorem matchAt (pattern : Pattern) (offset : Nat) :
    L.Alike (· = ·) (Run.matchAt σ pattern offset) (Run.matchAt τ pattern offset) := by
  have hb : τ.behind offset = σ.behind offset := by rw [τ.behind_eq, σ.behind_eq, L.input]
  rw [Run.matchAt, Run.matchAt, L.input, hb]
  split
  · exact L.pure rfl
  · exact L.fail _

end Likeness

end Graft
