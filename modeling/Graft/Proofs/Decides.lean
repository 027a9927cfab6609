import Mathlib.Order.Filter.AtTopBot.Basic
import Graft.Proofs.Locality

/-!
# Runs against readings

A run of the engine is compared with a family of partial results, one for each number of levels. The run decides the family
when, for almost all numbers of levels, it comes to the same result, or ends in a fault where there is none. What "almost all"
means is a filter: one number for a run whose depth is known, all large numbers for one that need only not be stopped by a
limit, which is then excused.
-/

namespace Graft

open Filter

variable [Pattern.Compiler]

/-- Whether a fault says that a limit was met or that the caller asked to stop. -/
def Fault.isStop (fault : Fault) : Prop :=
  fault.kind = .limitExceeded ∨ fault.kind = .cancelled

/-- Whether what a step comes to is decided by the grammar alone: it fails only because something is ill-formed. -/
def Except.Resolves {α : Type} (x : Except Fault α) : Prop :=
  ∀ fault, x = .error fault → fault.kind = .illegalInvocation

variable {α β γ δ : Type} {excused : Prop} {ℓ : Filter Nat}

/-- A run decides a family of partial results. -/
def Decides (excused : Prop) (ℓ : Filter Nat) (Q : α → State → β → Prop) (m : Nat → Option β) :
    Except Fault (α × State) → Prop
  | .ok (a, s) => ∃ b, (∀ᶠ n in ℓ, m n = some b) ∧ Q a s b
  | .error fault => fault.kind ≠ .parseFailed ∧ (excused ∧ fault.isStop ∨ ∀ᶠ n in ℓ, m n = none)

namespace Decides

variable {Q Q' : α → State → β → Prop} {m m' : Nat → Option β} {r : Except Fault (α × State)}

/-- More may be said of what a run comes to, also from what it decides. -/
theorem mono (h : Decides excused ℓ Q m r) (hQ : ∀ a s b, Q a s b → (∀ᶠ n in ℓ, m n = some b) → Q' a s b) :
    Decides excused ℓ Q' m r := by
  match r with
  | .ok (a, s) =>
    obtain ⟨b, hb, hq⟩ := h
    exact ⟨b, hb, hQ a s b hq hb⟩
  | .error fault => exact h

/-- Families that agree almost everywhere are decided alike. -/
theorem congr (h : Decides excused ℓ Q m r) (hm : ∀ᶠ n in ℓ, m n = m' n) : Decides excused ℓ Q m' r := by
  match r with
  | .ok (a, s) =>
    obtain ⟨b, hb, hq⟩ := h
    refine ⟨b, ?_, hq⟩
    filter_upwards [hb, hm] with n h1 h2
    rw [← h2, h1]
  | .error fault =>
    refine ⟨h.1, h.2.imp id fun hn => ?_⟩
    filter_upwards [hn, hm] with n h1 h2
    rw [← h2, h1]

/-- A result that is there is decided by coming to it. -/
theorem ok {a : α} {s : State} {b : β} (hq : Q a s b) : Decides excused ℓ Q (fun _ => some b) (.ok (a, s)) :=
  ⟨b, Eventually.of_forall fun _ => rfl, hq⟩

/-- A result that is missing is decided by a fault. -/
theorem error {fault : Fault} (hk : fault.kind ≠ .parseFailed) : Decides excused ℓ Q (fun _ => none) (.error fault) :=
  ⟨hk, Or.inr (Eventually.of_forall fun _ => rfl)⟩

/-- Runs one after the other decide results one after the other. -/
theorem bind {P : γ → State → δ → Prop} {x : Run γ} {f : γ → Run α} {s : State} {m : Nat → Option δ}
    {k : Nat → δ → Option β} (hx : Decides excused ℓ P m (x s))
    (hf : ∀ c t d, P c t d → (∀ᶠ n in ℓ, m n = some d) → Decides excused ℓ Q (fun n => k n d) (f c t)) :
    Decides excused ℓ Q (fun n => (m n).bind (k n)) ((x >>= f) s) := by
  rw [Run.bind_apply]
  match hr : x s with
  | .ok (c, t) =>
    rw [hr] at hx
    obtain ⟨d, hd, hp⟩ := hx
    rw [Run.ok_bind]
    apply (hf c t d hp hd).congr
    filter_upwards [hd] with n h
    rw [h, Option.bind_some]
  | .error fault =>
    rw [hr] at hx
    rw [Run.error_bind]
    refine ⟨hx.1, hx.2.imp id fun hn => ?_⟩
    filter_upwards [hn] with n h
    rw [h, Option.bind_none]

/-- What follows a run may change what it comes to, but not what it decides. -/
theorem andThen {P : γ → State → β → Prop} {x : Run γ} {f : γ → Run α} {s : State} (hx : Decides excused ℓ P m (x s))
    (hf : ∀ c t b, P c t b → (∀ᶠ n in ℓ, m n = some b) → Decides excused ℓ Q (fun _ => some b) (f c t)) :
    Decides excused ℓ Q m ((x >>= f) s) :=
  (hx.bind (k := fun _ => some) hf).congr (Eventually.of_forall fun _ => Option.bind_fun_some _)

/-- What is decided may be seen through a map. -/
theorem map {ε : Type} {P : α → State → ε → Prop} {F : β → ε} (h : Decides excused ℓ Q m r)
    (hQ : ∀ a s b, Q a s b → P a s (F b)) : Decides excused ℓ P (fun n => (m n).map F) r := by
  match r with
  | .ok (a, s) =>
    obtain ⟨b, hb, hq⟩ := h
    exact ⟨F b, hb.mono fun n hn => by simp only [hn, Option.map_some], hQ a s b hq⟩
  | .error fault => exact ⟨h.1, h.2.imp id fun hn => hn.mono fun n hn => by simp only [hn, Option.map_none]⟩

/-- A family whose results stay is decided when it is seen through a map. -/
theorem of_map [ℓ.NeBot] {ε : Type} {P : α → State → ε → Prop} {F : β → ε}
    (h : Decides excused ℓ P (fun n => (m n).map F) r) (hstay : ∀ n b, m n = some b → ∀ᶠ k in ℓ, m k = some b) :
    Decides excused ℓ (fun a s b => P a s (F b)) m r := by
  match r with
  | .ok (a, s) =>
    obtain ⟨x, hx, hp⟩ := h
    obtain ⟨n, hn⟩ := hx.exists
    obtain ⟨b, hb, rfl⟩ := Option.map_eq_some_iff.1 hn
    exact ⟨b, hstay n b hb, hp⟩
  | .error fault => exact ⟨h.1, h.2.imp id fun hn => hn.mono fun n hn => Option.map_eq_none_iff.1 hn⟩

/-- A family may be told from the numbers of levels that follow. -/
theorem succ (h : Decides excused ℓ Q (fun n => m (n + 1)) r) : Decides excused (ℓ.map (· + 1)) Q m r := by
  match r with
  | .ok (a, s) =>
    obtain ⟨b, hb, hq⟩ := h
    exact ⟨b, hb, hq⟩
  | .error fault => exact h

/-- A step that is resolved by the grammar alone. -/
theorem lift {x : Except Fault γ} {f : γ → Run α} {s : State} {k : Nat → γ → Option β} (hx : Except.Resolves x)
    (hf : ∀ c, x = .ok c → Decides excused ℓ Q (fun n => k n c) (f c s)) :
    Decides excused ℓ Q (fun n => x.toOption.bind (k n)) (((liftM x : Run γ) >>= f) s) := by
  rw [Run.lift_bind]
  match x with
  | .ok c => exact hf c rfl
  | .error fault => exact error (by rw [hx fault rfl]; decide)

/-- A step that is resolved by the grammar alone, at fault for some activity. -/
theorem lift_during {x : Except Fault γ} {activity : Fault.Activity} {f : γ → Run α} {s : State}
    {k : Nat → γ → Option β} (hx : Except.Resolves x)
    (hf : ∀ c, x = .ok c → Decides excused ℓ Q (fun n => k n c) (f c s)) :
    Decides excused ℓ Q (fun n => x.toOption.bind (k n))
      (((liftM (x.mapError (Fault.during activity)) : Run γ) >>= f) s) := by
  rw [Run.lift_bind]
  match x with
  | .ok c => exact hf c rfl
  | .error fault =>
    refine error ?_
    change fault.kind ≠ .parseFailed
    rw [hx fault rfl]
    decide

end Decides

/-! ## Resolution -/

namespace Except.Resolves

/-- What is found is resolved. -/
theorem ok (a : α) : Except.Resolves (.ok a : Except Fault α) := by
  intro fault h
  cases h

/-- Steps that are resolved one after the other are resolved together. -/
theorem bind {x : Except Fault α} {f : α → Except Fault β} (hx : Except.Resolves x)
    (hf : ∀ a, Except.Resolves (f a)) : Except.Resolves (x >>= f) := by
  intro fault h
  cases x with
  | ok a => exact hf a fault h
  | error other =>
    cases h
    exact hx fault rfl

/-- Words added to a fault leave its kind, and so what is resolved. -/
theorem mapError {x : Except Fault α} (hx : Except.Resolves x) (activity : Fault.Activity) :
    Except.Resolves (x.mapError (Fault.during activity)) := by
  intro fault h
  cases x with
  | ok a => cases h
  | error other =>
    cases h
    exact hx other rfl

/-- A list is resolved if each of its members is. -/
theorem mapM {f : α → Except Fault β} (hf : ∀ a, Except.Resolves (f a)) (list : List α) :
    Except.Resolves (list.mapM f) := by
  induction list with
  | nil => exact ok []
  | cons a rest ih =>
    rw [List.mapM_cons]
    exact (hf a).bind fun b => ih.bind fun bs => ok _

end Except.Resolves

/-- Variables are followed through a context until something is found or the invocation is illegal. -/
theorem Context.follow_resolves (context : Context) (start : Binding) (fuel : Nat) (binding : Binding) :
    Except.Resolves (context.follow start fuel binding) := by
  induction fuel generalizing binding with
  | zero =>
    intro fault h
    cases h
    rfl
  | succ fuel ih =>
    cases binding with
    | reference name =>
      rw [Context.follow]
      cases context.lookup name with
      | none =>
        intro fault h
        cases h
        rfl
      | some binding => exact ih binding
    | rule id => exact .ok _
    | pattern pattern => exact .ok _
    | occurrence occurrence => exact .ok _

theorem Context.resolveRule_resolves (context : Context) (binding : Binding) :
    Except.Resolves (context.resolveRule binding) := by
  refine (context.follow_resolves _ _ _).bind fun other => ?_
  intro fault h
  cases other <;> cases h <;> rfl

theorem Context.resolvePattern_resolves (context : Context) (binding : Binding) :
    Except.Resolves (context.resolvePattern binding) := by
  refine (context.follow_resolves _ _ _).bind fun other => ?_
  intro fault h
  cases other <;> cases h <;> rfl

theorem Context.resolveOccurrence_resolves (context : Context) (binding : Binding) :
    Except.Resolves (context.resolveOccurrence binding) := by
  refine (context.follow_resolves _ _ _).bind fun other => ?_
  intro fault h
  cases other <;> cases h <;> rfl

/-- A rule is got, or the invocation is illegal. -/
theorem Grammar.getRule_resolves (g : Grammar) (id : RuleId) : Except.Resolves (g.getRule id) := by
  intro fault h
  rw [Grammar.getRule] at h
  cases hr : g.rule? id with
  | some rule =>
    rw [hr] at h
    cases h
  | none =>
    rw [hr] at h
    cases h
    rfl

/-- An edge is opened, or the invocation is illegal. -/
theorem Engine.Lane.open_resolves (index : Nat) (edge : Edge) (live : Context) :
    Except.Resolves (Lane.open index edge live) :=
  ((edge.context live).resolveOccurrence_resolves _).bind fun _ => .ok _

theorem Engine.Lane.mapM_open_resolves (entries : List (Edge × Nat)) (live : Context) :
    Except.Resolves (entries.mapM fun entry => Lane.open entry.2 entry.1 live) := by
  refine Except.Resolves.mapM (fun entry => ?_) entries
  exact open_resolves entry.2 entry.1 live

/-- An argument is accepted, or the invocation is illegal. -/
theorem Parameter.check_resolves (parameter : Parameter) (callee : RuleId) (context : Context) (argument : Binding) :
    Except.Resolves (parameter.check callee (some context) argument) := by
  refine (context.follow_resolves _ _ _).bind fun value => ?_
  intro fault h
  simp only at h
  split at h
  · cases h
  · cases h
    rfl

/-- All arguments of a call are accepted, or the invocation is illegal. -/
theorem Rule.checkArguments_resolves (rule : Rule) (callee : RuleId) (context : Context) (arguments : List Binding) :
    Except.Resolves (rule.checkArguments callee (some context) arguments) := by
  intro fault h
  rw [Rule.checkArguments] at h
  split at h
  · cases h
    rfl
  · exact Except.Resolves.mapM (fun pair => pair.1.check_resolves callee context pair.2) _ fault h

/-- A call is resolved, or the invocation is illegal. -/
theorem Engine.resolveCall_resolves (grammar : Grammar) (call : Invocation) (context : Context) :
    Except.Resolves (resolveCall grammar call context) := by
  refine (context.resolveRule_resolves _).bind fun target => ?_
  refine (grammar.getRule_resolves _).bind fun callee => ?_
  exact (callee.checkArguments_resolves _ _ _).bind fun values => .ok _

end Graft
