import Graft.Proofs.Blame
import Graft.Proofs.Memo
import Graft.Proofs.Visible

/-!
# Hygiene

What an attempt does depends on its context through the innermost names and the meanings of all names only. Inside an invoked
rule both are settled by the arguments, the rule that is invoked and the builtin names of the caller. So the ordinary names of
the caller reach no attempt there, as long as the target and the arguments mean the same.
-/

namespace Graft

open Engine

section

variable [Pattern.Compiler]

/-! ## Contexts -/

namespace Context

/-- Contexts that no attempt tells apart: they have the same innermost names, and every name means the same in them. -/
structure Agrees (c c' : Context) : Prop where
  locals : c.locals = c'.locals
  lookup : ∀ name, c.lookup name = c'.lookup name

/-- Contexts in which every builtin name means the same. -/
def AgreesOnBuiltins (c c' : Context) : Prop :=
  ∀ name, isBuiltin name = true → c.lookup name = c'.lookup name

variable {c c' : Context}

theorem Agrees.onBuiltins (h : c.Agrees c') : c.AgreesOnBuiltins c' := fun name _ => h.lookup name

theorem Agrees.follow (h : c.Agrees c') (start : Binding) (fuel : Nat) (binding : Binding) :
    c.follow start fuel binding = c'.follow start fuel binding := by
  induction fuel generalizing binding with
  | zero => rfl
  | succ fuel ih =>
    cases binding with
    | reference name =>
      rw [Context.follow, Context.follow, h.lookup name]
      cases c'.lookup name with
      | none => rfl
      | some binding => exact ih binding
    | rule id => rfl
    | pattern pattern => rfl
    | occurrence occurrence => rfl

theorem Agrees.resolve (h : c.Agrees c') (binding : Binding) : c.resolve binding = c'.resolve binding :=
  h.follow _ _ _

/-- Children are attempted in one context, not just in contexts that agree. -/
theorem context_eq_of_locals (h : c.locals = c'.locals) (edge : Edge) : edge.context c = edge.context c' := by
  rw [Edge.context, Edge.context, merge, merge, h]

/-- Inside an invoked rule only the builtin names of the caller matter. -/
theorem AgreesOnBuiltins.invocation (h : c.AgreesOnBuiltins c') (declaring : Context) (arguments : Locals) :
    (invocation c declaring arguments).Agrees (invocation c' declaring arguments) where
  locals := by rw [locals_invocation, locals_invocation]
  lookup name := by
    cases hbuiltin : isBuiltin name with
    | true => rw [lookup_invocation_builtin hbuiltin, lookup_invocation_builtin hbuiltin, h name hbuiltin]
    | false => rw [lookup_invocation_ordinary hbuiltin, lookup_invocation_ordinary hbuiltin]

end Context

section

variable {c c' : Context}

theorem Parameter.check_congr (parameter : Parameter) (callee : RuleId) {argument : Binding}
    (h : c.resolve argument = c'.resolve argument) :
    parameter.check callee (some c) argument = parameter.check callee (some c') argument := by
  simp only [Parameter.check, h]

/-- Where the target and the arguments mean the same, an invocation is resolved to one rule, in contexts that agree, or it ends
in one fault. -/
theorem Engine.resolveCall_agrees (grammar : Grammar) {call : Invocation}
    (htarget : c.resolve call.target = c'.resolve call.target)
    (harguments : ∀ argument ∈ call.arguments, c.resolve argument = c'.resolve argument) (hbuiltins : c.AgreesOnBuiltins c') :
    (∃ target inside inside', resolveCall grammar call c = .ok (target, inside) ∧
        resolveCall grammar call c' = .ok (target, inside') ∧ inside.Agrees inside') ∨
      ∃ fault, resolveCall grammar call c = .error fault ∧ resolveCall grammar call c' = .error fault := by
  have hrule : c.resolveRule call.target = c'.resolveRule call.target := by rw [Context.resolveRule, Context.resolveRule, htarget]
  rw [resolveCall, resolveCall, hrule]
  cases c'.resolveRule call.target with
  | error fault => exact Or.inr ⟨fault, rfl, rfl⟩
  | ok target =>
    rw [Run.ok_bind, Run.ok_bind]
    cases grammar.getRule target with
    | error fault => exact Or.inr ⟨fault, rfl, rfl⟩
    | ok callee =>
      rw [Run.ok_bind, Run.ok_bind, callee.checkArguments_congr fun argument hm parameter =>
        parameter.check_congr target (harguments argument hm)]
      cases callee.checkArguments target (some c') call.arguments with
      | error fault => exact Or.inr ⟨fault, rfl, rfl⟩
      | ok values => exact Or.inl ⟨target, _, _, rfl, rfl, hbuiltins.invocation _ _⟩

end

/-! ## Attempts -/

section

variable {setting : Setting} {A : Attempts} {c c' : Context}

/-- Attempts from scratch that do not tell contexts apart that agree. -/
def Engine.Attempts.Hygienic (A : Attempts) : Prop :=
  ∀ rule offset c c', c.Agrees c' → A.fresh rule offset c = A.fresh rule offset c'

theorem Lane.open_congr (h : c.locals = c'.locals) (index : Nat) (edge : Edge) :
    Lane.open index edge c = Lane.open index edge c' := by
  rw [Lane.open, Lane.open, Context.context_eq_of_locals h]

/-- A container hands the innermost names of its context on to its edges, and has no other use for it. -/
theorem container_congr (h : c.locals = c'.locals) (id : RuleId) (rule : Rule) (kind : ContainerKind) (edges : List Edge)
    (earliers : Earliers) (offset : Nat) :
    container setting A id rule kind edges earliers offset c = container setting A id rule kind edges earliers offset c' := by
  have hopen : ∀ index edge, Lane.open index edge c = Lane.open index edge c' := Lane.open_congr h
  have hinOrder : ∀ entries g, readInOrder setting A id c earliers entries g = readInOrder setting A id c' earliers entries g := by
    intro entries
    induction entries with
    | nil => exact fun g => rfl
    | cons entry entries ih =>
      intro g
      simp only [readInOrder, hopen, ih]
  have hfirst : ∀ entries g, readFirst setting A id c earliers entries g = readFirst setting A id c' earliers entries g := by
    intro entries
    induction entries with
    | nil => exact fun g => rfl
    | cons entry entries ih =>
      intro g
      simp only [readFirst, hopen, ih]
  cases kind with
  | inOrder => simp only [container, inOrder, hinOrder]
  | anyOrder => simp only [container, anyOrder, hopen]
  | firstOrder => simp only [container, firstOrder, hfirst]
  | value nonEmpty => simp only [container, value, inOrder, hinOrder]

/-- An invocation whose target and arguments mean the same does the same. -/
theorem invoke_congr (hA : A.Hygienic) {call : Invocation} (htarget : c.resolve call.target = c'.resolve call.target)
    (harguments : ∀ argument ∈ call.arguments, c.resolve argument = c'.resolve argument) (hbuiltins : c.AgreesOnBuiltins c')
    (rule : RuleId) (offset : Nat) : invoke setting A rule call none offset c = invoke setting A rule call none offset c' := by
  rw [invoke, invoke]
  rcases resolveCall_agrees setting.grammar htarget harguments hbuiltins with
    ⟨target, inside, inside', h, h', hagrees⟩ | ⟨fault, h, h'⟩
  · rw [h, h']
    change (A.fresh target offset inside >>= fun attempt => wrap rule call attempt) =
      (A.fresh target offset inside' >>= fun attempt => wrap rule call attempt)
    rw [hA target offset inside inside' hagrees]
  · rw [h, h']

/-- Where contexts agree, every rule has the same body to read. -/
theorem readBody_congr (hA : A.Hygienic) (h : c.Agrees c') (rule : RuleId) (offset : Nat) :
    readBody setting A rule offset c = readBody setting A rule offset c' := by
  have hconsume : ∀ kind pattern, consume setting rule kind pattern offset c = consume setting rule kind pattern offset c' := by
    intro kind pattern
    simp only [consume, Context.resolvePattern, h.resolve]
  have hinvoke : ∀ call, invoke setting A rule call none offset c = invoke setting A rule call none offset c' := fun call =>
    invoke_congr hA (h.resolve _) (fun argument _ => h.resolve argument) h.onBuiltins rule offset
  simp only [readBody, hconsume, hinvoke, container_congr h.locals]

theorem readBody_invoke {rule : RuleId} {call : Invocation} (h : setting.grammar.body? rule = some (.invoke call))
    (offset : Nat) (context : Context) :
    readBody setting A rule offset context = invoke setting A rule call none offset context := by
  rw [Grammar.body?, Option.map_eq_some_iff] at h
  obtain ⟨known, hknown, hbody⟩ := h
  funext s
  rw [readBody, Grammar.getRule, hknown, Run.lift_bind, Run.ok_bind, hbody]

/-- Attempts of a rule whose body is read alike are alike, where nothing is remembered. -/
theorem attempt_congr (hforgets : setting.memoize = false) {rule : RuleId} {offset : Nat}
    (h : readBody setting A rule offset c = readBody setting A rule offset c') :
    attempt setting A rule offset c = attempt setting A rule offset c' := by
  rw [attempt, attempt, lookUpOrRead_forgetting hforgets, lookUpOrRead_forgetting hforgets, readAndReach, readAndReach, h]

/-- **Contexts that agree are not told apart**, where nothing is remembered. -/
theorem attempts_hygienic (hforgets : setting.memoize = false) (levels : Nat) : (attempts setting levels).Hygienic := by
  induction levels with
  | zero => exact fun rule offset c c' h => rfl
  | succ levels ih => exact fun rule offset c c' h => attempt_congr hforgets (readBody_congr ih h rule offset)

end

/-! ## Runs from two states -/

/-- What two runs without a memo come to from two states: the same up to identities, with the same text added and as far a reach
noted, or the same fault. -/
def SameRun (s t : State) : Except Fault (Attempt × State) → Except Fault (Attempt × State) → Prop
  | .ok (a, s'), .ok (b, t') =>
    a.recast .bare = b.recast .bare ∧
      (∃ text, s'.collected = (s.adding text).collected ∧ t'.collected = (t.adding text).collected) ∧
      ∃ reach, s'.furthest = max s.furthest reach ∧ t'.furthest = max t.furthest reach
  | .error fault, .error fault' => fault = fault'
  | _, _ => False

/-- Without a memo, a run does the same from all states that are as deep. -/
theorem attempts_even {setting : Setting} (hforgets : setting.memoize = false) (levels : Nat) (rule : RuleId) (offset : Nat)
    (context : Context) {s t : State} (hdepth : s.depth = t.depth) :
    SameRun s t ((attempts setting levels).fresh rule offset context s)
      ((attempts setting levels).fresh rule offset context t) := by
  have hoff : setting.memoize ≠ true := by simp [hforgets]
  have h := attempts_apace_even hforgets levels rule offset context s t
    ⟨fun hon => absurd hon hoff, fun hon => absurd hon hoff, Or.inr ⟨hdepth, fun hon => absurd hon hoff⟩,
      fun hon => absurd hon hoff⟩
  generalize (attempts setting levels).fresh rule offset context s = r at h
  generalize (attempts setting levels).fresh rule offset context t = r' at h
  cases h with
  | ok related => exact ⟨related.1, related.2.text, related.2.reach⟩
  | same fault => rfl
  | stopped given => exact absurd rfl given
  | excused given => cases given

/-! ## Attempts inside attempts -/

/-- From contexts that agree the same rules are reached, in contexts that agree. -/
theorem Grammar.Leads.agrees {grammar : Grammar} {rule below : RuleId} {c c' live : Context}
    (h : grammar.Leads rule c below live) (hc : c.Agrees c') :
    ∃ live', grammar.Leads rule c' below live' ∧ live.Agrees live' := by
  induction h with
  | here => exact ⟨c', .here, hc⟩
  | @behind owner live kind edges edge leads rules mem ih =>
    obtain ⟨live', hleads, hagrees⟩ := ih
    refine ⟨_, .behind hleads rules mem, ?_⟩
    rw [Context.context_eq_of_locals hagrees.locals]
    exact ⟨rfl, fun _ => rfl⟩
  | @inside owner target live inside call leads rules resolved ih =>
    obtain ⟨live', hleads, hagrees⟩ := ih
    rcases resolveCall_agrees grammar (hagrees.resolve call.target) (fun argument _ => hagrees.resolve argument)
        hagrees.onBuiltins with ⟨target', inside₁, inside', h, h', hinside⟩ | ⟨fault, h, _⟩
    · cases resolved.symm.trans h
      exact ⟨inside', .inside hleads rules h', hinside⟩
    · cases resolved.symm.trans h

/-- **Invocations are hygienic.** Where the target and the arguments of an invocation mean the same in two contexts, and so does
every builtin name, the invocation comes to the same from all states that are as deep. No attempt inside the rule that is
invoked tells the contexts apart. -/
theorem invocation_hygienic {setting : Setting} (hforgets : setting.memoize = false) {rule : RuleId} {call : Invocation}
    (hrule : setting.grammar.body? rule = some (.invoke call)) {c c' : Context}
    (htarget : c.resolve call.target = c'.resolve call.target)
    (harguments : ∀ argument ∈ call.arguments, c.resolve argument = c'.resolve argument)
    (hbuiltins : ∀ name, isBuiltin name = true → c.lookup name = c'.lookup name) :
    (∀ levels offset s t, s.depth = t.depth →
        SameRun s t ((attempts setting levels).fresh rule offset c s) ((attempts setting levels).fresh rule offset c' t)) ∧
      ∀ target inside, resolveCall setting.grammar call c = .ok (target, inside) →
        ∃ inside', resolveCall setting.grammar call c' = .ok (target, inside') ∧
          ∀ below live, setting.grammar.Leads target inside below live →
            ∃ live', setting.grammar.Leads target inside' below live' ∧ (∀ name, live.lookup name = live'.lookup name) ∧
              ∀ levels offset, (attempts setting levels).fresh below offset live =
                (attempts setting levels).fresh below offset live' := by
  constructor
  · intro levels offset s t hdepth
    have hcontext : (attempts setting levels).fresh rule offset c = (attempts setting levels).fresh rule offset c' := by
      cases levels with
      | zero => rfl
      | succ levels =>
        refine attempt_congr hforgets ?_
        rw [readBody_invoke hrule, readBody_invoke hrule]
        exact invoke_congr (attempts_hygienic hforgets levels) htarget harguments hbuiltins rule offset
    rw [hcontext]
    exact attempts_even hforgets levels rule offset c' hdepth
  · intro target inside hresolved
    rcases resolveCall_agrees setting.grammar htarget harguments hbuiltins with
      ⟨target', inside₁, inside', h, h', hagrees⟩ | ⟨fault, h, _⟩
    · cases hresolved.symm.trans h
      refine ⟨inside', h', fun below live hleads => ?_⟩
      obtain ⟨live', hleads', hlive⟩ := hleads.agrees hagrees
      exact ⟨live', hleads', hlive.lookup, fun levels offset => attempts_hygienic hforgets levels below offset live live' hlive⟩
    · cases hresolved.symm.trans h

/-- A grammar whose root invokes a rule that keeps what a pattern matches. -/
def Grammar.calling (p : Pattern) : Grammar where
  rules := #[⟨none, [], .empty, .consume .keep (.pattern p)⟩, ⟨none, [], .empty, .invoke { target := .rule ⟨0⟩ }⟩]
  root := ⟨1⟩

end

open Pattern.Regex

/-- A name that is not builtin makes no difference to an invocation. -/
theorem invocation_hygienic_calling : ∃ a s b t,
    (attempts (.make (.calling .letterA) "a" .plain {}) 2).fresh ⟨1⟩ 0 .empty { nextId := ⟨0⟩ } = .ok (a, s) ∧
      (attempts (.make (.calling .letterA) "a" .plain {}) 2).fresh ⟨1⟩ 0 (.frame [("x", .rule ⟨1⟩)] false .empty)
        { nextId := ⟨5⟩ } = .ok (b, t) ∧ a.recast .bare = b.recast .bare := by
  have hbuiltins : ∀ name, isBuiltin name = true →
      Context.lookup name .empty = Context.lookup name (.frame [("x", .rule ⟨1⟩)] false .empty) := by
    intro name hname
    have hne : name ≠ "x" := by
      rintro rfl
      exact absurd hname (by decide +kernel)
    rw [Context.lookup, Context.lookup, Locals.find?_cons, if_neg hne]
    rfl
  have hcallee : Run.Gives 1 0 1 ((attempts (.make (.calling .letterA) "a" .plain {}) 1).fresh ⟨0⟩ 0
      (.invocation .empty .empty [])) _ :=
    attempt_gives rfl rfl (Nat.lt_of_sub_eq_succ rfl)
      (.lift (a := ⟨none, [], .empty, .consume .keep (.pattern .letterA)⟩) rfl (consume_whole Pattern.matchFront_letterA))
  have hcall : Run.Gives 1 0 2 (invoke (.make (.calling .letterA) "a" .plain {})
      (attempts (.make (.calling .letterA) "a" .plain {}) 1) ⟨1⟩ { target := .rule ⟨0⟩ } none 0 .empty) _ :=
    .lift (a := ((⟨0⟩, .invocation .empty .empty []) : RuleId × Context)) rfl (.bind hcallee (.freshId (.pure _)))
  rw [← readBody_invoke rfl] at hcall
  obtain ⟨s, hread, _⟩ := attempt_gives rfl rfl (Nat.succ_pos 511) hcall { nextId := ⟨0⟩ } ⟨rfl, rfl, trivial⟩
  have hrule : (Setting.make (.calling .letterA) "a" .plain {}).grammar.body? ⟨1⟩ = some (.invoke { target := .rule ⟨0⟩ }) := rfl
  obtain ⟨hsame, _⟩ := invocation_hygienic (by rfl) hrule (by rfl) (by simp) hbuiltins
  have h := hsame 2 0 { nextId := ⟨0⟩ } { nextId := ⟨5⟩ } rfl
  change SameRun _ _ (attempt _ _ _ _ _ _) _ at h
  rw [hread] at h
  generalize (attempts (.make (.calling .letterA) "a" .plain {}) 2).fresh ⟨1⟩ 0 (.frame [("x", .rule ⟨1⟩)] false .empty)
    { nextId := ⟨5⟩ } = r at h
  cases r with
  | error fault => exact h.elim
  | ok r => exact ⟨_, _, r.1, r.2, hread, rfl, h.1⟩

end Graft
