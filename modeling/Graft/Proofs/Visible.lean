import Graft.Engine.Invoke
import Graft.Proofs.Effects

/-!
# What is seen of a context

Contexts are built from others in two ways. The context of a child has the innermost names of the live one over those that its
edge was declared with, and the context inside an invoked rule lets only builtin names through to the caller. Each is told here
by what a name means in it.
-/

namespace Graft

open Engine

variable [Pattern.Compiler]

namespace Locals

theorem find?_cons (name other : String) (binding : Binding) (rest : Locals) :
    find? name ((other, binding) :: rest) = if name = other then some binding else rest.find? name := by
  rw [find?, List.lookup_cons]
  cases h : name == other with
  | true => rw [if_pos (beq_iff_eq.1 h)]
  | false => rw [if_neg (beq_eq_false_iff_ne.1 h), find?]

/-- A name that is bound has its new meaning, and the others keep theirs. -/
theorem find?_bind (name other : String) (binding : Binding) (locals : Locals) :
    (locals.bind other binding).find? name = if name = other then some binding else locals.find? name := by
  induction locals with
  | nil => exact find?_cons ..
  | cons entry rest ih =>
    obtain ⟨first, old⟩ := entry
    rw [bind]
    split
    · rename_i heq
      subst heq
      rw [find?_cons, find?_cons]
      split <;> rfl
    · rename_i hne
      split
      · exact find?_cons ..
      · rw [find?_cons, find?_cons, ih]
        by_cases hname : name = first
        · rw [if_pos hname, if_pos hname, if_neg (hname ▸ Ne.symm hne)]
        · rw [if_neg hname, if_neg hname]

/-- A name that is not among those that are bound means nothing. -/
theorem find?_ofList_eq_none {name : String} {bindings : List (String × Binding)} (h : ∀ entry ∈ bindings, entry.1 ≠ name) :
    (ofList bindings).find? name = none := by
  have hfold : ∀ locals : Locals, locals.find? name = none →
      (bindings.foldl (fun locals entry => bind entry.1 entry.2 locals) locals).find? name = none := by
    induction bindings with
    | nil => exact fun locals hn => hn
    | cons entry rest ih =>
      intro locals hn
      refine ih (fun other hm => h other (List.mem_cons_of_mem _ hm)) _ ?_
      rw [find?_bind, if_neg (h entry (List.mem_cons_self ..)).symm, hn]
  exact hfold [] rfl

end Locals

namespace Context

@[simp] theorem locals_nest (locals : Locals) (isSealed : Bool) (parent : Context) :
    (nest locals isSealed parent).locals = locals := by
  rw [nest]
  split
  · rename_i h
    simp only [Bool.and_eq_true, List.isEmpty_iff] at h
    exact h.1.1.symm
  · rfl

/-- A frame that is left out would not have been seen. -/
@[simp] theorem lookup_nest (name : String) (locals : Locals) (isSealed : Bool) (parent : Context) :
    (nest locals isSealed parent).lookup name = (frame locals isSealed parent).lookup name := by
  rw [nest]
  split
  · rename_i h
    simp only [Bool.and_eq_true, List.isEmpty_iff, Bool.not_eq_true', beq_iff_eq] at h
    obtain ⟨⟨rfl, rfl⟩, rfl⟩ := h
    rfl
  · rfl

/-- In the context of a child a name has the meaning that the innermost frame of the live one gives it, or else the one that it
was declared with. -/
theorem lookup_merge (name : String) (declaring live : Context) :
    (merge declaring live).lookup name = (live.locals.find? name).or (declaring.lookup name) := by
  rw [merge, lookup_nest, lookup]
  cases live.locals.find? name with
  | none => rfl
  | some binding => rfl

/-- Inside an invoked rule a builtin name is an argument, or declared with the rule, or has the meaning that it has for the
caller. -/
theorem lookup_invocation_builtin {name : String} (h : isBuiltin name = true) (live declaring : Context) (arguments : Locals) :
    (invocation live declaring arguments).lookup name =
      (arguments.find? name).or ((declaring.locals.find? name).or (live.lookup name)) := by
  rw [invocation, lookup_nest, lookup]
  cases arguments.find? name with
  | some binding => rfl
  | none =>
    simp only [h, Bool.not_true, Bool.and_false, Bool.false_eq_true, if_false, lookup_nest, lookup, Option.none_or]
    cases declaring.locals.find? name with
    | some binding => rfl
    | none => rfl

/-- Inside an invoked rule an ordinary name means nothing but an argument. -/
theorem lookup_invocation_ordinary {name : String} (h : isBuiltin name = false) (live declaring : Context)
    (arguments : Locals) : (invocation live declaring arguments).lookup name = arguments.find? name := by
  rw [invocation, lookup_nest, lookup]
  cases arguments.find? name with
  | some binding => rfl
  | none => simp only [h, Bool.not_false, Bool.and_self, if_true]

@[simp] theorem locals_merge (declaring live : Context) : (merge declaring live).locals = live.locals :=
  locals_nest ..

@[simp] theorem locals_invocation (live declaring : Context) (arguments : Locals) :
    (invocation live declaring arguments).locals = arguments :=
  locals_nest ..

/-- A name that stands for something else than a name means just that. -/
theorem resolve_reference {context : Context} {name : String} {binding : Binding} (h : context.lookup name = some binding)
    (hk : binding.kind ≠ .reference) : context.resolve (.reference name) = .ok binding := by
  rw [resolve, maxReferences, follow, h]
  cases binding with
  | reference other => exact absurd rfl hk
  | rule id => rfl
  | pattern pattern => rfl
  | occurrence occurrence => rfl

/-- A name without meaning is at fault. -/
theorem resolve_unresolved {context : Context} {name : String} (h : context.lookup name = none) :
    context.resolve (.reference name) = .error (.of (.unresolvedName name)) := by
  rw [resolve, maxReferences, follow, h]

end Context

/-- Arguments are checked alike where each of them is. -/
theorem Rule.checkArguments_congr (rule : Rule) {callee : RuleId} {arguments : List Binding} {scope scope' : Option Context}
    (h : ∀ argument ∈ arguments, ∀ parameter : Parameter,
      parameter.check callee scope argument = parameter.check callee scope' argument) :
    rule.checkArguments callee scope arguments = rule.checkArguments callee scope' arguments := by
  have hpairs : ∀ pairs : List (Parameter × Binding), (∀ pair ∈ pairs, pair.2 ∈ arguments) →
      (pairs.mapM fun pair => pair.1.check callee scope pair.2) =
        pairs.mapM fun pair => pair.1.check callee scope' pair.2 := by
    intro pairs hm
    induction pairs with
    | nil => rfl
    | cons pair rest ih =>
      rw [List.mapM_cons, List.mapM_cons, h _ (hm _ (List.mem_cons_self ..)),
        ih fun other ho => hm other (List.mem_cons_of_mem _ ho)]
  rw [Rule.checkArguments, Rule.checkArguments, hpairs _ fun pair hm => (List.of_mem_zip hm).2]

/-- What an invocation that can be resolved comes to. -/
theorem Engine.resolveCall_eq_ok {grammar : Grammar} {call : Invocation} {context inside : Context} {target : RuleId}
    (h : resolveCall grammar call context = .ok (target, inside)) :
    ∃ callee values, context.resolveRule call.target = .ok target ∧ grammar.rule? target = some callee ∧
      callee.checkArguments target (some context) call.arguments = .ok values ∧
      inside = .invocation context callee.declaring
        (Locals.ofList ((callee.parameters.map fun parameter => target.parameterName parameter.name).zip values)) := by
  obtain ⟨id, htarget, h⟩ := Except.bind_eq_ok.1 h
  obtain ⟨callee, hcallee, h⟩ := Except.bind_eq_ok.1 h
  obtain ⟨values, hvalues, h⟩ := Except.bind_eq_ok.1 h
  cases h
  refine ⟨callee, values, htarget, ?_, hvalues, rfl⟩
  rw [Grammar.getRule] at hcallee
  split at hcallee
  · cases hcallee
    assumption
  · cases hcallee

end Graft
