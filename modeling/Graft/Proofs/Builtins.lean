import Graft.Proofs.Letters
import Graft.Proofs.Visible

/-!
# Builtin names inside invoked rules

Only builtin names are seen through an invocation. The rule that is invoked sees those of its caller, but behind a container of
it only the names of its own innermost frame are passed on, which are its arguments: there a builtin name of the caller means
nothing, unless the edges on the way were declared with it.
-/

namespace Graft

open Engine

section

variable [Pattern.Compiler]

/-- A rule that is attempted in a context has, behind containers, another rule attempted in another context. The edges on the way
are told from the outermost on. -/
inductive Grammar.Descends (grammar : Grammar) : RuleId → Context → List Edge → RuleId → Context → Prop where
  | here (rule : RuleId) (context : Context) : Descends grammar rule context [] rule context
  | behind {rule below : RuleId} {context inside : Context} {kind : ContainerKind} {edges path : List Edge} {edge : Edge}
      (rules : grammar.body? rule = some (.container kind edges)) (mem : edge ∈ edges)
      (rest : Descends grammar edge.rule (edge.context context) path below inside) :
      Descends grammar rule context (edge :: path) below inside

namespace Grammar.Descends

variable {grammar : Grammar} {rule below : RuleId} {context inside : Context} {path : List Edge}

/-- Behind a container a name that is not one of the innermost ones has the meaning that the last edge was declared with. -/
theorem lookup_eq_none (h : grammar.Descends rule context path below inside) (hne : path ≠ []) {name : String}
    (hlocals : context.locals.find? name = none) (hedges : ∀ edge ∈ path, edge.declaring.lookup name = none) :
    inside.lookup name = none := by
  induction h with
  | here => exact absurd rfl hne
  | @behind rule below context inside kind edges path edge rules mem rest ih =>
    have hlookup : (edge.context context).lookup name = none := by
      rw [Edge.context, Context.lookup_merge, hlocals, hedges edge (List.mem_cons_self ..), Option.none_or]
    cases rest with
    | here => exact hlookup
    | behind rules' mem' rest' =>
      refine ih (List.cons_ne_nil _ _) ?_ fun other hm => hedges other (List.mem_cons_of_mem _ hm)
      rw [Edge.context, Context.locals_merge, hlocals]

end Grammar.Descends

/-- The arguments of an invocation are bound to the names of the parameters. -/
theorem find?_arguments {names : List String} {values : List Binding} {name : String} (h : name ∉ names) :
    (Locals.ofList (names.zip values)).find? name = none := by
  refine Locals.find?_ofList_eq_none ?_
  rintro ⟨other, value⟩ hm rfl
  exact h (List.of_mem_zip hm).1

/-- **A builtin name of the caller is seen by the rule that is invoked, and not behind its containers.** The name is none of the
parameters, and neither the rule nor the edges on the way were declared with it. -/
theorem builtin_inside {grammar : Grammar} {call : Invocation} {live inside : Context} {target : RuleId} {callee : Rule}
    {name : String} {binding : Binding} (hbuiltin : isBuiltin name = true) (hlive : live.lookup name = some binding)
    (hconcrete : binding.kind ≠ .reference) (hcall : resolveCall grammar call live = .ok (target, inside))
    (hcallee : grammar.rule? target = some callee)
    (hparameters : ∀ parameter ∈ callee.parameters, target.parameterName parameter.name ≠ name)
    (hdeclaring : callee.declaring.locals.find? name = none) {path : List Edge} {below : RuleId} {context : Context}
    (hpath : grammar.Descends target inside path below context)
    (hedges : ∀ edge ∈ path, edge.declaring.lookup name = none) :
    context.resolve (.reference name) = if path = [] then .ok binding else .error (.of (.unresolvedName name)) := by
  obtain ⟨rule, values, _, hrule, _, rfl⟩ := resolveCall_eq_ok hcall
  obtain rfl : rule = callee := Option.some.inj (hrule.symm.trans hcallee)
  have harguments : (Locals.ofList ((rule.parameters.map fun parameter => target.parameterName parameter.name).zip
      values)).find? name = none := by
    refine find?_arguments fun hm => ?_
    obtain ⟨parameter, hp, heq⟩ := List.mem_map.1 hm
    exact hparameters parameter hp heq
  split
  · rename_i hnil
    subst hnil
    cases hpath
    refine Context.resolve_reference ?_ hconcrete
    rw [Context.lookup_invocation_builtin hbuiltin, harguments, hdeclaring, Option.none_or, Option.none_or, hlive]
  · rename_i hne
    refine Context.resolve_unresolved (hpath.lookup_eq_none hne ?_ hedges)
    rw [Context.locals_invocation, harguments]

/-- A grammar whose root invokes a container of a rule that keeps what the pattern of a builtin name matches. -/
def Grammar.hidingBuiltin : Grammar where
  rules := #[⟨none, [], .empty, .consume .keep (.reference "@p")⟩,
    ⟨none, [], .empty, .container .inOrder [⟨⟨0⟩, .occurrence .once, .empty⟩]⟩,
    ⟨none, [], .empty, .invoke { target := .rule ⟨1⟩ }⟩]
  root := ⟨2⟩

end

open Pattern.Regex

/-- A context in which a builtin name means the letter a. -/
def Context.bindingLetterA : Context :=
  .frame [("@p", .pattern .letterA)] false .empty

/-- The container sees the name of its caller, and its child does not. -/
theorem builtin_inside_hidingBuiltin : ∃ inside context : Context,
    resolveCall .hidingBuiltin { target := .rule ⟨1⟩ } .bindingLetterA = .ok (⟨1⟩, inside) ∧
      Grammar.hidingBuiltin.Descends ⟨1⟩ inside [⟨⟨0⟩, .occurrence .once, .empty⟩] ⟨0⟩ context ∧
      inside.resolve (.reference "@p") = .ok (.pattern .letterA) ∧
      context.resolve (.reference "@p") = .error (.of (.unresolvedName "@p")) := by
  have hcall : resolveCall .hidingBuiltin { target := .rule ⟨1⟩ } .bindingLetterA =
      .ok (⟨1⟩, .invocation .bindingLetterA .empty []) := rfl
  have hparameters : ∀ parameter ∈ ([] : List Parameter), RuleId.parameterName ⟨1⟩ parameter.name ≠ "@p" := by simp
  have hbuiltin : isBuiltin "@p" = true := by decide +kernel
  have hpath : Grammar.hidingBuiltin.Descends ⟨1⟩ (.invocation .bindingLetterA .empty []) [⟨⟨0⟩, .occurrence .once, .empty⟩] ⟨0⟩
      (Edge.context ⟨⟨0⟩, .occurrence .once, .empty⟩ (.invocation .bindingLetterA .empty [])) :=
    .behind (by rfl) (List.mem_singleton_self _) (.here ..)
  refine ⟨_, _, hcall, hpath, ?_, ?_⟩
  · exact builtin_inside hbuiltin rfl (by decide) hcall rfl hparameters rfl (.here ..) (by simp)
  · exact builtin_inside hbuiltin rfl (by decide : (Binding.pattern .letterA).kind ≠ .reference) hcall rfl hparameters rfl hpath
      (by simp [Context.lookup])

/-- Nothing else binds the name, and still the child of the container does not see it, so the text is not read. -/
theorem builtin_hidden_behind_container : ∃ inside context : Context,
    isBuiltin "@p" = true ∧ Context.bindingLetterA.lookup "@p" = some (.pattern .letterA) ∧
      resolveCall .hidingBuiltin { target := .rule ⟨1⟩ } .bindingLetterA = .ok (⟨1⟩, inside) ∧
      (Grammar.hidingBuiltin.rule? ⟨1⟩).map (fun callee => (callee.parameters, callee.declaring)) = some ([], .empty) ∧
      Grammar.hidingBuiltin.Descends ⟨1⟩ inside [⟨⟨0⟩, .occurrence .once, .empty⟩] ⟨0⟩ context ∧
      context.resolve (.reference "@p") ≠ .ok (.pattern .letterA) ∧
      (Grammar.hidingBuiltin.parse "a" { Options.plain with context := .bindingLetterA } ⟨0⟩).isOk = false := by
  refine ⟨.invocation .bindingLetterA .empty [], _, by decide +kernel, by decide +kernel, rfl, rfl,
    .behind (by rfl) (List.mem_singleton_self _) (.here ⟨0⟩ _), ?_, by decide +kernel⟩
  intro h
  cases h

end Graft
