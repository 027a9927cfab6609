import Graft.Grammar.Draft
import Graft.Proofs.Blame
import Graft.Proofs.Visible

/-!
# Grammars that were checked

A draft becomes a grammar when nothing in it can be seen to be wrong without a document. Where no name stands in the rules
everything can be seen then, but for one thing: that the target of a call is a rule is left to the attempt of the call. So a
parse with such a grammar can resolve everything else, whatever the names around it mean.
-/

namespace Graft

open Engine

section

variable [Pattern.Compiler]

/-! ## Checks of lists -/

namespace Except

variable {α β : Type}

/-- A check of a list that finds nothing has found nothing in any of its entries. -/
theorem forM_eq_ok {f : α → Except Fault Unit} {list : List α} (h : list.forM f = .ok ()) : ∀ a ∈ list, f a = .ok () := by
  induction list with
  | nil => simp
  | cons a rest ih =>
    obtain ⟨_, ha, hrest⟩ := bind_eq_ok.1 h
    exact List.forall_mem_cons.2 ⟨ha, ih hrest⟩

/-- There are as many results as entries. -/
theorem length_of_mapM {f : α → Except Fault β} {list : List α} {results : List β} (h : list.mapM f = .ok results) :
    results.length = list.length := by
  induction list generalizing results with
  | nil =>
    cases h
    rfl
  | cons a rest ih =>
    rw [List.mapM_cons] at h
    obtain ⟨b, _, h⟩ := bind_eq_ok.1 h
    obtain ⟨bs, hrest, h⟩ := bind_eq_ok.1 h
    cases h
    rw [List.length_cons, List.length_cons, ih hrest]

/-- Each result is the result of the entry at its place. -/
theorem getElem?_of_mapM {f : α → Except Fault β} {list : List α} {results : List β}
    (h : list.mapM f = .ok results) {i : Nat} {a : α} (ha : list[i]? = some a) :
    ∃ b, results[i]? = some b ∧ f a = .ok b := by
  induction list generalizing results i with
  | nil => cases ha
  | cons first rest ih =>
    rw [List.mapM_cons] at h
    obtain ⟨b, hfirst, h⟩ := bind_eq_ok.1 h
    obtain ⟨bs, hrest, h⟩ := bind_eq_ok.1 h
    cases h
    cases i with
    | zero =>
      cases ha
      exact ⟨b, rfl, hfirst⟩
    | succ i => exact ih hrest ha

end Except

/-! ## Rules without names -/

/-- No name stands in a rule for a pattern, for an occurrence, for the target of a call or for an argument. -/
def RuleBody.NameFree : RuleBody → Prop
  | .consume _ pattern => pattern.kind ≠ .reference
  | .container _ edges => ∀ edge ∈ edges, edge.occurrence.kind ≠ .reference
  | .invoke call => call.target.kind ≠ .reference ∧ ∀ argument ∈ call.arguments, argument.kind ≠ .reference

/-- The children of a container are counted by occurrences, or by names for them: a child is written with nothing else. -/
def RuleBody.CountsChildren : RuleBody → Prop
  | .container _ edges => ∀ edge ∈ edges, edge.occurrence.kind = .occurrence ∨ edge.occurrence.kind = .reference
  | _ => True

/-! ## Checked grammars -/

/-- A grammar whose root is there and whose rules were all checked. -/
structure Grammar.Checked (grammar : Grammar) : Prop where
  root : grammar.root.index < grammar.size
  rules : ∀ id rule, grammar.rule? id = some rule → Grammar.checkRule grammar.rules id rule = .ok ()

/-- A draft that becomes a grammar was checked. -/
theorem Draft.build_checked {draft : Draft} {root : RuleId} {grammar : Grammar} (h : draft.build root = .ok grammar) :
    grammar.Checked := by
  rw [Draft.build] at h
  by_cases hroot : draft.slots.size ≤ root.index
  · rw [if_pos hroot] at h
    cases h
  rw [if_neg hroot] at h
  obtain ⟨rules, hrules, h⟩ := Except.bind_eq_ok.1 h
  obtain ⟨_, hchecks, h⟩ := Except.bind_eq_ok.1 h
  cases h
  refine ⟨?_, fun id rule hrule => ?_⟩
  · have hlength := Except.length_of_mapM hrules
    rw [List.length_zipIdx, Array.length_toList] at hlength
    exact Nat.lt_of_lt_of_eq (Nat.lt_of_not_le hroot) hlength.symm
  · rw [Grammar.rule?, List.getElem?_toArray] at hrule
    exact Except.forM_eq_ok hchecks (rule, id.index) (List.mem_zipIdx_iff_getElem?.2 hrule)

namespace Grammar

variable {grammar : Grammar} {rule : RuleId}

/-- A rule that has a body stands in the grammar. -/
theorem rule?_of_body? {body : RuleBody} (h : grammar.body? rule = some body) :
    ∃ known, grammar.rule? rule = some known ∧ known.body = body :=
  Option.map_eq_some_iff.1 h

/-- Every place of a grammar has a rule. -/
theorem exists_rule?_of_lt (h : rule.index < grammar.size) : ∃ known, grammar.rule? rule = some known :=
  ⟨_, Array.getElem?_eq_getElem h⟩

/-- Rules stand at places of the grammar only. -/
theorem lt_of_rule?_eq_some {known : Rule} (h : grammar.rule? rule = some known) : rule.index < grammar.size :=
  (Array.getElem?_eq_some_iff.1 h).1

namespace Checked

/-- Each rule of a checked grammar has passed its own check. -/
theorem checkRule (h : grammar.Checked) {body : RuleBody} (rules : grammar.body? rule = some body) :
    ∃ known, known.body = body ∧ Grammar.checkRule grammar.rules rule known = .ok () := by
  obtain ⟨known, hknown, hbody⟩ := rule?_of_body? rules
  exact ⟨known, hbody, h.rules rule known hknown⟩

/-- A rule consumes a pattern or what a name means. -/
theorem consume (h : grammar.Checked) {kind : ConsumeKind} {binding : Binding}
    (rules : grammar.body? rule = some (.consume kind binding)) : binding.kind = .pattern ∨ binding.kind = .reference := by
  obtain ⟨known, hbody, hcheck⟩ := h.checkRule rules
  rw [Grammar.checkRule, hbody] at hcheck
  cases binding with
  | rule id => cases hcheck
  | occurrence occurrence => cases hcheck
  | pattern pattern => exact Or.inl rfl
  | reference name => exact Or.inr rfl

/-- The children of a container are there. -/
theorem edge (h : grammar.Checked) {kind : ContainerKind} {edges : List Edge} {edge : Edge}
    (rules : grammar.body? rule = some (.container kind edges)) (mem : edge ∈ edges) : edge.rule.index < grammar.size := by
  obtain ⟨known, hbody, hcheck⟩ := h.checkRule rules
  rw [Grammar.checkRule, hbody] at hcheck
  simp only at hcheck
  split at hcheck
  · cases hcheck
  split at hcheck
  · cases hcheck
  have hreference := Except.forM_eq_ok hcheck edge mem
  rw [checkReference] at hreference
  split at hreference
  · assumption
  · cases hreference

/-- A rule that is called outright is there, and the arguments fit it as far as they are no names. -/
theorem call (h : grammar.Checked) {call : Invocation} {target : RuleId} (rules : grammar.body? rule = some (.invoke call))
    (htarget : call.target = .rule target) :
    ∃ callee values, grammar.rule? target = some callee ∧ callee.checkArguments target none call.arguments = .ok values := by
  obtain ⟨known, hbody, hcheck⟩ := h.checkRule rules
  rw [Grammar.checkRule, hbody] at hcheck
  simp only [checkCall, htarget] at hcheck
  cases hcallee : grammar.rules[target.index]? with
  | none =>
    rw [hcallee] at hcheck
    cases hcheck
  | some callee =>
    rw [hcallee] at hcheck
    obtain ⟨values, hvalues, _⟩ := Except.bind_eq_ok.1 hcheck
    exact ⟨callee, values, hcallee, hvalues⟩

/-- Rules that are there lead to rules that are there. -/
theorem leads (h : grammar.Checked) {below : RuleId} {context live : Context} (hleads : grammar.Leads rule context below live)
    (hrule : rule.index < grammar.size) : below.index < grammar.size := by
  cases hleads with
  | here => exact hrule
  | behind _ rules mem => exact h.edge rules mem
  | inside _ _ resolved =>
    obtain ⟨callee, _, _, hcallee, _⟩ := resolveCall_eq_ok resolved
    exact lt_of_rule?_eq_some hcallee

end Checked

/-- No name stands in the rules for a pattern, for an occurrence, for the target of a call or for an argument. -/
def NameFree (grammar : Grammar) : Prop :=
  ∀ rule body, grammar.body? rule = some body → body.NameFree

/-- Children are counted by occurrences, or by names for them. -/
def CountsChildren (grammar : Grammar) : Prop :=
  ∀ rule body, grammar.body? rule = some body → body.CountsChildren

/-- A fault of a call whose target is something else than a rule, and no name either. -/
inductive Misdirected (grammar : Grammar) (rule : RuleId) : Fault → Prop where
  | call {call : Invocation} (offset : Nat) (rules : grammar.body? rule = some (.invoke call))
      (target : call.target.kind ≠ .rule) : Misdirected grammar rule
        ((Fault.of (.wrongBinding call.target call.target.kind .rule)).during (.invoking rule offset))

end Grammar

/-- A binding of the kind of rules is a rule. -/
theorem Binding.exists_rule_of_kind {binding : Binding} (h : binding.kind = .rule) : ∃ rule, binding = .rule rule := by
  cases binding with
  | rule rule => exact ⟨rule, rfl⟩
  | pattern pattern => cases h
  | occurrence occurrence => cases h
  | reference name => cases h

/-- What is neither a name nor a rule is the wrong thing where a rule is wanted. -/
theorem Context.resolveRule_concrete {binding : Binding} (hname : binding.kind ≠ .reference) (hrule : binding.kind ≠ .rule)
    (context : Context) : context.resolveRule binding = .error (.of (.wrongBinding binding binding.kind .rule)) := by
  cases binding with
  | rule rule => exact absurd rfl hrule
  | pattern pattern => rfl
  | occurrence occurrence => rfl
  | reference name => exact absurd rfl hname

/-- A binding of the kind of patterns is a pattern in any context. -/
theorem Context.resolvePattern_concrete {binding : Binding} (h : binding.kind = .pattern) (context : Context) :
    ∃ pattern, context.resolvePattern binding = .ok pattern := by
  cases binding with
  | pattern pattern => exact ⟨pattern, rfl⟩
  | rule id => cases h
  | occurrence occurrence => cases h
  | reference name => cases h

/-- A binding of the kind of occurrences is an occurrence in any context. -/
theorem Context.resolveOccurrence_concrete {binding : Binding} (h : binding.kind = .occurrence) (context : Context) :
    ∃ occurrence, context.resolveOccurrence binding = .ok occurrence := by
  cases binding with
  | occurrence occurrence => exact ⟨occurrence, rfl⟩
  | rule id => cases h
  | pattern pattern => cases h
  | reference name => cases h

/-- An argument that is no name is checked alike with a context and without one. -/
theorem Parameter.check_concrete (parameter : Parameter) (callee : RuleId) (context : Context) {argument : Binding}
    (h : argument.kind ≠ .reference) : parameter.check callee (some context) argument = parameter.check callee none argument := by
  cases argument with
  | reference name => exact absurd rfl h
  | rule id => rfl
  | pattern pattern => rfl
  | occurrence occurrence => rfl

section

variable {grammar : Grammar} {rule : RuleId} {live : Context} {fault : Fault}

/-- A call of a rule is resolved, whatever the names around it mean. -/
theorem Grammar.Checked.exists_resolveCall (h : grammar.Checked) (hnames : grammar.NameFree) {call : Invocation} {target : RuleId}
    (rules : grammar.body? rule = some (.invoke call)) (htarget : call.target = .rule target) (live : Context) :
    ∃ resolved, resolveCall grammar call live = .ok resolved := by
  obtain ⟨callee, values, hcallee, hvalues⟩ := h.call rules htarget
  have harguments : callee.checkArguments target (some live) call.arguments = .ok values :=
    (callee.checkArguments_congr fun argument hm parameter =>
      parameter.check_concrete target live ((hnames _ _ rules).2 argument hm)).trans hvalues
  have hrule : live.resolveRule call.target = .ok target := by
    rw [htarget]
    rfl
  rw [resolveCall, hrule, Run.ok_bind, Grammar.getRule, hcallee, Run.ok_bind, harguments, Run.ok_bind]
  exact ⟨_, rfl⟩

/-- In a checked grammar without names nothing is to blame but a call whose target is no rule. -/
theorem Grammar.Checked.misdirected (h : grammar.Checked) (hnames : grammar.NameFree) (hcounts : grammar.CountsChildren)
    (hrule : rule.index < grammar.size) (hblames : grammar.Blames rule live fault) : grammar.Misdirected rule fault := by
  -- what each blame needs to be wrong was looked at when the grammar was checked, but for the target of a call
  cases hblames with
  | missing unknown =>
    obtain ⟨known, hknown⟩ := Grammar.exists_rule?_of_lt hrule
    rw [Grammar.getRule, hknown] at unknown
    cases unknown
  | pattern offset rules unresolved =>
    obtain ⟨pattern, hpattern⟩ := live.resolvePattern_concrete ((h.consume rules).resolve_right (hnames _ _ rules))
    cases hpattern.symm.trans unresolved
  | @occurrence _ _ _ edge rules mem unresolved =>
    obtain ⟨occurrence, hoccurrence⟩ := (edge.context live).resolveOccurrence_concrete
      ((hcounts _ _ rules edge mem).resolve_right (hnames _ _ rules edge mem))
    cases hoccurrence.symm.trans unresolved
  | @call _ call offset rules unresolved =>
    by_cases htarget : call.target.kind = .rule
    · obtain ⟨target, htarget⟩ := Binding.exists_rule_of_kind htarget
      obtain ⟨resolved, hcall⟩ := h.exists_resolveCall hnames rules htarget live
      cases hcall.symm.trans unresolved
    · rw [resolveCall, Context.resolveRule_concrete (hnames _ _ rules).1 htarget, Run.error_bind] at unresolved
      cases unresolved
      exact .call offset rules htarget

end

/-- **What a draft was checked for does not fail in a parse.** Where no name stands in the rules of a grammar that was built, a
parse does not find a rule to be undefined, whatever the names around it mean. It finds an invocation to be illegal only where
it comes to a call whose target is a pattern or an occurrence, and it finds just that. -/
theorem unresolved_of_build {draft : Draft} {root : RuleId} {grammar : Grammar} {input : String} {options : Options}
    {nextId : NodeId} {fault : Fault} (hbuild : draft.build root = .ok grammar) (hcounts : grammar.CountsChildren)
    (hnames : grammar.NameFree) (hparse : grammar.parse input options nextId = .error fault) :
    fault.kind ≠ .undefinedRule ∧
      (fault.kind = .illegalInvocation →
        ∃ rule live, grammar.Leads grammar.root options.context rule live ∧ grammar.Misdirected rule fault) := by
  have hchecked := Draft.build_checked hbuild
  have hmisdirected : fault.IsUnresolved →
      ∃ rule live, grammar.Leads grammar.root options.context rule live ∧ grammar.Misdirected rule fault := by
    intro hu
    obtain ⟨rule, live, hleads, hblames⟩ := Grammar.parse_traced hparse hu
    exact ⟨rule, live, hleads, hchecked.misdirected hnames hcounts (hchecked.leads hleads hchecked.root) hblames⟩
  constructor
  · intro hkind
    obtain ⟨rule, live, _, hm⟩ := hmisdirected (Or.inr hkind)
    cases hm
    cases hkind
  · exact fun hkind => hmisdirected (Or.inl hkind)

end

open Pattern.Regex

/-- A rule that keeps the letter a, a call whose target is an occurrence, and a container of them that begins with the call. -/
def RuleBody.callingOccurrence : List RuleBody :=
  [.consume .keep (.pattern .letterA), .invoke { target := .occurrence .once, arguments := [.pattern .letterA] },
    .container .inOrder [⟨⟨1⟩, .occurrence .once, .empty⟩, ⟨⟨0⟩, .occurrence .once, .empty⟩]]

/-- A draft of these rules. -/
def Draft.callingOccurrence : Draft where
  slots := (RuleBody.callingOccurrence.map fun body =>
    { name := none, declaring := .empty, reserved := none, body := some body }).toArray

/-- A grammar of these rules. -/
def Grammar.callingOccurrence : Grammar where
  rules := (RuleBody.callingOccurrence.map fun body => ⟨none, [], .empty, body⟩).toArray
  root := ⟨2⟩

/-- The bodies of the sample are those listed. -/
theorem Grammar.mem_callingOccurrence {rule : RuleId} {body : RuleBody}
    (h : Grammar.callingOccurrence.body? rule = some body) : body ∈ RuleBody.callingOccurrence := by
  obtain ⟨known, hknown, rfl⟩ := rule?_of_body? h
  rw [rule?, callingOccurrence, List.getElem?_toArray] at hknown
  obtain ⟨body, hbody, rfl⟩ := List.mem_map.1 (List.mem_of_getElem? hknown)
  exact hbody

theorem Grammar.nameFree_callingOccurrence : Grammar.callingOccurrence.NameFree := by
  have hbodies : ∀ body ∈ RuleBody.callingOccurrence, body.NameFree := by
    simp [RuleBody.callingOccurrence, RuleBody.NameFree, Binding.kind]
  exact fun _ body h => hbodies body (mem_callingOccurrence h)

theorem Grammar.countsChildren_callingOccurrence : Grammar.callingOccurrence.CountsChildren := by
  have hbodies : ∀ body ∈ RuleBody.callingOccurrence, body.CountsChildren := by
    simp [RuleBody.callingOccurrence, RuleBody.CountsChildren, Binding.kind]
  exact fun _ body h => hbodies body (mem_callingOccurrence h)

theorem Draft.build_callingOccurrence : Draft.callingOccurrence.build ⟨2⟩ = .ok .callingOccurrence := rfl

/-- The call finds an occurrence where it wants a rule. -/
theorem Grammar.parse_callingOccurrence : Grammar.callingOccurrence.parse "a" .plain ⟨0⟩ =
    .error ((Fault.of (.wrongBinding (.occurrence .once) .occurrence .rule)).during (.invoking ⟨1⟩ 0)) := rfl

/-- The parse comes to the call, and finds an invocation to be illegal. -/
theorem unresolved_of_build_callingOccurrence : ∃ fault rule live,
    Draft.callingOccurrence.build ⟨2⟩ = .ok .callingOccurrence ∧
      Grammar.callingOccurrence.parse "a" .plain ⟨0⟩ = .error fault ∧ fault.kind = .illegalInvocation ∧
      Grammar.callingOccurrence.Leads ⟨2⟩ .empty rule live ∧ Grammar.callingOccurrence.Misdirected rule fault := by
  obtain ⟨rule, live, hleads, hm⟩ := (unresolved_of_build Draft.build_callingOccurrence
    Grammar.countsChildren_callingOccurrence Grammar.nameFree_callingOccurrence Grammar.parse_callingOccurrence).2 rfl
  exact ⟨_, rule, live, Draft.build_callingOccurrence, Grammar.parse_callingOccurrence, rfl, hleads, hm⟩

/-- The check of a draft lets a call through whose target is an occurrence, and the parse ends in it. -/
theorem illegal_invocation_after_build :
    Draft.callingOccurrence.build ⟨2⟩ = .ok .callingOccurrence ∧ Grammar.callingOccurrence.CountsChildren ∧
      Grammar.callingOccurrence.NameFree ∧
      ∃ fault, Grammar.callingOccurrence.parse "a" .plain ⟨0⟩ = .error fault ∧ fault.kind = .illegalInvocation :=
  ⟨Draft.build_callingOccurrence, Grammar.countsChildren_callingOccurrence, Grammar.nameFree_callingOccurrence, _,
    Grammar.parse_callingOccurrence, rfl⟩

end Graft
