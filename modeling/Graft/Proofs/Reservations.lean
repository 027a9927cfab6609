import Graft.Proofs.Checked
import Graft.Proofs.Letters

/-!
# Reservations

A draft is written by calls, each of which may fail and leave the draft as it was. A place that is reserved keeps what it is
reserved for, and once its rule is defined it keeps the rule. A place that is reserved for a kind of container takes no other kind
of container, but it takes a rule that is no container at all.
-/

namespace Graft

section

variable [Pattern.Compiler]

namespace Drafting

/-- A call that writes a draft. -/
inductive Call where
  | setScope (scope : Context)
  | setParameters (rule : RuleId) (parameters : List Parameter)
  | declare (name : Option String)
  | declareContainer (kind : ContainerKind) (name : Option String)
  | consume (kind : ConsumeKind) (pattern : Binding)
  | keep (serial : Nat) (source : String)
  | skip (serial : Nat) (source : String)
  | container (kind : ContainerKind) (children : List Child)
  | namedContainer (kind : ContainerKind) (name : String) (children : List Child)
  | invoke (invocation : Invocation)
  | defineConsume (rule : RuleId) (kind : ConsumeKind) (pattern : Binding)
  | defineContainer (rule : RuleId) (kind : ContainerKind) (children : List Child)
  | defineInvoke (rule : RuleId) (invocation : Invocation)

namespace Call

/-- What a call does, and which rule it answers. -/
def step : Call → Drafting (Option RuleId)
  | setScope scope => do
    Drafting.setScope scope
    return none
  | setParameters rule parameters => do
    Drafting.setParameters rule parameters
    return none
  | declare name => return some (← Drafting.declare name)
  | declareContainer kind name => return some (← Drafting.declareContainer kind name)
  | consume kind pattern => return some (← Drafting.consume kind pattern)
  | keep serial source => return some (← Drafting.keep serial source)
  | skip serial source => return some (← Drafting.skip serial source)
  | container kind children => return some (← Drafting.container kind children)
  | namedContainer kind name children => return some (← Drafting.namedContainer kind name children)
  | invoke invocation => return some (← Drafting.invoke invocation)
  | defineConsume rule kind pattern => return some (← Drafting.defineConsume rule kind pattern)
  | defineContainer rule kind children => return some (← Drafting.defineContainer rule kind children)
  | defineInvoke rule invocation => return some (← Drafting.defineInvoke rule invocation)

/-- The kind of container that a call reserves a place for. -/
def reserves? : Call → Option ContainerKind
  | declareContainer kind _ | container kind _ | namedContainer kind _ _ => some kind
  | _ => none

/-- Whether a call defines a rule by a body that is no container. -/
inductive Bypasses : Call → RuleId → RuleBody → Prop where
  | consume {rule : RuleId} (kind : ConsumeKind) (pattern : Binding) :
      Bypasses (defineConsume rule kind pattern) rule (.consume kind pattern)
  | invoke {rule : RuleId} (invocation : Invocation) :
      Bypasses (defineInvoke rule invocation) rule (.invoke invocation)

end Call

/-- What a step answers, and the draft that it leaves. -/
def on {α : Type} (step : Drafting α) (draft : Draft) : Except Fault α × Draft :=
  (ExceptT.run step).run draft

end Drafting

namespace Draft

/-- What a call answers, and the draft that it leaves. -/
def make (draft : Draft) (call : Drafting.Call) : Except Fault (Option RuleId) × Draft :=
  call.step.on draft

/-- The draft that calls leave, one after the other, whether they fail or not. -/
def write (draft : Draft) (calls : List Drafting.Call) : Draft :=
  calls.foldl (fun draft call => (draft.make call).2) draft

/-- The body by which a rule has been defined. -/
def body? (draft : Draft) (rule : RuleId) : Option RuleBody :=
  draft.slots[rule.index]?.bind (·.body)

/-- A draft with one more place. -/
def adding (draft : Draft) (slot : Slot) : Draft :=
  { draft with slots := draft.slots.push slot }

/-- A draft with a place written down anew. -/
def revising (draft : Draft) (rule : RuleId) (slot : Slot) : Draft :=
  { draft with slots := draft.slots.setIfInBounds rule.index slot }

end Draft

/-- Whether a place may be defined by a body: its rule is undefined, and the body is no container of a kind other than the one that
the place is reserved for. -/
structure Slot.Admits (slot : Slot) (body : RuleBody) : Prop where
  undefined : slot.body = none
  kind : ∀ kind other, slot.reserved = some kind → Drafting.containerKind? body = some other → other = kind

/-! ## Steps -/

namespace Drafting

variable {α β : Type} {draft : Draft} {rule : RuleId} {body : RuleBody}

theorem bind_on (x : Drafting α) (f : α → Drafting β) (draft : Draft) :
    (x >>= f).on draft = match x.on draft with
      | (.ok a, left) => (f a).on left
      | (.error fault, left) => (.error fault, left) := by
  change (match x draft with | (r, left) => ExceptT.bindCont f r left : Except Fault β × Draft) = _
  rw [on, ExceptT.run, StateT.run]
  rcases x draft with ⟨a | fault, left⟩ <;> rfl

theorem slot_on (rule : RuleId) : (slot rule).on draft = match draft.slots[rule.index]? with
    | some slot => (.ok slot, draft)
    | none => (.error (.of (.unknownRule rule)), draft) := by
  have h : (slot rule).on draft = (match draft.slots[rule.index]? with
    | some slot => pure slot
    | none => throw (.of (.unknownRule rule)) : Drafting Slot).on draft := rfl
  rw [h]
  cases draft.slots[rule.index]? <;> rfl

/-- A rule is defined where its place admits the body. -/
theorem define_of_admits {slot : Slot} (hslot : draft.slots[rule.index]? = some slot) (h : slot.Admits body) :
    (define rule body).on draft = (.ok rule, draft.revising rule { slot with body := some body }) := by
  obtain ⟨name, parameters, declaring, reserved, body?⟩ := slot
  obtain ⟨rfl, hkind⟩ := h
  rw [define, bind_on, slot_on, hslot]
  cases reserved with
  | none => rfl
  | some kind =>
    cases hdefined : containerKind? body with
    | none => rfl
    | some other =>
      obtain rfl := hkind kind other rfl hdefined
      simp only [ne_eq, not_true_eq_false, if_false]
      rfl

/-- Otherwise the draft stays as it is. -/
theorem define_of_not_admits (h : ∀ slot, draft.slots[rule.index]? = some slot → ¬slot.Admits body) :
    ∃ fault, (define rule body).on draft = (.error fault, draft) := by
  rw [define, bind_on, slot_on]
  cases hslot : draft.slots[rule.index]? with
  | none => exact ⟨_, rfl⟩
  | some slot =>
    have hnot := h slot hslot
    obtain ⟨name, parameters, declaring, reserved, body?⟩ := slot
    cases body? with
    | some old => exact ⟨_, rfl⟩
    | none =>
      obtain ⟨kind, other, rfl, hdefined, hne⟩ : ∃ kind other, reserved = some kind ∧
          containerKind? body = some other ∧ other ≠ kind := by
        by_contra hall
        push Not at hall
        exact hnot ⟨rfl, hall⟩
      simp only [hdefined, ne_eq, Ne.symm hne, not_false_eq_true, if_true]
      exact ⟨_, rfl⟩

/-- A container is defined with the edges that its children have where its place was reserved. -/
theorem defineContainer_on (draft : Draft) (rule : RuleId) {slot : Slot} (kind : ContainerKind) (children : List Child)
    (hslot : draft.slots[rule.index]? = some slot) :
    (defineContainer rule kind children).on draft =
      (define rule (.container kind (children.map (·.toEdge slot.declaring)))).on draft := by
  rw [defineContainer, bind_on, slot_on, hslot]

/-- A rule is defined at the place that has just been reserved for it. -/
theorem define_added {slot : Slot} (h : slot.Admits body) :
    (define ⟨draft.slots.size⟩ body).on (draft.adding slot) =
      (.ok ⟨draft.slots.size⟩, draft.adding { slot with body := some body }) := by
  rw [@define_of_admits _ (draft.adding slot) ⟨draft.slots.size⟩ body slot Array.getElem?_push_size h]
  simp [Draft.revising, Draft.adding, Array.setIfInBounds, ← Array.toList_inj]

end Drafting

/-! ## Calls -/

namespace Drafting

/-- What a call that succeeds makes of a draft, and what it answers. -/
inductive Effect (draft : Draft) : Call → Option RuleId → Draft → Prop where
  | rescoped (scope : Context) : Effect draft (.setScope scope) none { draft with scope }
  | described {rule : RuleId} {slot : Slot} (parameters : List Parameter)
      (found : draft.slots[rule.index]? = some slot) :
      Effect draft (.setParameters rule parameters) none (draft.revising rule { slot with parameters })
  | added {call : Call} (slot : Slot) (reserved : slot.reserved = call.reserves?)
      (defined : ∀ kind, call.reserves? = some kind →
        slot.body = none ∨ ∃ edges, slot.body = some (.container kind edges)) :
      Effect draft call (some ⟨draft.slots.size⟩) (draft.adding slot)
  | defined {call : Call} {rule : RuleId} {slot : Slot} {body : RuleBody} (plain : call.reserves? = none)
      (found : draft.slots[rule.index]? = some slot) (admits : slot.Admits body)
      (writes : (∃ kind edges, body = .container kind edges) ∨ call.Bypasses rule body) :
      Effect draft call (some rule) (draft.revising rule { slot with body := some body })

/-- A call fails and leaves the draft as it was, or has its effect. -/
inductive Outcome (draft : Draft) (call : Call) : Prop where
  | refused {fault : Fault} (made : draft.make call = (.error fault, draft))
  | done {answer : Option RuleId} {left : Draft} (made : draft.make call = (.ok answer, left))
      (effect : Effect draft call answer left)

variable {draft : Draft} {call : Call}

/-- A call that defines a rule. -/
theorem outcome_of_define (rule : RuleId) {body : RuleBody} (plain : call.reserves? = none)
    (writes : (∃ kind edges, body = .container kind edges) ∨ call.Bypasses rule body)
    (hstep : draft.make call = (do return some (← define rule body) : Drafting (Option RuleId)).on draft) :
    Outcome draft call := by
  rw [bind_on] at hstep
  by_cases hadmits : ∃ slot, draft.slots[rule.index]? = some slot ∧ slot.Admits body
  · obtain ⟨slot, hslot, hadmits⟩ := hadmits
    rw [define_of_admits hslot hadmits] at hstep
    exact .done hstep (.defined plain hslot hadmits writes)
  · obtain ⟨fault, hfault⟩ := define_of_not_admits fun slot hslot h => hadmits ⟨slot, hslot, h⟩
    rw [hfault] at hstep
    exact .refused hstep

/-- A call that reserves a place and defines its rule at once. -/
theorem outcome_of_added (slot : Slot) (body : RuleBody) (reserved : slot.reserved = call.reserves?)
    (admits : slot.Admits body) (writes : ∀ kind, call.reserves? = some kind → ∃ edges, body = .container kind edges)
    (hstep : draft.make call =
      (do return some (← define ⟨draft.slots.size⟩ body) : Drafting (Option RuleId)).on (draft.adding slot)) :
    Outcome draft call := by
  rw [bind_on, define_added admits] at hstep
  refine .done hstep (.added _ reserved fun kind hkind => Or.inr ?_)
  obtain ⟨edges, rfl⟩ := writes kind hkind
  exact ⟨edges, rfl⟩

/-- A call that makes a rule which consumes text. -/
theorem outcome_of_consume {kind : ConsumeKind} {pattern : Binding} (plain : call.reserves? = none)
    (hstep : draft.make call = (do return some (← consume kind pattern) : Drafting (Option RuleId)).on draft) :
    Outcome draft call :=
  outcome_of_added { name := none, declaring := draft.scope, reserved := none } (.consume kind pattern) plain.symm
    ⟨rfl, fun _ _ h => nomatch h⟩ (fun _ h => by cases plain.symm.trans h) hstep

/-- A call that makes a rule which consumes what a pattern matches, if the pattern can be read. -/
theorem outcome_of_matching (kind : ConsumeKind) (serial : Nat) (source : String) (plain : call.reserves? = none)
    (hstep : draft.make call = (do
      let pattern ← Pattern.ofSource serial source
      let rule ← consume kind (.pattern pattern)
      return some rule : Drafting (Option RuleId)).on draft) :
    Outcome draft call := by
  cases hpattern : Pattern.ofSource serial source with
  | error fault =>
    rw [hpattern] at hstep
    exact .refused hstep
  | ok pattern =>
    rw [hpattern] at hstep
    exact outcome_of_consume plain hstep

/-- A call that makes a container. -/
theorem outcome_of_container {kind : ContainerKind} {name : Option String} {children : List Child}
    (hkind : call.reserves? = some kind)
    (hstep : draft.make call = (do return some (← defineContainer (← reserve name (some kind)) kind children) :
      Drafting (Option RuleId)).on draft) :
    Outcome draft call := by
  refine outcome_of_added { name, declaring := draft.scope, reserved := some kind }
    (.container kind (children.map (·.toEdge draft.scope))) hkind.symm ⟨rfl, fun k other hk hother => ?_⟩
    (fun k hk => ?_) ?_
  · cases hk
    cases hother
    rfl
  · cases hkind.symm.trans hk
    exact ⟨_, rfl⟩
  · have hreserve : (reserve name (some kind)).on draft = (.ok ⟨draft.slots.size⟩,
        draft.adding { name, declaring := draft.scope, reserved := some kind }) := rfl
    have hdefine := defineContainer_on (draft.adding { name, declaring := draft.scope, reserved := some kind })
      ⟨draft.slots.size⟩ kind children Array.getElem?_push_size
    rw [hstep, bind_on, hreserve]
    dsimp only
    rw [bind_on, bind_on, hdefine]

/-- A rule that is no container is defined where the place admits it. -/
theorem make_of_bypasses {rule : RuleId} {slot : Slot} {body : RuleBody} (hcall : call.Bypasses rule body)
    (hslot : draft.slots[rule.index]? = some slot) (h : slot.Admits body) :
    draft.make call = (.ok (some rule), draft.revising rule { slot with body := some body }) := by
  have hstep : call.step = do return some (← define rule body) := by cases hcall <;> rfl
  rw [Draft.make, hstep, bind_on, define_of_admits hslot h]
  rfl

theorem outcome (draft : Draft) (call : Call) : Outcome draft call := by
  cases call with
  | setScope scope => exact .done rfl (.rescoped scope)
  | setParameters rule parameters =>
    have hstep : draft.make (.setParameters rule parameters) =
        (do Drafting.setParameters rule parameters; return none : Drafting (Option RuleId)).on draft := rfl
    rw [bind_on, Drafting.setParameters, bind_on, slot_on] at hstep
    cases hslot : draft.slots[rule.index]? with
    | none =>
      rw [hslot] at hstep
      exact .refused hstep
    | some slot =>
      rw [hslot] at hstep
      exact .done hstep (.described parameters hslot)
  | declare name => exact .done rfl (.added _ rfl fun _ h => nomatch h)
  | declareContainer kind name => exact .done rfl (.added _ rfl fun _ _ => Or.inl rfl)
  | consume kind pattern => exact outcome_of_consume rfl rfl
  | keep serial source =>
    refine outcome_of_matching .keep serial source rfl ?_
    rw [Draft.make, Call.step, Drafting.keep, bind_assoc]
  | skip serial source =>
    refine outcome_of_matching .skip serial source rfl ?_
    rw [Draft.make, Call.step, Drafting.skip, bind_assoc]
  | container kind children => exact outcome_of_container rfl rfl
  | namedContainer kind name children => exact outcome_of_container rfl rfl
  | invoke invocation =>
    exact outcome_of_added { name := none, declaring := draft.scope, reserved := none } (.invoke invocation)
      rfl ⟨rfl, fun _ _ h => nomatch h⟩ (fun _ h => nomatch h) rfl
  | defineConsume rule kind pattern => exact outcome_of_define rule rfl (Or.inr (.consume kind pattern)) rfl
  | defineContainer rule kind children =>
    have hstep : draft.make (.defineContainer rule kind children) =
        (do return some (← Drafting.defineContainer rule kind children) : Drafting (Option RuleId)).on draft := rfl
    cases hslot : draft.slots[rule.index]? with
    | none =>
      rw [bind_on, Drafting.defineContainer, bind_on, slot_on, hslot] at hstep
      exact .refused hstep
    | some slot =>
      refine outcome_of_define rule rfl (Or.inl ⟨kind, children.map (·.toEdge slot.declaring), rfl⟩) ?_
      rw [hstep, bind_on, bind_on, defineContainer_on draft rule kind children hslot]
  | defineInvoke rule invocation => exact outcome_of_define rule rfl (Or.inr (.invoke invocation)) rfl

end Drafting

/-! ## Places -/

/-- What a call may make of a place. It stays reserved for what it was reserved for, and its rule stays once it is defined. A place
that is reserved for a kind of container becomes a container of the kind, unless the call makes it a rule that is no container. -/
structure Slot.Becomes (call : Drafting.Call) (rule : RuleId) (slot later : Slot) : Prop where
  reserved : later.reserved = slot.reserved
  kept : ∀ body, slot.body = some body → later.body = some body
  defined : ∀ body kind, slot.body = none → later.body = some body → slot.reserved = some kind →
    (∃ edges, body = .container kind edges) ∨ call.Bypasses rule body

/-- A place that has the same reservation and the same rule. -/
theorem Slot.Becomes.of_eq {call : Drafting.Call} {rule : RuleId} {slot later : Slot} (reserved : later.reserved = slot.reserved)
    (body : later.body = slot.body) : slot.Becomes call rule later where
  reserved := reserved
  kept _ h := body.trans h
  defined _ _ hnone hsome _ := by cases (hnone.symm.trans body.symm).trans hsome

namespace Draft

/-- What a call may make of a draft: of each of its places what it may make of it. -/
def Becomes (call : Drafting.Call) (draft later : Draft) : Prop :=
  ∀ (rule : RuleId) (slot : Slot), draft.slots[rule.index]? = some slot →
    ∃ found, later.slots[rule.index]? = some found ∧ slot.Becomes call rule found

variable {draft later : Draft} {call : Drafting.Call} {calls : List Drafting.Call} {rule root : RuleId} {slot : Slot}
  {kind : ContainerKind} {body : RuleBody} {grammar : Grammar}

theorem Becomes.of_slots_eq (h : later.slots = draft.slots) : draft.Becomes call later :=
  fun _ slot hslot => ⟨slot, h ▸ hslot, .of_eq rfl rfl⟩

theorem becomes_adding (slot : Slot) : draft.Becomes call (draft.adding slot) := by
  intro rule old hold
  obtain ⟨hlt, -⟩ := Array.getElem?_eq_some_iff.1 hold
  exact ⟨old, (Array.getElem?_push_lt hlt).trans (Array.getElem?_eq_getElem hlt ▸ hold), .of_eq rfl rfl⟩

theorem slots_revising (revised : Slot) (found : draft.slots[rule.index]? = some slot) :
    (draft.revising rule revised).slots[rule.index]? = some revised :=
  Array.getElem?_setIfInBounds_self_of_lt (Array.getElem?_eq_some_iff.1 found).1

theorem becomes_revising {revised : Slot} (found : draft.slots[rule.index]? = some slot)
    (h : slot.Becomes call rule revised) : draft.Becomes call (draft.revising rule revised) := by
  intro other old hold
  by_cases hother : rule.index = other.index
  · obtain rfl : rule = other := by
      cases rule
      cases other
      exact congrArg RuleId.mk hother
    obtain rfl := Option.some.inj (found.symm.trans hold)
    exact ⟨revised, slots_revising revised found, h⟩
  · exact ⟨old, (Array.getElem?_setIfInBounds_ne hother).trans hold, .of_eq rfl rfl⟩

/-- What a call makes of a draft that it succeeds with. -/
theorem becomes_of_effect {answer : Option RuleId} (h : Drafting.Effect draft call answer later) : draft.Becomes call later := by
  cases h with
  | rescoped scope => exact .of_slots_eq rfl
  | described parameters found => exact becomes_revising found (.of_eq rfl rfl)
  | added slot reserved defined => exact becomes_adding slot
  | defined plain found admits writes =>
    refine becomes_revising found ⟨rfl, fun body h => ?_, fun body kind _ hsome hkind => ?_⟩
    · cases admits.undefined.symm.trans h
    · cases hsome
      refine writes.imp_left fun ⟨other, edges, hbody⟩ => ⟨edges, ?_⟩
      rw [admits.kind kind other hkind (hbody ▸ rfl)] at hbody
      exact hbody

theorem becomes_make (draft : Draft) (call : Drafting.Call) : draft.Becomes call (draft.make call).2 := by
  cases Drafting.outcome draft call with
  | refused made =>
    rw [made]
    exact .of_slots_eq rfl
  | done made effect =>
    rw [made]
    exact becomes_of_effect effect

/-! ## Runs of calls -/

theorem body?_eq (hslot : draft.slots[rule.index]? = some slot) : draft.body? rule = slot.body := by
  rw [body?, hslot, Option.bind_some]

theorem body?_eq_some (h : draft.body? rule = some body) : ∃ slot, draft.slots[rule.index]? = some slot ∧ slot.body = some body :=
  Option.bind_eq_some_iff.1 h

/-- Places stay, and their rules stay once they are defined. -/
theorem exists_slot_write (calls : List Drafting.Call) (hslot : draft.slots[rule.index]? = some slot) :
    ∃ later, (draft.write calls).slots[rule.index]? = some later ∧ ∀ body, slot.body = some body → later.body = some body := by
  induction calls generalizing draft slot with
  | nil => exact ⟨slot, hslot, fun _ h => h⟩
  | cons call rest ih =>
    obtain ⟨next, hnext, hbecomes⟩ := becomes_make draft call rule slot hslot
    obtain ⟨later, hlater, hkept⟩ := ih hnext
    exact ⟨later, hlater, fun body h => hkept body (hbecomes.kept body h)⟩

theorem body?_write (calls : List Drafting.Call) (h : draft.body? rule = some body) : (draft.write calls).body? rule = some body := by
  obtain ⟨slot, hslot, hbody⟩ := body?_eq_some h
  obtain ⟨later, hlater, hkept⟩ := exists_slot_write calls hslot
  exact (body?_eq hlater).trans (hkept body hbody)

/-- Whether one of the calls defines a rule by a body that is no container, when the rule is not defined yet. -/
def Bypassed (draft : Draft) (calls : List Drafting.Call) (rule : RuleId) : Prop :=
  ∃ before call after body, calls = before ++ call :: after ∧ call.Bypasses rule body ∧ (draft.write before).body? rule = none

/-- A place that is reserved for a kind of container has become a container of the kind, or it was bypassed. -/
theorem container_or_bypassed (hslot : draft.slots[rule.index]? = some slot) (hreserved : slot.reserved = some kind)
    (hnone : slot.body = none) (hbody : (draft.write calls).body? rule = some body) :
    (∃ edges, body = .container kind edges) ∨ draft.Bypassed calls rule := by
  induction calls generalizing draft slot with
  | nil => cases (hnone.symm.trans (body?_eq hslot).symm).trans hbody
  | cons call rest ih =>
    obtain ⟨next, hnext, hbecomes⟩ := becomes_make draft call rule slot hslot
    cases hdefined : next.body with
    | none =>
      refine (ih hnext (hbecomes.reserved.trans hreserved) hdefined hbody).imp_right ?_
      rintro ⟨before, bypass, after, other, rfl, hbypass, hundefined⟩
      exact ⟨call :: before, bypass, after, other, rfl, hbypass, hundefined⟩
    | some old =>
      obtain rfl : old = body := Option.some.inj ((body?_write rest ((body?_eq hnext).trans hdefined)).symm.trans hbody)
      refine (hbecomes.defined old kind hnone hdefined hreserved).imp_right fun h => ?_
      exact ⟨[], call, rest, old, rfl, h, (body?_eq hslot).trans hnone⟩

/-- The body of a bypass is taken, whatever the place is reserved for, and stays. -/
theorem body?_of_bypassed (hslot : draft.slots[rule.index]? = some slot) (h : draft.Bypassed calls rule) :
    ∃ call body, Drafting.Call.Bypasses call rule body ∧ (draft.write calls).body? rule = some body := by
  obtain ⟨before, call, after, body, rfl, hcall, hnone⟩ := h
  obtain ⟨later, hlater, -⟩ := exists_slot_write before hslot
  have hadmits : later.Admits body := ⟨(body?_eq hlater).symm.trans hnone, fun _ _ _ h => by cases hcall <;> cases h⟩
  have hmade : ((draft.write before).make call).2.body? rule = some body := by
    rw [Drafting.make_of_bypasses hcall hlater hadmits]
    exact body?_eq (slots_revising _ hlater)
  have hwrite : draft.write (before ++ call :: after) = ((draft.write before).make call).2.write after := by
    rw [write, List.foldl_append]
    rfl
  exact ⟨call, body, hcall, hwrite ▸ body?_write after hmade⟩

/-! ## Grammars -/

/-- Every place of a draft that becomes a grammar has a rule, and the grammar has the rule there. -/
theorem body?_of_build (h : draft.build root = .ok grammar) (hslot : draft.slots[rule.index]? = some slot) :
    ∃ body, slot.body = some body ∧ grammar.body? rule = some body := by
  rw [build] at h
  by_cases hroot : draft.slots.size ≤ root.index
  · rw [if_pos hroot] at h
    cases h
  rw [if_neg hroot] at h
  obtain ⟨rules, hrules, h⟩ := Except.bind_eq_ok.1 h
  obtain ⟨_, -, h⟩ := Except.bind_eq_ok.1 h
  cases h
  have hentry : draft.slots.toList.zipIdx[rule.index]? = some (slot, rule.index) := by
    rw [List.getElem?_zipIdx, Array.getElem?_toList, hslot, Option.map_some, Nat.zero_add]
  obtain ⟨known, hknown, hrule⟩ := Except.getElem?_of_mapM hrules hentry
  rw [Slot.toRule] at hrule
  cases hbody : slot.body with
  | none =>
    rw [hbody] at hrule
    cases hrule
  | some body =>
    rw [hbody] at hrule
    cases hrule
    refine ⟨body, rfl, ?_⟩
    rw [Grammar.body?, Grammar.rule?, List.getElem?_toArray, hknown]
    rfl

/-- The grammar that a draft becomes has the rules that were defined. -/
theorem body?_build (h : draft.build root = .ok grammar) (hbody : draft.body? rule = some body) :
    grammar.body? rule = some body := by
  obtain ⟨slot, hslot, hdefined⟩ := body?_eq_some hbody
  obtain ⟨_, hsome, hgrammar⟩ := body?_of_build h hslot
  cases hdefined.symm.trans hsome
  exact hgrammar

end Draft

/-! ## Reservations -/

/-- A call that reserves a place for a kind of container answers the place, and leaves it undefined or a container of the kind. -/
theorem Drafting.reserved_of_make {draft left : Draft} {call : Call} {kind : ContainerKind} {rule : RuleId}
    (h : draft.make call = (.ok (some rule), left)) (hkind : call.reserves? = some kind) :
    ∃ slot, left.slots[rule.index]? = some slot ∧ slot.reserved = some kind ∧
      (slot.body = none ∨ ∃ edges, slot.body = some (.container kind edges)) := by
  cases outcome draft call with
  | refused made => cases made.symm.trans h
  | done made effect =>
    cases made.symm.trans h
    cases effect with
    | added slot reserved defined => exact ⟨slot, Array.getElem?_push_size, reserved.trans hkind, defined kind hkind⟩
    | defined plain => cases plain.symm.trans hkind

theorem Drafting.Call.Bypasses.ne_container {call : Call} {rule : RuleId} {body : RuleBody} (h : call.Bypasses rule body)
    (kind : ContainerKind) (edges : List Edge) : body ≠ .container kind edges := by
  cases h <;> nofun

/-- A call that fails leaves the draft as it was. A rule that is defined stays as it is, in the draft and in every grammar that
the draft becomes. A place that a call has reserved for a kind of container is a container of exactly that kind in every grammar
that the draft becomes, as long as no later call has made it a rule that consumes text or invokes another while it was undefined:
such a call is taken whatever the place is reserved for. -/
theorem reservations_honoured (draft : Draft) (call : Drafting.Call) (calls : List Drafting.Call) :
    (∀ fault left, draft.make call = (.error fault, left) → left = draft) ∧
    (∀ rule body, draft.body? rule = some body → (draft.write calls).body? rule = some body ∧
      ∀ root grammar, (draft.write calls).build root = .ok grammar → grammar.body? rule = some body) ∧
    (∀ left kind rule root grammar, call.reserves? = some kind → draft.make call = (.ok (some rule), left) →
      (left.write calls).build root = .ok grammar →
      ((∃ edges, grammar.body? rule = some (.container kind edges)) ↔ ¬left.Bypassed calls rule)) := by
  refine ⟨?unchanged, ?kept, ?reserved⟩
  case unchanged =>
    intro fault left h
    cases Drafting.outcome draft call with
    | refused made =>
      cases made.symm.trans h
      rfl
    | done made effect => cases made.symm.trans h
  case kept =>
    intro rule body hbody
    have hkept := Draft.body?_write calls hbody
    exact ⟨hkept, fun root grammar hbuild => Draft.body?_build hbuild hkept⟩
  case reserved =>
    intro left kind rule root grammar hkind hmake hbuild
    obtain ⟨slot, hslot, hreserved, hdefined⟩ := Drafting.reserved_of_make hmake hkind
    constructor
    · rintro ⟨edges, hedges⟩ hbypassed
      obtain ⟨_, body, hbypass, hbody⟩ := Draft.body?_of_bypassed hslot hbypassed
      exact hbypass.ne_container kind edges (Option.some.inj ((Draft.body?_build hbuild hbody).symm.trans hedges))
    · intro hnot
      obtain hnone | ⟨edges, hedges⟩ := hdefined
      · obtain ⟨found, hfound, -⟩ := Draft.exists_slot_write calls hslot
        obtain ⟨body, hbody, hgrammar⟩ := Draft.body?_of_build hbuild hfound
        obtain ⟨edges, rfl⟩ :=
          (Draft.container_or_bypassed hslot hreserved hnone ((Draft.body?_eq hfound).trans hbody)).resolve_right hnot
        exact ⟨edges, hgrammar⟩
      · exact ⟨edges, Draft.body?_build hbuild (Draft.body?_write calls ((Draft.body?_eq hslot).trans hedges))⟩

end

open Pattern.Regex

/-- A place is reserved for a container in order. It is not taken for one in any order, and then defined as reserved. -/
theorem reservations_honoured_inOrder : ∃ draft left grammar fault,
    draft = ({} : Draft).write [.consume .keep (.pattern .letterA)] ∧
    draft.make (.declareContainer .inOrder none) = (.ok (some ⟨1⟩), left) ∧
    left.make (.defineContainer ⟨1⟩ .anyOrder [.once ⟨0⟩]) = (.error fault, left) ∧
    (left.write [.defineContainer ⟨1⟩ .anyOrder [.once ⟨0⟩], .defineContainer ⟨1⟩ .inOrder [.once ⟨0⟩]]).build ⟨1⟩ = .ok grammar ∧
    grammar.body? ⟨0⟩ = some (.consume .keep (.pattern .letterA)) ∧
    ∃ edges, grammar.body? ⟨1⟩ = some (.container .inOrder edges) := by
  let draft : Draft := { slots := #[⟨none, [], .empty, none, some (.consume .keep (.pattern .letterA))⟩] }
  let left : Draft := draft.adding ⟨none, [], .empty, some .inOrder, none⟩
  let grammar : Grammar := ⟨#[⟨none, [], .empty, .consume .keep (.pattern .letterA)⟩,
    ⟨none, [], .empty, .container .inOrder [(Child.once ⟨0⟩).toEdge .empty]⟩], ⟨1⟩⟩
  let calls : List Drafting.Call :=
    [.defineContainer ⟨1⟩ .anyOrder [.once ⟨0⟩], .defineContainer ⟨1⟩ .inOrder [.once ⟨0⟩]]
  have hbuild : (left.write calls).build ⟨1⟩ = .ok grammar := rfl
  obtain ⟨-, -, reserved⟩ := reservations_honoured draft (.declareContainer .inOrder none) calls
  obtain ⟨unchanged, kept, -⟩ := reservations_honoured left (.defineContainer ⟨1⟩ .anyOrder [.once ⟨0⟩]) calls
  obtain ⟨fault, unmade, hrefused⟩ : ∃ fault unmade,
      left.make (.defineContainer ⟨1⟩ .anyOrder [.once ⟨0⟩]) = (.error fault, unmade) := ⟨_, _, rfl⟩
  obtain rfl := unchanged _ _ hrefused
  have hkept := (kept ⟨0⟩ (.consume .keep (.pattern .letterA)) rfl).2 ⟨1⟩ grammar hbuild
  -- both calls define containers
  have hnot : ¬left.Bypassed calls ⟨1⟩ := by
    rintro ⟨before, call, after, body, hcalls, hcall, -⟩
    have hmem : call ∈ calls := hcalls ▸ List.mem_append_right before (List.mem_cons_self ..)
    rcases List.mem_pair.1 hmem with rfl | rfl <;> cases hcall
  exact ⟨draft, left, grammar, fault, rfl, rfl, hrefused, hbuild, hkept,
    (reserved left .inOrder ⟨1⟩ ⟨1⟩ grammar rfl rfl hbuild).2 hnot⟩

/-- A place that is reserved for a container in order becomes a rule that consumes text. -/
theorem exists_reserved_consume : ∃ left grammar,
    ({} : Draft).make (.declareContainer .inOrder none) = (.ok (some ⟨0⟩), left) ∧
    (left.write [.defineConsume ⟨0⟩ .keep (.pattern .letterA)]).build ⟨0⟩ = .ok grammar ∧
    ∀ kind edges, grammar.body? ⟨0⟩ ≠ some (.container kind edges) :=
  ⟨_, _, rfl, rfl, fun _ _ h => by cases h⟩

end Graft
