import Graft.Proofs.Memo
import Graft.Proofs.Yields

/-!
# Where something cannot be resolved

A rule that is attempted attempts others in turn, each in a context of its own. A run may end because something cannot be
resolved: a rule is missing, or a binding does not mean what it has to mean where it stands. Such a fault is traced to one of
these attempts, and to what its rule could not resolve.
-/

namespace Graft

open Engine

variable [Pattern.Compiler]

/-! ## Attempts inside attempts -/

/-- A rule that is attempted in a context comes, behind containers and invocations, to another rule in another context. -/
inductive Grammar.Leads (grammar : Grammar) (rule : RuleId) (context : Context) : RuleId → Context → Prop where
  | here : Leads grammar rule context rule context
  | behind {owner : RuleId} {live : Context} {kind : ContainerKind} {edges : List Edge} {edge : Edge}
      (leads : Leads grammar rule context owner live) (rules : grammar.body? owner = some (.container kind edges))
      (mem : edge ∈ edges) : Leads grammar rule context edge.rule (edge.context live)
  | inside {owner target : RuleId} {live inside : Context} {call : Invocation}
      (leads : Leads grammar rule context owner live) (rules : grammar.body? owner = some (.invoke call))
      (resolved : resolveCall grammar call live = .ok (target, inside)) : Leads grammar rule context target inside

/-- Where a rule comes to another that comes to a third, it comes to the third. -/
theorem Grammar.Leads.trans {grammar : Grammar} {rule below last : RuleId} {context live inside : Context}
    (h : grammar.Leads rule context below live) (h' : grammar.Leads below live last inside) :
    grammar.Leads rule context last inside := by
  induction h' with
  | here => exact h
  | behind _ rules mem ih => exact .behind ih rules mem
  | inside _ rules resolved ih => exact .inside ih rules resolved

/-- What a rule cannot resolve in a context: itself, its pattern, an occurrence of its edges, or its call. -/
inductive Grammar.Blames (grammar : Grammar) (rule : RuleId) (live : Context) : Fault → Prop where
  | missing {fault : Fault} (unknown : grammar.getRule rule = .error fault) : Blames grammar rule live fault
  | pattern {fault : Fault} {kind : ConsumeKind} {binding : Binding} (offset : Nat)
      (rules : grammar.body? rule = some (.consume kind binding)) (unresolved : live.resolvePattern binding = .error fault) :
      Blames grammar rule live (fault.during (.matching rule offset))
  | occurrence {fault : Fault} {kind : ContainerKind} {edges : List Edge} {edge : Edge}
      (rules : grammar.body? rule = some (.container kind edges)) (mem : edge ∈ edges)
      (unresolved : (edge.context live).resolveOccurrence edge.occurrence = .error fault) : Blames grammar rule live fault
  | call {fault : Fault} {call : Invocation} (offset : Nat) (rules : grammar.body? rule = some (.invoke call))
      (unresolved : resolveCall grammar call live = .error fault) :
      Blames grammar rule live (fault.during (.invoking rule offset))

/-- Whether a fault says that something cannot be resolved. -/
def Fault.IsUnresolved (fault : Fault) : Prop :=
  fault.kind = .illegalInvocation ∨ fault.kind = .undefinedRule

/-- A fault is about something else, or some attempt inside an attempt is to blame for it. -/
def Grammar.Traces (grammar : Grammar) (rule : RuleId) (context : Context) (fault : Fault) : Prop :=
  fault.IsUnresolved → ∃ below live, grammar.Leads rule context below live ∧ grammar.Blames below live fault

/-! ## Runs -/

/-- A run comes to results of one sort, or ends in faults of one sort. -/
def Run.Ends {α : Type} (B : Fault → Prop) (Q : α → Prop) (x : Run α) : Prop :=
  ∀ s, match x s with
    | .ok (a, _) => Q a
    | .error fault => B fault

namespace Run.Ends

variable {α β : Type} {B : Fault → Prop} {Q : α → Prop} {R : β → Prop} {x : Run α} {f : α → Run β}

/-- A result of the sort is one that a run may come to. -/
theorem pure {a : α} (h : Q a) : Ends B Q (Pure.pure a : Run α) := fun _ => h

/-- The parts of a run end as the run does. -/
theorem bind (hx : Ends B Q x) (hf : ∀ a, Q a → Ends B R (f a)) : Ends B R (x >>= f) := by
  intro s
  have h := hx s
  rw [Run.bind_apply]
  generalize x s = r at h
  cases r with
  | error fault => exact h
  | ok r => exact hf r.1 h r.2

/-- Runs end in results and faults of a wider sort, too. -/
theorem mono {B' : Fault → Prop} {Q' : α → Prop} (hx : Ends B Q x) (hB : ∀ fault, B fault → B' fault)
    (hQ : ∀ a, Q a → Q' a) : Ends B' Q' x := by
  intro s
  have h := hx s
  generalize x s = r at h
  cases r with
  | error fault => exact hB fault h
  | ok r => exact hQ r.1 h

/-- A run that fails ends in its cause. -/
theorem fail {cause : Fault.Cause} (h : B (.of cause)) : Ends B Q (Run.fail cause : Run α) := fun _ => h

/-- A step that needs no state ends as it does without one. -/
theorem lift {e : Except Fault α} (hQ : ∀ a, e = .ok a → Q a) (hB : ∀ fault, e = .error fault → B fault) :
    Ends B Q (liftM e : Run α) := by
  intro s
  cases e with
  | error fault => exact hB fault rfl
  | ok a => exact hQ a rfl

/-- A step that always comes to a result. -/
theorem of_ok (h : ∀ s, ∃ r, x s = .ok r) : Ends B (fun _ => True) x := by
  intro s
  obtain ⟨r, hr⟩ := h s
  rw [hr]
  trivial

/-- There is always one more identity. -/
theorem freshId : Ends B (fun _ => True) Run.freshId := of_ok fun _ => ⟨_, rfl⟩

theorem mark : Ends B (fun _ => True) Run.mark := of_ok fun _ => ⟨_, rfl⟩

theorem rollback (mark : Nat) : Ends B (fun _ => True) (Run.rollback mark) := of_ok fun _ => ⟨_, rfl⟩

theorem since (mark : Nat) : Ends B (fun _ => True) (Run.since mark) := of_ok fun _ => ⟨_, rfl⟩

theorem append (text : String) : Ends B (fun _ => True) (Run.append text) := of_ok fun _ => ⟨_, rfl⟩

theorem openValue : Ends B (fun _ => True) Run.openValue := of_ok fun _ => ⟨_, rfl⟩

theorem closeValue : Ends B (fun _ => True) Run.closeValue := of_ok fun _ => ⟨_, rfl⟩

theorem leave : Ends B (fun _ => True) Run.leave := of_ok fun _ => ⟨_, rfl⟩

/-- Noting how far an attempt reached always succeeds. -/
theorem reach (a : Attempt) : Ends B (fun _ => True) (Run.reach a) := of_ok fun s => by
  obtain ⟨furthest, h⟩ := Run.reach_bind a Pure.pure s
  exact ⟨_, (congrFun (bind_pure _) s).symm.trans h⟩

/-- Remembering an attempt always succeeds, also where the memo has no room. -/
theorem remember (setting : Setting) (key : MemoKey) (entry : MemoEntry) :
    Ends B (fun _ => True) (Run.remember setting key entry) := of_ok fun s => by
  obtain ⟨memo, h, -⟩ := Run.remember_bind setting key entry Pure.pure s
  exact ⟨_, (congrFun (bind_pure _) s).symm.trans h⟩

/-- Looking into the memo always succeeds, found or not. -/
theorem lookUp (setting : Setting) (key : MemoKey) : Ends B (fun _ => True) (Run.lookUp setting key) := of_ok fun s => by
  rw [← bind_pure (Run.lookUp setting key), Run.lookUp_bind]
  split
  · split
    · exact ⟨_, rfl⟩
    · exact ⟨_, rfl⟩
  · exact ⟨_, rfl⟩

/-- Entering a rule ends a run by cancellation or by the limit of depth only. -/
theorem enter {setting : Setting} {rule : RuleId} (hcancelled : B (.of .cancelled))
    (hdepth : B (.of (.depth setting.limits.maxRuleDepth rule))) : Ends B (fun _ => True) (Run.enter setting rule) := by
  intro s
  rw [← bind_pure (Run.enter setting rule), Run.enter_bind]
  by_cases hc : setting.cancelled = true
  · rw [if_pos hc]
    exact hcancelled
  by_cases hd : setting.limits.maxRuleDepth ≤ s.depth
  · rw [if_neg hc, if_pos hd]
    exact hdepth
  · rw [if_neg hc, if_neg hd]
    trivial

end Run.Ends

/-! ## Containers -/

section

variable {B : Fault → Prop} {setting : Setting} {A : Attempts} {edges : List Edge} {live : Context}

/-- Attempts of the edges of a container end in faults of one sort, and so does opening them, or not coming to an end. -/
structure EdgesEnd (B : Fault → Prop) (A : Attempts) (edges : List Edge) (live : Context) : Prop where
  fresh : ∀ edge ∈ edges, ∀ offset, Run.Ends B (fun _ => True) (A.fresh edge.rule offset (edge.context live))
  opening : ∀ edge ∈ edges, ∀ index fault, Lane.open index edge live = .error fault → B fault
  endless : ∀ owner, B (.of (.endlessLoop owner))

variable (h : EdgesEnd B A edges live)
include h

/-- A lane attempts the rule of its edge, in the context of the edge. -/
theorem EdgesEnd.lane {lane : Lane} (hl : lane.Opens edges live) (offset : Nat) :
    Run.Ends B (fun _ => True) (A.fresh lane.edge.rule offset lane.context) := by
  rw [hl.context]
  exact h.fresh lane.edge (List.mem_of_getElem? hl.edge) offset

/-- A lane is open, or its opening is at fault. -/
theorem EdgesEnd.openLane {entry : Edge × Nat} (he : edges[entry.2]? = some entry.1) :
    Run.Ends B (fun lane => lane.Opens edges live) (liftM (Lane.open entry.2 entry.1 live) : Run Lane) :=
  .lift (fun _ hl => Lane.opens_of_open he hl) fun fault hf => h.opening _ (List.mem_of_getElem? he) _ fault hf

/-- An edge that is read from scratch is at fault for an attempt, or for too many of them. -/
theorem readFresh_ends (owner : RuleId) (budget : Nat) {p : Progress} (hl : p.lane.Opens edges live) :
    Run.Ends B (fun _ => True) (readFresh A owner budget p) := by
  induction budget generalizing p with
  | zero => exact .fail (h.endless owner)
  | succ budget ih =>
    rw [readFresh_succ]
    split
    · refine (h.lane hl _).bind fun a _ => ?_
      split
      · exact ih (hl.accept a)
      · exact .pure trivial
    · exact .pure trivial

/-- Reading an edge that has not been read before. -/
theorem readLane_ends (owner : RuleId) {p : Progress} (hl : p.lane.Opens edges live) :
    Run.Ends B (fun _ => True) (readLane setting A owner [] p) :=
  readFresh_ends h owner _ hl

/-- Edges that are read one after the other are at fault for one of them. -/
theorem readInOrder_ends (owner : RuleId) {entries : List (Edge × Nat)}
    (he : ∀ entry ∈ entries, edges[entry.2]? = some entry.1) (g : Gathering) :
    Run.Ends B (fun _ => True) (readInOrder setting A owner live {} entries g) := by
  induction entries generalizing g with
  | nil => exact .pure trivial
  | cons entry entries ih =>
    rw [readInOrder]
    refine (h.openLane (he _ (List.mem_cons_self ..))).bind fun lane hl => ?_
    refine (readLane_ends h owner (p := { gathering := g, lane }) hl).bind fun q _ => ?_
    split
    · exact ih (fun e hm => he e (List.mem_cons_of_mem _ hm)) _
    · exact .pure trivial

/-- So are the edges up to the first that will do. -/
theorem readFirst_ends (owner : RuleId) {entries : List (Edge × Nat)}
    (he : ∀ entry ∈ entries, edges[entry.2]? = some entry.1) (g : Gathering) :
    Run.Ends B (fun _ => True) (readFirst setting A owner live {} entries g) := by
  induction entries generalizing g with
  | nil => exact .pure trivial
  | cons entry entries ih =>
    have hnone : (if (Earliers.chosen {}) = some entry.2 then Earliers.ofEdge {} entry.2 else []) = [] := rfl
    rw [readFirst]
    refine (h.openLane (he _ (List.mem_cons_self ..))).bind fun lane hl => ?_
    rw [hnone]
    refine (readLane_ends h owner (p := { gathering := g, lane }) hl).bind fun q _ => ?_
    split
    · exact .pure trivial
    · split
      · exact .pure trivial
      · exact ih (fun e hm => he e (List.mem_cons_of_mem _ hm)) _

/-- Lanes are opened one after the other, and the first that cannot be opened is at fault. -/
theorem openAll_ends {entries : List (Edge × Nat)} (he : ∀ entry ∈ entries, edges[entry.2]? = some entry.1) :
    Run.Ends B (fun lanes => ∀ lane ∈ lanes, lane.Opens edges live)
      (entries.mapM fun entry => (liftM (Lane.open entry.2 entry.1 live) : Run Lane)) := by
  induction entries with
  | nil => exact .pure (by simp)
  | cons entry entries ih =>
    rw [List.mapM_cons]
    refine (h.openLane (he _ (List.mem_cons_self ..))).bind fun lane hl => ?_
    refine (ih fun e hm => he e (List.mem_cons_of_mem _ hm)).bind fun lanes hlanes => ?_
    exact .pure (List.forall_mem_cons.2 ⟨hl, hlanes⟩)

/-- A scan is at fault for the attempt of an edge. -/
theorem scan_ends {lanes : List Lane} (hl : ∀ lane ∈ lanes, lane.Opens edges live) (g : Gathering) :
    Run.Ends B (fun r => ∀ lane ∈ r.2.1, lane.Opens edges live) (scan A lanes g) := by
  induction lanes generalizing g with
  | nil => exact .pure (by simp)
  | cons lane lanes ih =>
    obtain ⟨hlane, hlanes⟩ := List.forall_mem_cons.1 hl
    rw [scan]
    split
    · refine (h.lane hlane _).bind fun a _ => ?_
      have hlane' := Lane.Opens.accept (p := { gathering := g, lane }) hlane a
      simp only
      split
      · exact .pure (List.forall_mem_cons.2 ⟨hlane', hlanes⟩)
      · exact (ih hlanes _).bind fun r hr => .pure (List.forall_mem_cons.2 ⟨hlane', hr⟩)
    · exact (ih hlanes _).bind fun r hr => .pure (List.forall_mem_cons.2 ⟨hlane, hr⟩)

/-- Scans are at fault for the attempt of an edge, or for not coming to an end. -/
theorem scanAll_ends (owner : RuleId) (budget : Nat) {lanes : List Lane} (hl : ∀ lane ∈ lanes, lane.Opens edges live)
    (g : Gathering) : Run.Ends B (fun _ => True) (scanAll A owner budget lanes g) := by
  induction budget generalizing lanes g with
  | zero => exact .fail (h.endless owner)
  | succ budget ih =>
    rw [scanAll]
    refine (scan_ends h hl g).bind fun r hr => ?_
    obtain ⟨found, lanes1, g1⟩ := r
    cases found with
    | true => exact ih hr g1
    | false => exact .pure trivial

omit h in
/-- A container that succeeds is at no fault. -/
theorem succeed_ends (g : Gathering) (rule : RuleId) (chosen : Option Nat) :
    Run.Ends B (fun _ => True) (g.succeed rule chosen) :=
  Run.Ends.freshId.bind fun _ _ => .pure trivial

/-- A container in order is at fault for one of its edges. -/
theorem inOrder_ends (rule : RuleId) (offset : Nat) :
    Run.Ends B (fun _ => True) (inOrder setting A rule edges {} offset live) := by
  rw [inOrder]
  refine Run.Ends.mark.bind fun mark _ => ?_
  refine (readInOrder_ends h rule Reading.getElem?_of_mem_zipIdx _).bind fun r _ => ?_
  obtain ⟨complete, g⟩ := r
  cases complete with
  | true => exact succeed_ends g rule none
  | false => exact (Run.Ends.rollback mark).bind fun _ _ => .pure trivial

/-- So is a container in any order. -/
theorem anyOrder_ends (rule : RuleId) (offset : Nat) :
    Run.Ends B (fun _ => True) (anyOrder setting A rule edges {} offset live) := by
  rw [anyOrder]
  refine Run.Ends.mark.bind fun mark _ => ?_
  refine (openAll_ends h Reading.getElem?_of_mem_zipIdx).bind fun lanes hlanes => ?_
  have hnone : replay A (Earliers.children {}) lanes (.begin offset) = pure (lanes, .begin offset) := rfl
  rw [hnone, pure_bind]
  refine (scanAll_ends h rule _ hlanes _).bind fun r _ => ?_
  obtain ⟨lanes1, g⟩ := r
  simp only
  split
  · exact succeed_ends g rule none
  · exact (Run.Ends.rollback mark).bind fun _ _ => .pure trivial

/-- So is a container of the first of its children that fits. -/
theorem firstOrder_ends (rule : RuleId) (offset : Nat) :
    Run.Ends B (fun _ => True) (firstOrder setting A rule edges {} offset live) := by
  rw [firstOrder]
  refine Run.Ends.mark.bind fun mark _ => ?_
  refine (readFirst_ends h rule Reading.getElem?_of_mem_zipIdx _).bind fun r _ => ?_
  obtain ⟨choice, g⟩ := r
  cases choice with
  | chosen index => exact succeed_ends g rule (some index)
  | broken => exact (Run.Ends.rollback mark).bind fun _ _ => .pure trivial
  | none => exact .pure trivial

/-- A value is at fault where its children are. -/
theorem value_ends (rule : RuleId) (name : String) (nonEmpty : Bool) (offset : Nat) :
    Run.Ends B (fun _ => True) (value setting A rule name nonEmpty edges {} offset live) := by
  rw [value]
  refine Run.Ends.openValue.bind fun _ _ => ?_
  refine (inOrder_ends h rule offset).bind fun body _ => ?_
  refine Run.Ends.closeValue.bind fun text _ => ?_
  cases body.statement with
  | none => exact .pure trivial
  | some statement =>
    simp only
    split
    · exact .pure trivial
    · exact Run.Ends.freshId.bind fun _ _ => .pure trivial

omit h in
/-- Showing what a call comes to is at no fault. -/
theorem wrap_ends (rule : RuleId) (call : Invocation) (a : Attempt) : Run.Ends B (fun _ => True) (wrap rule call a) := by
  rw [wrap]
  cases a.statement with
  | none => exact .pure trivial
  | some statement => exact Run.Ends.freshId.bind fun _ _ => .pure trivial

/-- A container of any kind is at fault for one of its edges. -/
theorem container_ends (id : RuleId) (rule : Rule) (kind : ContainerKind) (offset : Nat) :
    Run.Ends B (fun _ => True) (container setting A id rule kind edges {} offset live) := by
  cases kind with
  | inOrder => exact inOrder_ends h id offset
  | anyOrder => exact anyOrder_ends h id offset
  | firstOrder => exact firstOrder_ends h id offset
  | value nonEmpty => exact value_ends h id _ nonEmpty offset

end

/-! ## Attempts -/

/-- A fault of another kind needs no attempt to blame. -/
theorem Grammar.Traces.of_kind {grammar : Grammar} {rule : RuleId} {context : Context} {fault : Fault} (kind : Fault.Kind)
    (hkind : fault.kind = kind) (h : kind ≠ .illegalInvocation ∧ kind ≠ .undefinedRule) : grammar.Traces rule context fault := by
  subst hkind
  exact fun hu => (hu.elim h.1 h.2).elim

/-- A fault that the rule itself is to blame for. -/
theorem Grammar.Traces.of_blames {grammar : Grammar} {rule : RuleId} {context : Context} {fault : Fault}
    (h : grammar.Blames rule context fault) : grammar.Traces rule context fault :=
  fun _ => ⟨rule, context, .here, h⟩

/-- A fault that is traced to an attempt inside an attempt is traced to it from there, too. -/
theorem Grammar.Traces.of_leads {grammar : Grammar} {rule below : RuleId} {context live : Context} {fault : Fault}
    (h : grammar.Traces below live fault) (hleads : grammar.Leads rule context below live) :
    grammar.Traces rule context fault := by
  intro hu
  obtain ⟨last, inside, hlast, hblames⟩ := h hu
  exact ⟨last, inside, hleads.trans hlast, hblames⟩

/-- Attempts from scratch end in faults that can be traced. -/
def Engine.Attempts.Traced (grammar : Grammar) (A : Attempts) : Prop :=
  ∀ rule offset context, Run.Ends (grammar.Traces rule context) (fun _ => True) (A.fresh rule offset context)

section

variable {setting : Setting} {A : Attempts} {rule : RuleId} {offset : Nat} {context : Context}

/-- A fault that tells what was being done is about another fault. -/
theorem Except.eq_error_of_mapError {α : Type} {e : Except Fault α} {f : Fault → Fault} {fault : Fault}
    (h : e.mapError f = .error fault) : ∃ inner, e = .error inner ∧ fault = f inner := by
  cases e with
  | error inner =>
    cases h
    exact ⟨inner, rfl, rfl⟩
  | ok a => cases h

/-- A rule that matches a pattern is to blame where the pattern cannot be resolved. Its other faults are violations. -/
theorem consume_traced {kind : ConsumeKind} {binding : Binding}
    (rules : setting.grammar.body? rule = some (.consume kind binding)) :
    Run.Ends (setting.grammar.Traces rule context) (fun _ => True) (consume setting rule kind binding offset context) := by
  have hother : ∀ cause : Fault.Cause, cause.kind = .invariantViolation → setting.grammar.Traces rule context (.of cause) :=
    fun _ hc => .of_kind .invariantViolation hc (by decide)
  rw [consume]
  refine (Run.Ends.lift (Q := fun _ => True) (fun _ _ => trivial) ?_).bind fun pattern _ => ?_
  · intro fault hf
    obtain ⟨inner, hinner, rfl⟩ := Except.eq_error_of_mapError hf
    exact .of_blames (.pattern offset rules hinner)
  have hmatch : Run.Ends (setting.grammar.Traces rule context) (fun _ => True) (Run.matchAt setting pattern offset) := by
    rw [Run.matchAt]
    split
    · exact .pure trivial
    · exact .fail (hother _ rfl)
  refine hmatch.bind fun outcome _ => ?_
  cases outcome.length with
  | none => exact .pure trivial
  | some length =>
    simp only
    cases Text.slice? setting.input offset (offset + length) with
    | none => exact .fail (hother _ rfl)
    | some text =>
      cases kind with
      | keep => exact (Run.Ends.append text).bind fun _ _ => Run.Ends.freshId.bind fun _ _ => .pure trivial
      | skip => exact Run.Ends.freshId.bind fun _ _ => .pure trivial

/-- A container is to blame for an occurrence that cannot be resolved; other faults are those of attempts that it leads to. -/
theorem container_traced (hA : A.Traced setting.grammar) {known : Rule} {kind : ContainerKind} {edges : List Edge}
    (rules : setting.grammar.body? rule = some (.container kind edges)) :
    Run.Ends (setting.grammar.Traces rule context) (fun _ => True)
      (container setting A rule known kind edges {} offset context) := by
  refine container_ends ⟨?_, ?_, fun _ => .of_kind .invariantViolation rfl (by decide)⟩ rule known kind offset
  · intro edge hm offset
    exact (hA edge.rule offset (edge.context context)).mono (fun _ ht => ht.of_leads (.behind .here rules hm)) fun _ h => h
  · intro edge hm index fault hf
    refine .of_blames (.occurrence rules hm ?_)
    rw [Lane.open] at hf
    cases ho : (edge.context context).resolveOccurrence edge.occurrence with
    | error inner =>
      rw [ho] at hf
      cases hf
      rfl
    | ok occurrence =>
      rw [ho] at hf
      cases hf

/-- A call is to blame where it cannot be resolved; other faults are those of the attempt that it leads to. -/
theorem invoke_traced (hA : A.Traced setting.grammar) {call : Invocation}
    (rules : setting.grammar.body? rule = some (.invoke call)) :
    Run.Ends (setting.grammar.Traces rule context) (fun _ => True) (invoke setting A rule call none offset context) := by
  rw [invoke]
  refine (Run.Ends.lift (Q := fun r => resolveCall setting.grammar call context = .ok r) ?_ ?_).bind ?_
  · exact fun r hr => Except.mapError_eq_ok.1 hr
  · intro fault hf
    obtain ⟨inner, hinner, rfl⟩ := Except.eq_error_of_mapError hf
    exact .of_blames (.call offset rules hinner)
  · rintro ⟨target, inside⟩ hcall
    refine ((hA target offset inside).mono (fun _ ht => ht.of_leads (.inside .here rules hcall)) fun _ h => h).bind fun a _ => ?_
    exact wrap_ends rule call a

/-- A rule that is missing is to blame itself. -/
theorem readBody_traced (hA : A.Traced setting.grammar) :
    Run.Ends (setting.grammar.Traces rule context) (fun _ => True) (readBody setting A rule offset context) := by
  rw [readBody]
  refine (Run.Ends.lift (Q := fun known => setting.grammar.getRule rule = .ok known) (fun _ h => h) ?_).bind ?_
  · exact fun fault hf => .of_blames (.missing hf)
  · intro known hk
    have rules := Grammar.body?_of_getRule hk
    cases hbody : known.body with
    | consume kind binding => exact consume_traced (hbody ▸ rules)
    | container kind edges => exact container_traced hA (hbody ▸ rules)
    | invoke call => exact invoke_traced hA (hbody ▸ rules)

/-- The faults of an attempt are those of its body, as what is found in the memo is at no fault. -/
theorem lookUpOrRead_traced (hA : A.Traced setting.grammar) :
    Run.Ends (setting.grammar.Traces rule context) (fun _ => True) (lookUpOrRead setting A rule offset context) := by
  rw [lookUpOrRead]
  refine (Run.Ends.lookUp setting _).bind fun found _ => ?_
  cases found with
  | some a => exact .pure trivial -- whatever is remembered, it is no fault
  | none =>
    refine Run.Ends.mark.bind fun mark _ => (readBody_traced hA).bind fun a _ => ?_
    refine (Run.Ends.reach a).bind fun _ _ => (Run.Ends.since mark).bind fun appended _ => ?_
    exact (Run.Ends.remember setting _ _).bind fun _ _ => .pure trivial

/-- Entering a rule is at fault for other reasons. -/
theorem attempt_traced (hA : A.Traced setting.grammar) :
    Run.Ends (setting.grammar.Traces rule context) (fun _ => True) (attempt setting A rule offset context) := by
  rw [attempt]
  refine (Run.Ends.enter ?_ ?_).bind fun _ _ => ?_
  · exact .of_kind .cancelled rfl (by decide)
  · exact .of_kind .limitExceeded rfl (by decide)
  · exact (lookUpOrRead_traced hA).bind fun _ _ => Run.Ends.leave.bind fun _ _ => .pure trivial

/-- A run that cannot resolve something is traced to an attempt, and to what its rule could not resolve. -/
theorem attempts_traced (setting : Setting) (levels : Nat) : (attempts setting levels).Traced setting.grammar := by
  induction levels with
  | zero => exact fun rule offset context => .fail (.of_kind .limitExceeded rfl (by decide))
  | succ levels ih => exact fun rule offset context => attempt_traced ih

end

/-! ## Parses -/

/-- A run that makes no tree has not matched its input. -/
theorem Tree.cause_of_ofRun {input : String} {unmatched : Nat → Nat → Fault.Cause} {a : Attempt} {s : State} {fault : Fault}
    (h : Tree.ofRun input unmatched a s = .error fault) : ∃ size furthest, fault.cause = unmatched size furthest := by
  rw [Tree.ofRun] at h
  split at h
  · split at h
    · cases h
    · cases h
      exact ⟨_, _, rfl⟩
  · cases h
    exact ⟨_, _, rfl⟩

/-- **A parse that cannot resolve something can be traced** to an attempt that its root leads to, and to what the rule could
not resolve there. -/
theorem Grammar.parse_traced {grammar : Grammar} {input : String} {options : Options} {nextId : NodeId} {fault : Fault}
    (h : grammar.parse input options nextId = .error fault) : grammar.Traces grammar.root options.context fault := by
  rw [Grammar.parse_eq] at h
  cases hinput : options.limits.checkInput input with
  | error limit =>
    rw [hinput] at h
    cases h
    rw [Limits.checkInput] at hinput
    split at hinput
    · cases hinput
      exact .of_kind .limitExceeded rfl (by decide)
    · cases hinput
  | ok =>
    rw [hinput, Run.ok_bind] at h
    have hroot : Run.Ends (grammar.Traces grammar.root options.context) (fun _ => True)
        ((atRoot (.make grammar input options {})).fresh grammar.root 0 options.context) :=
      attempts_traced (.make grammar input options {}) _ grammar.root 0 options.context
    have hroot := hroot { nextId }
    generalize (atRoot (.make grammar input options {})).fresh grammar.root 0 options.context { nextId } = x at h hroot
    cases x with
    | error inner =>
      cases h
      exact hroot
    | ok r =>
      rw [Run.ok_bind] at h
      cases htree : Tree.ofRun input .unmatchedInput r.1 r.2 with
      | ok tree =>
        simp only [htree] at h
        cases h
      | error inner =>
        simp only [htree] at h
        cases h
        obtain ⟨size, furthest, hcause⟩ := Tree.cause_of_ofRun htree
        exact .of_kind .parseFailed (congrArg Fault.Cause.kind hcause) (by decide)

end Graft
