import Graft.Engine
import Graft.Proofs.Lanes
import Graft.Proofs.Steps

/-!
# What runs yield

A run yields a property when every result that it comes to has it, however the run goes otherwise, and when it remembers nothing
that has not. The loops of the engine yield what can be gathered from attempts with the property, and the body of a rule yields
what it may come to one step deep.
-/

namespace Graft

open Engine

variable [Pattern.Compiler]

/-- All that is remembered satisfies a property. -/
def State.Remembers (P : Claim) (s : State) : Prop :=
  ∀ (key : MemoKey) (entry : MemoEntry), s.memo[key]? = some entry → P key.rule key.offset key.context entry.attempt

/-- A run comes to results that satisfy `Q` only, and remembers nothing but attempts that satisfy `P`. -/
def Yields {α : Type} (P : Claim) (Q : α → Prop) (x : Run α) : Prop :=
  ∀ s a t, s.Remembers P → x s = .ok (a, t) → Q a ∧ t.Remembers P

variable {α β : Type} {P : Claim} {Q : α → Prop} {Q' : β → Prop} {x : Run α}

/-- What a state holds beside its memo does not matter. -/
theorem State.Remembers.of_eq {s t : State} (h : s.Remembers P) (hm : t.memo = s.memo) : t.Remembers P := by
  rw [State.Remembers, hm]
  exact h

/-- Words added to a fault take no result away. -/
theorem Except.mapError_eq_ok {e : Except Fault α} {f : Fault → Fault} {a : α} : e.mapError f = .ok a ↔ e = .ok a := by
  cases e with
  | error fault => exact iff_of_false (fun h => by cases h) (fun h => by cases h)
  | ok b => exact Iff.rfl

namespace Yields

/-- A result with the property is yielded as it is. -/
theorem pure {a : α} (h : Q a) : Yields P Q (pure a) := by
  intro s b t hs hr
  cases hr
  exact ⟨h, hs⟩

/-- A step that is followed yields what the steps after it yield from its results. -/
theorem bind {f : α → Run β} (hx : Yields P Q x) (hf : ∀ a, Q a → Yields P Q' (f a)) : Yields P Q' (x >>= f) := by
  intro s b t hs hr
  rw [Run.bind_apply] at hr
  match ha : x s with
  | .error fault =>
    rw [ha] at hr
    cases hr
  | .ok (a, s1) =>
    rw [ha] at hr
    obtain ⟨hq, hs1⟩ := hx s a s1 hs ha
    exact hf a hq s1 b t hs1 hr

/-- What yields a property yields a weaker one. -/
theorem mono {Q' : α → Prop} (hx : Yields P Q x) (h : ∀ a, Q a → Q' a) : Yields P Q' x :=
  fun s a t hs hr => ⟨h a (hx s a t hs hr).1, (hx s a t hs hr).2⟩

/-- What holds of the results of a run in two ways holds of them in both. -/
theorem and {Q' : α → Prop} (h : Yields P Q x) (h' : Yields P Q' x) : Yields P (fun a => Q a ∧ Q' a) x :=
  fun s a t hs hr => ⟨⟨(h s a t hs hr).1, (h' s a t hs hr).1⟩, (h s a t hs hr).2⟩

/-- A fault yields anything. -/
theorem fail (cause : Fault.Cause) : Yields P Q (Run.fail cause) := by
  intro s a t _ hr
  cases hr

/-- A lifted result is yielded as the result that it is. -/
theorem lift (e : Except Fault α) : Yields P (fun a => e = .ok a) (liftM e : Run α) := by
  intro s a t hs hr
  obtain ⟨he, rfl⟩ := Run.lift_eq_ok.1 hr
  exact ⟨he, hs⟩

/-- A step of which a fault tells what was being done. -/
theorem lift_mapError (e : Except Fault α) (f : Fault → Fault) :
    Yields P (fun a => e = .ok a) (liftM (e.mapError f) : Run α) :=
  (lift _).mono fun _ => Except.mapError_eq_ok.1

/-- A step that leaves the memo alone. -/
theorem of_memo (h : ∀ s a t, x s = .ok (a, t) → t.memo = s.memo) : Yields P (fun _ => True) x :=
  fun s a t hs hr => ⟨trivial, hs.of_eq (h s a t hr)⟩

theorem freshId : Yields P (fun _ => True) Run.freshId :=
  of_memo fun _ _ _ h => by cases h; rfl

theorem count (g : Statistics → Statistics) : Yields P (fun _ => True) (Run.count g) :=
  of_memo fun _ _ _ h => by cases h; rfl

theorem leave : Yields P (fun _ => True) Run.leave :=
  of_memo fun _ _ _ h => by cases h; rfl

theorem mark : Yields P (fun _ => True) Run.mark :=
  of_memo fun _ _ _ h => by cases h; rfl

theorem since (mark : Nat) : Yields P (fun _ => True) (Run.since mark) :=
  of_memo fun _ _ _ h => by cases h; rfl

theorem rollback (mark : Nat) : Yields P (fun _ => True) (Run.rollback mark) :=
  of_memo fun _ _ _ h => by cases h; rfl

theorem append (text : String) : Yields P (fun _ => True) (Run.append text) :=
  of_memo fun _ _ _ h => by cases h; rfl

theorem openValue : Yields P (fun _ => True) Run.openValue :=
  of_memo fun _ _ _ h => by cases h; rfl

theorem closeValue : Yields P (fun _ => True) Run.closeValue :=
  of_memo fun _ _ _ h => by cases h; rfl

/-- Noting how far an attempt reached remembers nothing. -/
theorem reach (a : Attempt) : Yields P (fun _ => True) (Run.reach a) := by
  rw [Run.reach]
  cases a.statement with
  | none => exact .pure trivial
  | some statement => exact of_memo fun _ _ _ h => by cases h; rfl

/-- Entering a rule remembers nothing. -/
theorem enter (setting : Setting) (rule : RuleId) : Yields P (fun _ => True) (Run.enter setting rule) := by
  intro s a t hs hr
  have h := Run.enter_bind setting rule Pure.pure s
  rw [bind_pure, hr] at h
  split at h
  · cases h
  · split at h
    · cases h
    · cases h
      exact ⟨trivial, hs.of_eq rfl⟩

/-- A match is made at boundaries only, and is that of the pattern. -/
theorem matchAt (setting : Setting) (pattern : Pattern) (offset : Nat) :
    Yields P (fun outcome => Text.isBoundary setting.input offset = true ∧
      outcome = pattern.matchFront ((Text.bytes setting.input).drop offset)) (Run.matchAt setting pattern offset) := by
  intro s a t hs hr
  have h := Run.matchAt_bind setting pattern offset Pure.pure s
  rw [bind_pure, hr] at h
  split at h
  · rename_i hb
    cases h
    exact ⟨⟨hb, rfl⟩, hs⟩
  · cases h

/-- What is found in the memo was remembered. -/
theorem lookUp (setting : Setting) (key : MemoKey) :
    Yields P (fun found => ∀ a, found = some a → P key.rule key.offset key.context a) (Run.lookUp setting key) := by
  intro s a t hs hr
  have h := Run.lookUp_bind setting key Pure.pure s
  rw [bind_pure, hr] at h
  split at h
  · split at h
    · rename_i entry hentry
      cases h
      refine ⟨?_, hs.of_eq rfl⟩
      intro b hb
      cases hb
      exact hs key entry hentry
    · cases h
      refine ⟨?_, hs.of_eq rfl⟩
      intro b hb
      cases hb
  · cases h
    refine ⟨?_, hs⟩
    intro b hb
    cases hb

/-- An attempt with the property may be remembered. -/
theorem remember (setting : Setting) {key : MemoKey} {entry : MemoEntry}
    (h : P key.rule key.offset key.context entry.attempt) : Yields P (fun _ => True) (Run.remember setting key entry) := by
  intro s a t hs hr
  obtain ⟨memo, hremember, hmemo⟩ := Run.remember_bind setting key entry Pure.pure s
  rw [bind_pure, hr] at hremember
  cases hremember
  refine ⟨trivial, ?_⟩
  rcases hmemo with rfl | ⟨_, rfl⟩
  · exact hs.of_eq rfl
  · intro other found hfound
    rw [Std.HashMap.getElem?_insert] at hfound
    split at hfound
    · rename_i heq
      rw [beq_iff_eq] at heq
      subst heq
      cases hfound
      exact h
    · exact hs other found hfound

end Yields

/-! ## Gathering -/

section

variable {attempts : Attempts} {setting : Setting} {edges : List Edge} {live : Context} {offset : Nat}

/-- Attempts from scratch yield a property. -/
def FreshYields (P : Claim) (attempts : Attempts) : Prop :=
  ∀ r o c, Yields P (P r o c) (attempts.fresh r o c)

/-- Attempts on an earlier node, which is shown under some name, yield a property. -/
def AgainYields (P : Claim) (attempts : Attempts) (shownAs : Option String) (r : RuleId) (e : Earlier) (c : Context) : Prop :=
  ∀ o, Yields P (fun a => ∃ b, P r o c b ∧ Reading.shownAttempt shownAs a = Reading.shownAttempt shownAs b)
    (attempts.again r e.1 e.2 o c)

/-- An attempt on a node that is shown under its own name yields the property itself. -/
theorem AgainYields.plain {r : RuleId} {e : Earlier} {c : Context} (h : AgainYields P attempts none r e c) (o : Nat) :
    Yields P (P r o c) (attempts.again r e.1 e.2 o c) := by
  refine (h o).mono ?_
  rintro a ⟨b, hb, hab⟩
  rw [Reading.shownAttempt_none, Reading.shownAttempt_none] at hab
  rw [hab]
  exact hb

/-- Attempts on earlier children of a container yield a property. -/
def EarliersYield (P : Claim) (attempts : Attempts) (edges : List Edge) (live : Context) (earliers : Earliers) : Prop :=
  ∀ index edge, edges[index]? = some edge → ∀ e ∈ earliers.ofEdge index,
    AgainYields P attempts none edge.rule e (edge.context live)

/-- Without earlier children there is nothing to attempt again. -/
theorem EarliersYield.none : EarliersYield P attempts edges live {} := by
  intro index edge _ e hm
  simp [Earliers.ofEdge] at hm

variable (hA : FreshYields P attempts)
include hA

/-- Further matches of an edge from scratch extend what can be gathered. -/
theorem readFresh_yields (owner : RuleId) (budget : Nat) {p : Progress} (hl : p.lane.Opens edges live)
    (hg : Gathered P edges live offset p.gathering) :
    Yields P (fun q => Gathered P edges live offset q.gathering) (readFresh attempts owner budget p) := by
  induction budget generalizing p with
  | zero => exact .fail _
  | succ budget ih =>
    rw [readFresh_succ]
    split
    · refine (hA _ _ _).bind fun a ha => ?_
      have hg' := Gathered.accept hg hl ha
      split
      · exact ih (hl.accept a) hg'
      · exact .pure hg'
    · exact .pure hg

omit hA in
/-- Matches of an edge on earlier children extend what can be gathered, and leave the edge open for more. -/
theorem readAgain_yields {earlier : List Earlier} {p : Progress} (hl : p.lane.Opens edges live)
    (hE : ∀ e ∈ earlier, AgainYields P attempts none p.lane.edge.rule e p.lane.context)
    (hg : Gathered P edges live offset p.gathering) :
    Yields P (fun r => Gathered P edges live offset r.2.gathering ∧ r.2.lane.Opens edges live)
      (readAgain attempts earlier p) := by
  induction earlier generalizing p with
  | nil => exact .pure ⟨hg, hl⟩
  | cons e rest ih =>
    obtain ⟨hfirst, hrest⟩ := List.forall_mem_cons.1 hE
    rw [readAgain_cons]
    split
    · refine (hfirst.plain _).bind fun a ha => ?_
      have hg' := Gathered.accept hg hl ha
      split
      · obtain ⟨_, hedge, hcontext⟩ := p.lane_accept a
        rw [← hedge, ← hcontext] at hrest
        exact ih (hl.accept a) hrest hg'
      · exact .pure ⟨hg', hl.accept a⟩
    · exact .pure ⟨hg, hl⟩

/-- Reading an edge of a container from its beginning. -/
theorem readLane_yields (owner : RuleId) {earlier : List Earlier} {edge : Edge} {index : Nat} {lane : Lane}
    (he : edges[index]? = some edge) (hl : Lane.open index edge live = .ok lane)
    (hE : ∀ e ∈ earlier, AgainYields P attempts none edge.rule e (edge.context live)) {g : Gathering}
    (hg : Gathered P edges live offset g) :
    Yields P (fun q => Gathered P edges live offset q.gathering)
      (readLane setting attempts owner earlier { gathering := g, lane }) := by
  have hopens := Lane.opens_of_open he hl
  obtain ⟨occurrence, _, rfl⟩ := Lane.eq_of_open hl
  rw [readLane]
  refine (readAgain_yields hopens hE hg).bind ?_
  rintro ⟨done, p⟩ ⟨hg', hl'⟩
  cases done with
  | true => exact .pure hg'
  | false => exact readFresh_yields hA owner _ hl' hg'

/-- Edges read one after the other extend what can be gathered. -/
theorem readInOrder_yields (owner : RuleId) {earliers : Earliers} (hE : EarliersYield P attempts edges live earliers)
    {entries : List (Edge × Nat)} (he : ∀ entry ∈ entries, edges[entry.2]? = some entry.1) {g : Gathering}
    (hg : Gathered P edges live offset g) :
    Yields P (fun r => Gathered P edges live offset r.2) (readInOrder setting attempts owner live earliers entries g) := by
  induction entries generalizing g with
  | nil => exact .pure hg
  | cons entry entries ih =>
    obtain ⟨hedge, hedges⟩ := List.forall_mem_cons.1 he
    rw [readInOrder]
    refine (Yields.lift _).bind fun lane hl => ?_
    refine (readLane_yields hA owner hedge hl (hE _ _ hedge) hg).bind fun q hq => ?_
    split
    · exact ih hedges hq
    · exact .pure hq

/-- Edges tried one after the other extend what can be gathered, those that fail as well. -/
theorem readFirst_yields (owner : RuleId) {earliers : Earliers} (hE : EarliersYield P attempts edges live earliers)
    {entries : List (Edge × Nat)} (he : ∀ entry ∈ entries, edges[entry.2]? = some entry.1) {g : Gathering}
    (hg : Gathered P edges live offset g) :
    Yields P (fun r => Gathered P edges live offset r.2) (readFirst setting attempts owner live earliers entries g) := by
  induction entries generalizing g with
  | nil => exact .pure hg
  | cons entry entries ih =>
    obtain ⟨hedge, hedges⟩ := List.forall_mem_cons.1 he
    have hearlier := Earliers.forall_mem_chosen (hE _ _ hedge)
    rw [readFirst]
    refine (Yields.lift _).bind fun lane hl => ?_
    refine (readLane_yields hA owner hedge hl hearlier hg).bind fun q hq => ?_
    split
    · exact .pure hq
    · split
      · exact .pure hq
      · exact ih hedges hq

omit hA in
/-- A container opens all its lanes, or none. -/
theorem openAll_yields (entries : List (Edge × Nat)) :
    Yields P (fun lanes => Reading.openAll live entries = some lanes)
      (entries.mapM fun entry => (liftM (Lane.open entry.2 entry.1 live) : Run Lane)) := by
  rw [Run.mapM_liftM]
  exact (Yields.lift _).mono fun _ => Reading.openAll_eq_some_iff.2

/-- Lanes of a container, and what has been gathered through them. -/
def LanesGathered (P : Claim) (edges : List Edge) (live : Context) (offset : Nat) (r : List Lane × Gathering) : Prop :=
  (∀ lane ∈ r.1, lane.Opens edges live) ∧ Gathered P edges live offset r.2

omit hA in
/-- Earlier children of a container without order, replayed in the order of the text, extend what can be gathered. -/
theorem replay_yields {children : List (Nat × Earlier)}
    (hE : ∀ child ∈ children, ∀ edge, edges[child.1]? = some edge →
      AgainYields P attempts none edge.rule child.2 (edge.context live))
    {lanes : List Lane} (hl : ReadAll edges live lanes) {g : Gathering} (hg : Gathered P edges live offset g) :
    Yields P (LanesGathered P edges live offset) (replay attempts children lanes g) := by
  induction children generalizing lanes g with
  | nil => exact .pure ⟨hl.opens, hg⟩
  | cons child rest ih =>
    obtain ⟨index, earlier⟩ := child
    rw [replay]
    cases hi : lanes[index]? with
    | none => exact .pure ⟨hl.opens, hg⟩
    | some lane =>
      have hlane := hl index lane hi
      have hagain := hE _ (List.mem_cons_self ..) _ hlane.edge
      rw [← hlane.opens.context] at hagain
      simp only
      split
      · refine (hagain.plain _).bind fun a ha => ?_
        have hg' := Gathered.accept (p := { gathering := g, lane }) hg hlane.opens ha
        have hl' := hl.set (hlane.accept (p := { gathering := g, lane }) a)
        split
        · exact .pure ⟨hl'.opens, hg'⟩
        · exact ih (fun child hm => hE child (List.mem_cons_of_mem _ hm)) hl' hg'
      · exact .pure ⟨hl.opens, hg⟩

/-- One pass over the open edges extends what can be gathered. -/
theorem scan_yields {lanes : List Lane} (hl : ∀ lane ∈ lanes, lane.Opens edges live) {g : Gathering}
    (hg : Gathered P edges live offset g) :
    Yields P (fun r => LanesGathered P edges live offset r.2) (scan attempts lanes g) := by
  induction lanes generalizing g with
  | nil => exact .pure ⟨hl, hg⟩
  | cons lane lanes ih =>
    obtain ⟨hlane, hlanes⟩ := List.forall_mem_cons.1 hl
    rw [scan]
    split
    · refine (hA _ _ _).bind fun a ha => ?_
      have hg' := Gathered.accept (p := { gathering := g, lane }) hg hlane ha
      have hl' := Lane.Opens.accept (p := { gathering := g, lane }) hlane a
      simp only
      split
      · exact .pure ⟨List.forall_mem_cons.2 ⟨hl', hlanes⟩, hg'⟩
      · refine (ih hlanes hg').bind ?_
        rintro ⟨found, rest, g1⟩ ⟨h1, h2⟩
        exact .pure ⟨List.forall_mem_cons.2 ⟨hl', h1⟩, h2⟩
    · refine (ih hlanes hg).bind ?_
      rintro ⟨found, rest, g1⟩ ⟨h1, h2⟩
      exact .pure ⟨List.forall_mem_cons.2 ⟨hlane, h1⟩, h2⟩

/-- Passes over the open edges, until one of them brings nothing, extend what can be gathered. -/
theorem scanAll_yields (owner : RuleId) (budget : Nat) {lanes : List Lane} (hl : ∀ lane ∈ lanes, lane.Opens edges live)
    {g : Gathering} (hg : Gathered P edges live offset g) :
    Yields P (fun r => Gathered P edges live offset r.2) (scanAll attempts owner budget lanes g) := by
  induction budget generalizing lanes g with
  | zero => exact .fail _
  | succ budget ih =>
    rw [scanAll]
    refine (scan_yields hA hl hg).bind ?_
    rintro ⟨found, lanes1, g1⟩ ⟨h1, h2⟩
    simp only
    split
    · exact ih h1 h2
    · exact .pure h2

end

/-! ## Bodies of rules -/

section

variable {attempts : Attempts} {setting : Setting} {edges : List Edge} {live : Context} {offset : Nat} {rule : RuleId}

/-- A container of what has been gathered, or its failure. -/
theorem succeed_yields (g : Gathering) (rule : RuleId) (chosen : Option Nat) :
    Yields P (fun a => ∃ id, a = Reading.succeed id g rule chosen) (g.succeed rule chosen) :=
  Yields.freshId.bind fun id _ => .pure ⟨id, rfl⟩

variable (hA : FreshYields P attempts)
include hA

/-- A container in order comes to what it has gathered, as a success without a choice or as a failure. -/
theorem inOrder_yields (rule : RuleId) {earliers : Earliers} (hE : EarliersYield P attempts edges live earliers) :
    Yields P (fun a => ∃ g, Gathered P edges live offset g ∧ ((∃ id, a = Reading.succeed id g rule none) ∨ a = g.fail rule))
      (inOrder setting attempts rule edges earliers offset live) := by
  rw [inOrder]
  refine Yields.mark.bind fun mark _ => ?_
  refine (readInOrder_yields hA rule hE Reading.getElem?_of_mem_zipIdx .begin).bind ?_
  rintro ⟨complete, g⟩ hg
  cases complete with
  | true => exact (succeed_yields g rule none).mono fun a ha => ⟨g, hg, Or.inl ha⟩
  | false => exact (Yields.rollback mark).bind fun _ _ => .pure ⟨g, hg, Or.inr rfl⟩

/-- A container without order yields what its rule may come to. -/
theorem anyOrder_yields (hr : setting.grammar.body? rule = some (.container .anyOrder edges)) {earliers : Earliers}
    (hE : EarliersYield P attempts edges live earliers) :
    Yields P (Body setting.grammar setting.input P rule offset live)
      (anyOrder setting attempts rule edges earliers offset live) := by
  have hchildren : ∀ child ∈ earliers.children, ∀ edge, edges[child.1]? = some edge →
      AgainYields P attempts none edge.rule child.2 (edge.context live) :=
    fun child hm edge hedge => hE child.1 edge hedge child.2 (Earliers.mem_ofEdge.2 hm)
  rw [anyOrder]
  refine Yields.mark.bind fun mark _ => ?_
  refine (openAll_yields _).bind fun lanes hlanes => ?_
  refine (replay_yields hchildren (ReadAll.of_edges hlanes) .begin).bind ?_
  rintro ⟨lanes1, g1⟩ ⟨h1, h2⟩
  refine (scanAll_yields hA rule _ h1 h2).bind ?_
  rintro ⟨lanes2, g⟩ hg
  simp only
  split
  · refine (succeed_yields g rule none).mono ?_
    rintro a ⟨id, rfl⟩
    exact .full id none hr (by simp) hg
  · exact (Yields.rollback mark).bind fun _ _ => .pure (.short hr hg)

/-- A choice yields what its rule may come to. -/
theorem firstOrder_yields (hr : setting.grammar.body? rule = some (.container .firstOrder edges)) {earliers : Earliers}
    (hE : EarliersYield P attempts edges live earliers) :
    Yields P (Body setting.grammar setting.input P rule offset live)
      (firstOrder setting attempts rule edges earliers offset live) := by
  rw [firstOrder]
  refine Yields.mark.bind fun mark _ => ?_
  refine (readFirst_yields hA rule hE Reading.getElem?_of_mem_zipIdx .begin).bind ?_
  rintro ⟨choice, g⟩ hg
  cases choice with
  | chosen index =>
    refine (succeed_yields g rule (some index)).mono ?_
    rintro a ⟨id, rfl⟩
    exact .full id (some index) hr (by simp) hg
  | broken => exact (Yields.rollback mark).bind fun _ _ => .pure (.short hr hg)
  | none => exact .pure (.short hr hg)

/-- A value yields what its rule may come to. -/
theorem value_yields (name : String) {nonEmpty : Bool}
    (hr : setting.grammar.body? rule = some (.container (.value nonEmpty) edges)) {earliers : Earliers}
    (hE : EarliersYield P attempts edges live earliers) :
    Yields P (Body setting.grammar setting.input P rule offset live)
      (value setting attempts rule name nonEmpty edges earliers offset live) := by
  rw [value]
  refine Yields.openValue.bind fun _ _ => ?_
  refine (inOrder_yields hA rule hE).bind ?_
  rintro body ⟨g, hg, hbody⟩
  refine Yields.closeValue.bind fun text _ => ?_
  have hshort : Body setting.grammar setting.input P rule offset live (g.fail rule) := .short hr hg
  rcases hbody with ⟨inner, rfl⟩ | rfl
  · simp only [Reading.succeed, Attempt.success]
    split
    · exact .pure hshort
    · exact Yields.freshId.bind fun id _ => .pure (.valued id inner name text hr hg)
  · exact .pure hshort

/-- Attempting a container comes to what its body may come to. -/
theorem container_yields (known : Rule) {kind : ContainerKind}
    (hr : setting.grammar.body? rule = some (.container kind edges)) {earliers : Earliers}
    (hE : EarliersYield P attempts edges live earliers) :
    Yields P (Body setting.grammar setting.input P rule offset live)
      (container setting attempts rule known kind edges earliers offset live) := by
  cases kind with
  | inOrder =>
    refine (inOrder_yields hA rule hE).mono ?_
    rintro a ⟨g, hg, ⟨id, rfl⟩ | rfl⟩
    · exact .full id none hr (by simp) hg
    · exact .short hr hg
  | anyOrder => exact anyOrder_yields hA hr hE
  | firstOrder => exact firstOrder_yields hA hr hE
  | value nonEmpty => exact value_yields hA _ hr hE

/-- Attempting an invocation, also on an earlier node of its target. -/
theorem invoke_yields {call : Invocation} (hr : setting.grammar.body? rule = some (.invoke call))
    {earlier : Option Earlier} {context : Context}
    (hE : ∀ e target inside, earlier = some e → resolveCall setting.grammar call context = .ok (target, inside) →
      AgainYields P attempts call.shownAs target e inside) :
    Yields P (Body setting.grammar setting.input P rule offset context)
      (invoke setting attempts rule call earlier offset context) := by
  have hwrap : ∀ {target : RuleId} {inside : Context} {a b : Attempt},
      resolveCall setting.grammar call context = .ok (target, inside) → P target offset inside b →
      Reading.shownAttempt call.shownAs a = Reading.shownAttempt call.shownAs b →
      Yields P (Body setting.grammar setting.input P rule offset context) (wrap rule call a) := by
    intro target inside a b hc hb hab
    have hsame : ∀ id, Body setting.grammar setting.input P rule offset context (Reading.wrap id rule call a) := by
      intro id
      rw [← Reading.wrap_shownAttempt, hab, Reading.wrap_shownAttempt]
      exact .called id hr hc hb
    cases hs : a.statement with
    | none =>
      rw [Reading.wrap_of_none hs]
      exact .pure (hsame Reading.noId)
    | some statement =>
      rw [Reading.wrap_of_some hs]
      exact Yields.freshId.bind fun id _ => .pure (hsame id)
  rw [invoke]
  refine (Yields.lift_mapError _ _).bind ?_
  rintro ⟨target, inside⟩ hc
  cases earlier with
  | none => exact (hA target offset inside).bind fun a ha => hwrap hc ha rfl
  | some e =>
    refine (hE e target inside rfl hc offset).bind ?_
    rintro a ⟨b, hb, hab⟩
    exact hwrap hc hb hab

omit hA in
/-- Attempting a consume rule comes to a match of its pattern. -/
theorem consume_yields {kind : ConsumeKind} {binding : Binding}
    (hr : setting.grammar.body? rule = some (.consume kind binding)) (context : Context) :
    Yields P (Body setting.grammar setting.input P rule offset context)
      (consume setting rule kind binding offset context) := by
  rw [consume]
  refine (Yields.lift _).bind fun pattern _ => ?_
  refine (Yields.matchAt setting pattern offset).bind ?_
  rintro outcome ⟨hb, rfl⟩
  simp only
  cases hl : (pattern.matchFront ((Text.bytes setting.input).drop offset)).length with
  | none => exact .pure (.unmatched hr hb)
  | some length =>
    simp only
    cases hc : Text.slice? setting.input offset (offset + length) with
    | none => exact .fail _
    | some text =>
      cases kind with
      | keep =>
        refine (Yields.append text).bind fun _ _ => ?_
        exact Yields.freshId.bind fun id _ => .pure (.matched id hr hl hc)
      | skip => exact Yields.freshId.bind fun id _ => .pure (.matched id hr hl hc)

end

end Graft
