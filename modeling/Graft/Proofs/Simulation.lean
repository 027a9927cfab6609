import Graft.Proofs.Decides
import Graft.Proofs.Lanes

/-!
# The engine comes to the readings

The loops and rules of the engine, run on attempts that come to given readings, come to the readings of the loops and rules.
Beside the result a run leaves the depth as it was, remembers nothing but readings, and adds to the innermost value the text
that the result keeps. Results are compared up to a recasting that forgets identities.
-/

namespace Graft

open Filter Engine

variable [Pattern.Compiler]

/-- What is remembered is a reading, and the text it adds is what it keeps. -/
def MemoEntry.Sound (setting : Setting) (key : MemoKey) (entry : MemoEntry) : Prop :=
  Text.isBoundary setting.input key.offset = true →
    (∃ b, (∀ᶠ n in atTop, Reading.within setting.grammar setting.input n key.rule key.offset key.context = some b) ∧
      entry.attempt.recast .bare = b.recast .bare) ∧
    entry.appended = entry.attempt.kept setting.grammar

/-- A state in which a rule may be attempted at some depth. -/
structure State.Ready (setting : Setting) (depth : Nat) (s : State) : Prop where
  depth : s.depth = depth
  collected : s.collected ≠ []
  memo : setting.memoize = true → ∀ (key : MemoKey) (entry : MemoEntry), s.memo[key]? = some entry → entry.Sound setting key

/-- A state that a run leaves behind that has added a text to the innermost value. -/
structure State.Steady (setting : Setting) (depth : Nat) (s t : State) (text : String) : Prop where
  ready : t.Ready setting depth
  collected : t.collected = (s.adding text).collected

namespace State

variable {setting : Setting} {depth : Nat} {s t u : State} {a b : String}

/-- Adding to the innermost value leaves a value to add to. -/
theorem collected_adding_ne_nil (h : s.collected ≠ []) (text : String) : (s.adding text).collected ≠ [] := by
  obtain ⟨memo, collected, depth, furthest, statistics, nextId⟩ := s
  cases collected with
  | nil => exact absurd rfl h
  | cons top outer => simp [adding, Run.withInnermost]

/-- A rule may be attempted after some text was added. -/
theorem Ready.adding (h : s.Ready setting depth) (text : String) : (s.adding text).Ready setting depth :=
  ⟨h.depth, collected_adding_ne_nil h.collected text, h.memo⟩

/-- What was added may be told later. -/
theorem Ready.steady (h : s.Ready setting depth) : s.Steady setting depth s "" :=
  ⟨h, by rw [adding_empty]⟩

/-- Adding a text is steady. -/
theorem Ready.steady_adding (h : s.Ready setting depth) (text : String) :
    s.Steady setting depth (s.adding text) text :=
  ⟨h.adding text, rfl⟩

/-- Steady steps add their texts one after the other. -/
theorem Steady.trans (h : s.Steady setting depth t a) (h' : t.Steady setting depth u b) :
    s.Steady setting depth u (a ++ b) :=
  ⟨h'.ready, collected_trans h.collected h'.collected⟩

/-- What a state holds beside its memo, its depth and its texts does not matter. -/
theorem Ready.of_eq (h : s.Ready setting depth) (hm : t.memo = s.memo) (hc : t.collected = s.collected)
    (hd : t.depth = s.depth) : t.Ready setting depth :=
  ⟨by rw [hd, h.depth], by rw [hc]; exact h.collected, by rw [hm]; exact h.memo⟩

/-- A step that leaves memo, texts and depth alone may follow. -/
theorem Steady.of_eq (h : s.Steady setting depth t a) (hm : u.memo = t.memo) (hc : u.collected = t.collected)
    (hd : u.depth = t.depth) : s.Steady setting depth u a :=
  ⟨h.ready.of_eq hm hc hd, by rw [hc, h.collected]⟩

/-- The text added since a mark is what was added. -/
theorem Steady.beyond (h : s.Steady setting depth t a) (hs : s.collected ≠ []) :
    Text.beyond (Run.innermost t.collected) (Text.size (Run.innermost s.collected)) = a :=
  beyond_of_collected h.collected hs

/-- Taking back the text added since a mark leaves the texts as they were. -/
theorem Steady.rollback (h : s.Steady setting depth t a) :
    s.Steady setting depth
      { t with
        collected := Run.withInnermost
          (Text.upTo (Run.innermost t.collected) (Text.size (Run.innermost s.collected))) t.collected } "" := by
  have hc := rollback_of_collected h.collected
  have hne : s.collected ≠ [] := by
    intro hs
    apply h.ready.collected
    rw [h.collected, adding, hs]
    rfl
  refine ⟨⟨h.ready.depth, ?_, h.ready.memo⟩, ?_⟩
  · simp only [hc]
    exact hne
  · simp only [hc, adding_empty]

end State

/-- A run came to an attempt that agrees with a reading, under the name that both are shown as. -/
structure Agrees (setting : Setting) (depth : Nat) (m : Recasting) (shownAs : Option String) (s : State) (a : Attempt)
    (t : State) (b : Attempt) : Prop where
  same : (Reading.shownAttempt shownAs a).recast m = (Reading.shownAttempt shownAs b).recast m
  steady : s.Steady setting depth t (b.kept setting.grammar)

/-- Attempts from scratch decide readings. -/
def FreshDecides (setting : Setting) (excused : Prop) (ℓ : Filter Nat) (depth : Nat) (m : Recasting)
    (attempts : Attempts) (R : Nat → Reading.Oracle) : Prop :=
  ∀ r o c s, Text.isBoundary setting.input o = true → s.Ready setting depth →
    Decides excused ℓ (Agrees setting depth m none s) (fun n => R n r o c) (attempts.fresh r o c s)

/-- Attempts of a rule on an earlier node, which is shown under some name, decide readings. -/
def AgainDecides (setting : Setting) (excused : Prop) (ℓ : Filter Nat) (depth : Nat) (m : Recasting)
    (attempts : Attempts) (R : Nat → Reading.Oracle) (shownAs : Option String) (r : RuleId) (earlier : Earlier)
    (c : Context) : Prop :=
  ∀ o s, Text.isBoundary setting.input o = true → s.Ready setting depth →
    Decides excused ℓ (Agrees setting depth m shownAs s) (fun n => R n r o c)
      (attempts.again r earlier.1 earlier.2 o c s)

/-! ## Gathering -/

/-- What almost all of some readings say. -/
def Reading.Almost (ℓ : Filter Nat) (R : Nat → Reading.Oracle) : Claim := fun r o c a =>
  ∀ᶠ n in ℓ, R n r o c = some a

/-- What a run has gathered agrees with what readings gather. -/
structure Synced (setting : Setting) (ℓ : Filter Nat) (depth : Nat) (m : Recasting) (R : Nat → Reading.Oracle)
    (edges : List Edge) (live : Context) (offset : Nat) (base s : State) (g g' : Gathering) : Prop where
  same : g.recast m = g'.recast m
  gathered : Gathered (Reading.Almost ℓ R) edges live offset g'
  steady : base.Steady setting depth s (g'.kept setting.grammar)

section

variable {setting : Setting} {excused : Prop} {ℓ : Filter Nat} [ℓ.NeBot] {depth : Nat} {m : Recasting}
  {attempts : Attempts} {R : Nat → Reading.Oracle} {edges : List Edge} {live : Context} {offset : Nat} {base s : State}

omit [ℓ.NeBot] in
/-- Taking in an attempt adds what it keeps. -/
theorem Engine.Progress.kept_accept {grammar : Grammar} {input : String} {p : Progress} {a : Attempt} {r : RuleId}
    {c : Context} (ha : Covers grammar input r p.gathering.cursor c a)
    (hb : Text.isBoundary input p.gathering.cursor = true) :
    (p.accept a).2.gathering.kept grammar = p.gathering.kept grammar ++ a.kept grammar := by
  cases hs : a.statement with
  | none =>
    rw [Progress.accept_failure hs, Gathering.kept_look, Attempt.kept, hs, String.append_empty]
  | some s =>
    have hkept : a.kept grammar = s.kept grammar a.derivation := by rw [Attempt.kept, hs]
    cases he : s.region.isEmpty with
    | true =>
      -- a child that reads nothing keeps nothing, so it may be taken any number of times
      have hempty : s.kept grammar a.derivation = "" := by
        have h1 := (ha hb s hs).kept
        rw [Region.isEmpty, beq_iff_eq] at he
        exact (Text.size_eq_zero_iff _).1 (by omega)
      rw [Progress.accept_empty hs he, Gathering.kept_pushMany grammar _ ⟨_, s, a.derivation⟩ _ hempty, Gathering.kept_look,
        hkept, hempty, String.append_empty]
    | false => rw [Progress.accept_consumed hs he, Gathering.kept_push, Gathering.kept_look, hkept, Taken.kept]

/-- What readings are known to satisfy almost all of them satisfy. -/
theorem Reading.Almost.sound {grammar : Grammar} {u : String} (hR : ∀ n, Reading.Sound grammar u (R n)) :
    (∀ r o c a, Reading.Almost ℓ R r o c a → Laid r o c a) ∧
      ∀ r o c a, Reading.Almost ℓ R r o c a → Covers grammar u r o c a := by
  constructor
  · intro r o c a h
    obtain ⟨n, hn⟩ := h.exists
    exact (hR n).laid r o c a hn
  · intro r o c a h
    obtain ⟨n, hn⟩ := h.exists
    exact (hR n).covers r o c a hn

namespace Synced

variable {g g' : Gathering}

omit [ℓ.NeBot] in
/-- A run and its readings begin with nothing gathered. -/
theorem begin (hs : s.Ready setting depth) :
    Synced setting ℓ depth m R edges live offset s s (.begin offset) (.begin offset) :=
  ⟨rfl, .begin, by rw [Gathering.kept_begin]; exact hs.steady⟩

omit [ℓ.NeBot] in
/-- A run and its readings stand at the same place. -/
theorem cursor (h : Synced setting ℓ depth m R edges live offset base s g g') : g.cursor = g'.cursor :=
  Nat.add_right_cancel (congrArg Gathering.cursor h.same)

/-- That place is a boundary. -/
theorem boundary (hR : ∀ n, Reading.Sound setting.grammar setting.input (R n))
    (hb : Text.isBoundary setting.input offset = true)
    (h : Synced setting ℓ depth m R edges live offset base s g g') : Text.isBoundary setting.input g'.cursor = true := by
  have hcovers := h.gathered.covers (Reading.Almost.sound hR).2 hb
  exact (Text.slice?_eq_some_iff.1 hcovers.text).2.1

end Synced

/-- The progress of a run agrees with that of readings. -/
structure InStep (setting : Setting) (ℓ : Filter Nat) (depth : Nat) (m : Recasting) (R : Nat → Reading.Oracle)
    (edges : List Edge) (live : Context) (offset : Nat) (base s : State) (q q' : Progress) : Prop where
  lane : q.lane = q'.lane
  matched : q.matched = q'.matched
  opens : q'.lane.Opens edges live
  gathering : Synced setting ℓ depth m R edges live offset base s q.gathering q'.gathering

/-- Taking in attempts that agree keeps progress in agreement. -/
theorem InStep.accept (hR : ∀ n, Reading.Sound setting.grammar setting.input (R n))
    (hb : Text.isBoundary setting.input offset = true) {q q' : Progress} {a b : Attempt} {t : State}
    (h : InStep setting ℓ depth m R edges live offset base s q q') (hab : Agrees setting depth m none s a t b)
    (hlevel : ∀ᶠ n in ℓ, R n q'.lane.edge.rule q'.gathering.cursor q'.lane.context = some b) :
    (q.accept a).1 = (q'.accept b).1 ∧
      InStep setting ℓ depth m R edges live offset base t (q.accept a).2 (q'.accept b).2 := by
  have hp : q.recast m = q'.recast m := by
    obtain ⟨g, lane, matched⟩ := q
    obtain ⟨g', lane', matched'⟩ := q'
    obtain ⟨h1, h2, _, h3⟩ := h
    simp only at h1 h2 h3
    simp only [Progress.recast, h1, h2, h3.same]
  have hsame := hab.same
  rw [Reading.shownAttempt_none, Reading.shownAttempt_none] at hsame
  obtain ⟨h1, h2⟩ := Progress.accept_congr hp hsame
  have hlane := congrArg Progress.lane h2
  have hmatched := congrArg Progress.matched h2
  refine ⟨h1, hlane, hmatched, h.opens.accept b, congrArg Progress.gathering h2, ?_, ?_⟩
  · exact .accept h.gathering.gathered h.opens hlevel
  · rw [Progress.kept_accept ((Reading.Almost.sound hR).2 _ _ _ _ hlevel) (h.gathering.boundary hR hb)]
    exact h.gathering.steady.trans hab.steady

/-! ## Lanes -/

/-- Reading an edge from scratch comes to the reading of the edge. -/
theorem readFresh_decides (hR : ∀ n, Reading.Sound setting.grammar setting.input (R n))
    (hA : FreshDecides setting excused ℓ depth m attempts R) (hb : Text.isBoundary setting.input offset = true)
    (owner : RuleId) (budget : Nat) {q q' : Progress} {s : State}
    (h : InStep setting ℓ depth m R edges live offset base s q q') :
    Decides excused ℓ (fun q1 t q1' => InStep setting ℓ depth m R edges live offset base t q1 q1')
      (fun n => Reading.readLane (R n) budget q') (readFresh attempts owner budget q s) := by
  induction budget generalizing q q' s with
  | zero => exact .error (by simp [Fault.of, Fault.kind, Fault.Cause.kind])
  | succ budget ih =>
    rw [readFresh_succ, h.lane]
    simp only [Reading.readLane_turn]
    split
    · rw [h.gathering.cursor]
      refine Decides.bind (hA _ _ _ _ (h.gathering.boundary hR hb) h.gathering.steady.ready) ?_
      intro a t b hab hlevel
      obtain ⟨h1, h2⟩ := h.accept hR hb hab hlevel
      rw [h1]
      split
      · exact ih h2
      · exact .ok h2
    · exact .ok h

/-- An edge with earlier nodes is read on the first of them, and then on the others as long as that brings more. -/
theorem Engine.readLane_cons (owner : RuleId) (earlier : Earlier) (rest : List Earlier) (q : Progress) (s : State) :
    readLane setting attempts owner (earlier :: rest) q s =
      if q.lane.counter.acceptsMore then
        (attempts.again q.lane.edge.rule earlier.1 earlier.2 q.gathering.cursor q.lane.context >>= fun a =>
          if (q.accept a).1 = .consumed then readLane setting attempts owner rest (q.accept a).2
          else if (q.accept a).1 = .empty then pure (q.accept a).2
          else readFresh attempts owner (setting.remaining (q.accept a).2.gathering.cursor + 1) (q.accept a).2) s
      else readFresh attempts owner (setting.remaining q.gathering.cursor + 1) q s := by
  rw [readLane, readAgain_cons, Run.bind_apply]
  split
  · rw [Run.bind_apply, Run.bind_apply]
    cases attempts.again q.lane.edge.rule earlier.1 earlier.2 q.gathering.cursor q.lane.context s with
    | error fault => rfl
    | ok result =>
      obtain ⟨a, t⟩ := result
      rw [Run.ok_bind, Run.ok_bind]
      obtain ⟨step, q1⟩ := q.accept a
      cases step <;> rfl
  · rfl

/-- Once an attempt has failed, reading the edge on changes nothing. -/
theorem Reading.readLane_of_failed {O : Reading.Oracle} {q : Progress} {b : Attempt} (h : (q.accept b).1 = .failed)
    (hb : O q.lane.edge.rule q.gathering.cursor q.lane.context = some b) (budget : Nat) :
    Reading.readLane O (budget + 1) (q.accept b).2 = some (q.accept b).2 := by
  have hnone := Progress.statement_of_failed h
  have hcursor : (q.accept b).2.gathering.cursor = q.gathering.cursor := by
    rw [Progress.accept_failure hnone]
    rfl
  obtain ⟨_, h2, h3⟩ := q.lane_accept b
  rw [Reading.readLane]
  cases (q.accept b).2.lane.counter.acceptsMore with
  | false => rfl
  | true =>
    simp only [if_true, Option.bind_eq_bind, hcursor, h2, h3, hb, Option.bind_some,
      Progress.accept_accept_failed h]

/-- Reading an edge on its earlier nodes comes to the reading of the edge. -/
theorem readLane_decides (hR : ∀ n, Reading.Sound setting.grammar setting.input (R n))
    (hA : FreshDecides setting excused ℓ depth m attempts R) (hb : Text.isBoundary setting.input offset = true)
    (owner : RuleId) {budget : Nat} {earlier : List Earlier} {q q' : Progress} {s : State}
    (h : InStep setting ℓ depth m R edges live offset base s q q')
    (hE : ∀ e ∈ earlier,
      AgainDecides setting excused ℓ depth m attempts R none q'.lane.edge.rule e q'.lane.context)
    (hbudget : Text.size setting.input - q'.gathering.cursor < budget) :
    Decides excused ℓ (fun q1 t q1' => InStep setting ℓ depth m R edges live offset base t q1 q1')
      (fun n => Reading.readLane (R n) budget q') (readLane setting attempts owner earlier q s) := by
  -- from scratch the budget is told by where the edge goes on, which makes no difference
  have hfresh : ∀ {q q' : Progress} {s : State} {budget : Nat},
      InStep setting ℓ depth m R edges live offset base s q q' →
      Text.size setting.input - q'.gathering.cursor < budget →
      Decides excused ℓ (fun q1 t q1' => InStep setting ℓ depth m R edges live offset base t q1 q1')
        (fun n => Reading.readLane (R n) budget q')
        (readFresh attempts owner (setting.remaining q.gathering.cursor + 1) q s) := by
    intro q q' s budget h hbudget
    apply (readFresh_decides hR hA hb owner _ h).congr
    refine Eventually.of_forall fun n => ?_
    rw [h.gathering.cursor]
    exact Reading.readLane_budget (hR n) (h.gathering.boundary hR hb) (Nat.lt_add_one _) hbudget
  induction earlier generalizing q q' s budget with
  | nil => exact hfresh h hbudget
  | cons e rest ih =>
    obtain ⟨hfirst, hrest⟩ := List.forall_mem_cons.1 hE
    rw [readLane_cons, h.lane]
    split
    · rename_i hm
      obtain ⟨budget, rfl⟩ : ∃ k, budget = k + 1 := ⟨budget - 1, by omega⟩
      simp only [Reading.readLane_turn, if_pos hm]
      rw [h.gathering.cursor]
      refine Decides.bind (hfirst _ _ (h.gathering.boundary hR hb) h.gathering.steady.ready) ?_
      intro a t b hab hlevel
      obtain ⟨h1, h2⟩ := h.accept hR hb hab hlevel
      rw [h1]
      cases hstep : (q'.accept b).1 with
      | consumed =>
        have hlt := Reading.cursor_lt_of_consumed ((Reading.Almost.sound hR).1 _ _ _ _ hlevel).starts hstep
        have hle := Text.le_size_of_isBoundary (h2.gathering.boundary hR hb)
        obtain ⟨_, hedge, hcontext⟩ := q'.lane_accept b
        rw [← hedge, ← hcontext] at hrest
        exact ih h2 hrest (by omega)
      | empty => exact .ok h2
      | failed =>
        refine (hfresh h2 (Nat.lt_add_one _)).congr ?_
        exact hlevel.mono fun n hn => Reading.readLane_of_failed hstep hn _
    · exact hfresh h hbudget

/-! ## Containers -/

/-- Earlier children of a container on which its edges may be attempted again. -/
def EarliersDecide (setting : Setting) (excused : Prop) (ℓ : Filter Nat) (depth : Nat) (m : Recasting)
    (attempts : Attempts) (R : Nat → Reading.Oracle) (edges : List Edge) (live : Context) (earliers : Earliers) : Prop :=
  ∀ index edge, edges[index]? = some edge → ∀ e ∈ earliers.ofEdge index,
    AgainDecides setting excused ℓ depth m attempts R none edge.rule e (edge.context live)

omit [ℓ.NeBot] in
/-- Without earlier children there is nothing to decide. -/
theorem EarliersDecide.none : EarliersDecide setting excused ℓ depth m attempts R edges live {} := by
  intro index edge _ e hm
  simp [Earliers.ofEdge] at hm

variable (hR : ∀ n, Reading.Sound setting.grammar setting.input (R n))
  (hA : FreshDecides setting excused ℓ depth m attempts R) (hb : Text.isBoundary setting.input offset = true)
include hR hA hb

/-- An edge of a container, once it is begun, comes to its reading. -/
theorem openLane_decides (owner : RuleId) {earlier : List Earlier} {edge : Edge} {index : Nat} {lane : Lane}
    {g g' : Gathering} {s : State} (he : edges[index]? = some edge) (hl : Lane.open index edge live = .ok lane)
    (hE : ∀ e ∈ earlier, AgainDecides setting excused ℓ depth m attempts R none edge.rule e (edge.context live))
    (h : Synced setting ℓ depth m R edges live offset base s g g') :
    Decides excused ℓ (fun q t q' => InStep setting ℓ depth m R edges live offset base t q q')
      (fun n => Reading.readLane (R n) (Text.size setting.input - g'.cursor + 1) { gathering := g', lane })
      (readLane setting attempts owner earlier { gathering := g, lane } s) := by
  have hopens := Lane.opens_of_open he hl
  obtain ⟨occurrence, _, rfl⟩ := Lane.eq_of_open hl
  have hin : InStep setting ℓ depth m R edges live offset base s
      { gathering := g, lane := ⟨index, edge, edge.context live, .start occurrence⟩ }
      { gathering := g', lane := ⟨index, edge, edge.context live, .start occurrence⟩ } := ⟨rfl, rfl, hopens, h⟩
  exact readLane_decides hR hA hb owner hin hE (Nat.lt_add_one _)

/-- Edges in order come to the readings of them. -/
theorem readInOrder_decides (owner : RuleId) {earliers : Earliers}
    (hE : EarliersDecide setting excused ℓ depth m attempts R edges live earliers) {entries : List (Edge × Nat)}
    (he : ∀ entry ∈ entries, edges[entry.2]? = some entry.1) {g g' : Gathering} {s : State}
    (h : Synced setting ℓ depth m R edges live offset base s g g') :
    Decides excused ℓ (fun r t r' => r.1 = r'.1 ∧ Synced setting ℓ depth m R edges live offset base t r.2 r'.2)
      (fun n => Reading.readInOrder (R n) setting.input live entries g')
      (readInOrder setting attempts owner live earliers entries g s) := by
  induction entries generalizing g g' s with
  | nil => exact .ok ⟨rfl, h⟩
  | cons entry entries ih =>
    obtain ⟨hedge, hedges⟩ := List.forall_mem_cons.1 he
    simp only [readInOrder, Reading.readInOrder, Option.bind_eq_bind]
    refine Decides.lift (Lane.open_resolves _ _ live) ?_
    intro lane hl
    refine Decides.bind (openLane_decides hR hA hb owner hedge hl (hE _ _ hedge) h) ?_
    intro q t q' hq _
    rw [hq.lane]
    cases q'.lane.counter.isValid with
    | true => exact ih hedges hq.gathering
    | false => exact .ok ⟨rfl, hq.gathering⟩

/-- The edges of a choice come to the readings of them. -/
theorem readFirst_decides (owner : RuleId) {earliers : Earliers}
    (hE : EarliersDecide setting excused ℓ depth m attempts R edges live earliers) {entries : List (Edge × Nat)}
    (he : ∀ entry ∈ entries, edges[entry.2]? = some entry.1) {g g' : Gathering} {s : State}
    (h : Synced setting ℓ depth m R edges live offset base s g g') :
    Decides excused ℓ (fun r t r' => r.1 = r'.1 ∧ Synced setting ℓ depth m R edges live offset base t r.2 r'.2)
      (fun n => Reading.readFirst (R n) setting.input live entries g')
      (readFirst setting attempts owner live earliers entries g s) := by
  induction entries generalizing g g' s with
  | nil => exact .ok ⟨rfl, h⟩
  | cons entry entries ih =>
    obtain ⟨hedge, hedges⟩ := List.forall_mem_cons.1 he
    have hearlier := Earliers.forall_mem_chosen (hE _ _ hedge)
    simp only [readFirst, Reading.readFirst, Option.bind_eq_bind]
    refine Decides.lift (Lane.open_resolves _ _ live) ?_
    intro lane hl
    refine Decides.bind (openLane_decides hR hA hb owner hedge hl hearlier h) ?_
    intro q t q' hq _
    rw [hq.lane, hq.matched]
    cases q'.lane.counter.isValid with
    | true => exact .ok ⟨rfl, hq.gathering⟩
    | false =>
      cases q'.matched with
      | true => exact .ok ⟨rfl, hq.gathering⟩
      | false => exact ih hedges hq.gathering

omit hR hA hb [ℓ.NeBot] in
/-- The lanes that a run opens are those that its readings open. -/
theorem openAll_decides {entries : List (Edge × Nat)} {s : State} :
    Decides excused ℓ (fun lanes t lanes' => lanes = lanes' ∧ t = s) (fun _ => Reading.openAll live entries)
      ((entries.mapM fun entry => (liftM (Lane.open entry.2 entry.1 live) : Run Lane)) s) := by
  rw [Run.mapM_liftM, Reading.openAll_eq_toOption, ← Option.bind_fun_some (Except.toOption _), ← bind_pure (liftM _)]
  exact Decides.lift (Lane.mapM_open_resolves entries live) fun lanes _ => .ok ⟨rfl, rfl⟩

/-- A pass over the open edges comes to the readings of it, which leave the edges open for more. -/
theorem scan_decides {lanes : List Lane} (hl : ∀ lane ∈ lanes, lane.Opens edges live) {g g' : Gathering} {s : State}
    (h : Synced setting ℓ depth m R edges live offset base s g g') :
    Decides excused ℓ
      (fun r t r' => r.1 = r'.1 ∧ r.2.1 = r'.2.1 ∧ (∀ lane ∈ r'.2.1, lane.Opens edges live) ∧
        Synced setting ℓ depth m R edges live offset base t r.2.2 r'.2.2)
      (fun n => Reading.scan (R n) lanes g') (scan attempts lanes g s) := by
  induction lanes generalizing g g' s with
  | nil => exact .ok ⟨rfl, rfl, hl, h⟩
  | cons lane lanes ih =>
    obtain ⟨hlane, hlanes⟩ := List.forall_mem_cons.1 hl
    simp only [scan, Reading.scan, Option.bind_eq_bind]
    cases hm : lane.counter.acceptsMore with
    | false =>
      refine Decides.bind (ih hlanes h) ?_
      rintro ⟨found, rest, g1⟩ t ⟨found', rest', g1'⟩ ⟨h1, h2, h3, h4⟩ _
      simp only at h1 h2 h3 h4
      exact .ok ⟨h1, by rw [h2], List.forall_mem_cons.2 ⟨hlane, h3⟩, h4⟩
    | true =>
      simp only [if_true, h.cursor]
      refine Decides.bind (hA _ _ _ _ (h.boundary hR hb) h.steady.ready) ?_
      intro a t b hab hlevel
      have hin : InStep setting ℓ depth m R edges live offset base s { gathering := g, lane }
          { gathering := g', lane } := ⟨rfl, rfl, hlane, h⟩
      obtain ⟨h1, h2⟩ := hin.accept hR hb hab hlevel
      simp only [h1]
      by_cases hc : (Progress.accept { gathering := g', lane } b).1 = .consumed
      · simp only [hc, if_true]
        exact .ok ⟨rfl, by rw [h2.lane], List.forall_mem_cons.2 ⟨h2.opens, hlanes⟩, h2.gathering⟩
      · simp only [hc, if_false]
        refine Decides.bind (ih hlanes h2.gathering) ?_
        rintro ⟨found, rest, g1⟩ t ⟨found', rest', g1'⟩ ⟨h3, h4, h5, h6⟩ _
        simp only at h3 h4 h5 h6
        exact .ok ⟨h3, by rw [h2.lane, h4], List.forall_mem_cons.2 ⟨h2.opens, h5⟩, h6⟩

/-- All passes over the open edges come to the readings of them. -/
theorem scanAll_decides (owner : RuleId) (budget : Nat) {lanes : List Lane}
    (hl : ∀ lane ∈ lanes, lane.Opens edges live) {g g' : Gathering} {s : State}
    (h : Synced setting ℓ depth m R edges live offset base s g g') :
    Decides excused ℓ
      (fun r t r' => r.1 = r'.1 ∧ Synced setting ℓ depth m R edges live offset base t r.2 r'.2)
      (fun n => Reading.scanAll (R n) budget lanes g') (scanAll attempts owner budget lanes g s) := by
  induction budget generalizing lanes g g' s with
  | zero => exact .error (by simp [Fault.of, Fault.kind, Fault.Cause.kind])
  | succ budget ih =>
    simp only [scanAll, Reading.scanAll, Option.bind_eq_bind]
    refine Decides.bind (scan_decides hR hA hb hl h) ?_
    rintro ⟨found, lanes1, g1⟩ t ⟨found', lanes1', g1'⟩ ⟨h1, h2, h3, h4⟩ _
    simp only at h1 h2 h3 h4
    subst h1 h2
    cases found with
    | true => exact ih h3 h4
    | false => exact .ok ⟨rfl, h4⟩

end

end Graft
