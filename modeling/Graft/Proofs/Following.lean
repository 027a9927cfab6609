import Graft.Proofs.Effects
import Graft.Proofs.Reading
import Graft.Proofs.Steps
import Graft.Repair

/-!
# Following runs

A run is followed from end to end by telling, step by step, what each step comes to and in which states it leaves the run: at which
depth, with which identities left, and with what in its memo. What it counts and collects otherwise is left open. Rules that match a
pattern, containers, values and whole calls are followed here, without anything that stops the call.
-/

namespace Graft

variable [Pattern.Compiler]

/-! ## Steps of a run -/

/-- From every state of one kind, a step of a run comes to a result and leaves a state of another kind. -/
def Run.Carries {α : Type} (P Q : State → Prop) (x : Run α) (a : α) : Prop :=
  ∀ s, P s → ∃ t, x s = .ok (a, t) ∧ Q t

/-- What may be known of a memo and of how many attempts were found there. -/
abbrev Knowledge := Std.HashMap MemoKey MemoEntry → Nat → Prop

/-- States at a depth, with identities left from the next on, of whose memo something is known. -/
structure Stands (known : Knowledge) (depth next : Nat) (s : State) : Prop where
  depth : s.depth = depth
  nextId : s.nextId = ⟨next⟩
  known : known s.memo s.statistics.hits

/-- At a depth, and with identities left from the first on, a step of a run comes to a result and leaves those from the last on,
whatever the memo holds. -/
abbrev Run.Gives {α : Type} (depth first last : Nat) (x : Run α) (a : α) : Prop :=
  Carries (Stands (fun _ _ => True) depth first) (Stands (fun _ _ => True) depth last) x a

namespace Run.Carries

variable {α β : Type} {P Q R : State → Prop} {known known' : Knowledge} {depth i j : Nat} {x : Run α} {f : α → Run β} {a : α}
  {b : β}

theorem pure (a : α) : Carries P P (Pure.pure a : Run α) a := fun s hs => ⟨s, rfl, hs⟩

theorem bind (hx : Carries P Q x a) (hf : Carries Q R (f a) b) : Carries P R (x >>= f) b := by
  intro s hs
  obtain ⟨t, ht, hq⟩ := hx s hs
  obtain ⟨u, hu, hr⟩ := hf t hq
  exact ⟨u, by rw [Run.bind_apply, ht, Run.ok_bind, hu], hr⟩

theorem lift {y : Except Fault α} (hy : y = .ok a) (hf : Carries P Q (f a) b) : Carries P Q ((liftM y : Run α) >>= f) b := by
  intro s hs
  rw [Run.lift_bind, hy]
  exact hf s hs

theorem mark {f : Nat → Run β} (hf : ∀ mark, Carries P Q (f mark) b) : Carries P Q (Run.mark >>= f) b :=
  fun s hs => hf _ s hs

theorem since {f : String → Run β} {mark : Nat} (hf : ∀ text, Carries P Q (f text) b) : Carries P Q (Run.since mark >>= f) b :=
  fun s hs => hf _ s hs

theorem rollback {f : Unit → Run β} {mark : Nat} (hf : Carries (Stands known depth i) Q (f ()) b) :
    Carries (Stands known depth i) Q (Run.rollback mark >>= f) b :=
  fun _ hs => hf _ ⟨hs.depth, hs.nextId, hs.known⟩

theorem append {f : Unit → Run β} {text : String} (hf : Carries (Stands known depth i) Q (f ()) b) :
    Carries (Stands known depth i) Q (Run.append text >>= f) b :=
  fun s hs => hf (s.adding text) ⟨hs.depth, hs.nextId, hs.known⟩

theorem freshId {f : NodeId → Run β} (hf : Carries (Stands known depth (i + 1)) Q (f ⟨i⟩) b) :
    Carries (Stands known depth i) Q (Run.freshId >>= f) b := by
  intro s hs
  rw [Run.freshId_bind, hs.nextId]
  exact hf _ ⟨hs.depth, rfl, hs.known⟩

/-- To count something else than what was found in the memo. -/
theorem count {g : Statistics → Statistics} {f : Unit → Run β} (hf : Carries (Stands known depth i) Q (f ()) b)
    (hg : ∀ statistics, (g statistics).hits = statistics.hits := by exact fun _ => rfl) :
    Carries (Stands known depth i) Q (Run.count g >>= f) b := by
  intro s hs
  refine hf { s with statistics := g s.statistics } ⟨hs.depth, hs.nextId, ?_⟩
  rw [hg]
  exact hs.known

theorem reach {attempt : Attempt} {f : Unit → Run β} (hf : Carries (Stands known depth i) Q (f ()) b) :
    Carries (Stands known depth i) Q (Run.reach attempt >>= f) b := by
  intro s hs
  obtain ⟨furthest, hreach⟩ := Run.reach_bind attempt f s
  rw [hreach]
  exact hf _ ⟨hs.depth, hs.nextId, hs.known⟩

/-- To ask the memo for what is not there, if there is a memo at all. -/
theorem lookUp_missed {setting : Setting} {key : MemoKey}
    (hmiss : setting.memoize = true → ∀ memo hits, known memo hits → memo[key]? = none) {f : Option Attempt → Run β}
    (hf : Carries (Stands known depth i) Q (f none) b) : Carries (Stands known depth i) Q (Run.lookUp setting key >>= f) b := by
  intro s hs
  rw [Run.lookUp_unfound fun hon => hmiss hon _ _ hs.known]
  refine hf _ ⟨?_, ?_, ?_⟩
  · rw [State.depth_unfound, hs.depth]
  · rw [State.nextId_unfound, hs.nextId]
  · rw [State.memo_unfound, State.hits_unfound]
    exact hs.known

/-- To ask the memo for what is there. -/
theorem lookUp_found {setting : Setting} (hmemo : setting.memoize = true) {key : MemoKey} {attempt : Attempt}
    (hfound : ∀ memo hits, known memo hits → ∃ text, memo[key]? = some ⟨attempt, text⟩)
    (hknown : ∀ memo hits, known memo hits → known' memo (hits + 1)) {f : Option Attempt → Run β}
    (hf : Carries (Stands known' depth i) Q (f (some attempt)) b) :
    Carries (Stands known depth i) Q (Run.lookUp setting key >>= f) b := by
  intro s hs
  obtain ⟨text, hentry⟩ := hfound _ _ hs.known
  rw [Run.lookUp_bind, if_pos hmemo, hentry]
  exact hf _ ⟨hs.depth, hs.nextId, hknown _ _ hs.known⟩

theorem remember {setting : Setting} {key : MemoKey} {entry : MemoEntry}
    (hknown : ∀ s : State, known s.memo s.statistics.hits → known' (s.remembering setting key entry).memo s.statistics.hits)
    {f : Unit → Run β} (hf : Carries (Stands known' depth i) Q (f ()) b) :
    Carries (Stands known depth i) Q (Run.remember setting key entry >>= f) b := by
  intro s hs
  rw [Run.remember_eq]
  refine hf _ ⟨?_, ?_, ?_⟩
  · rw [State.depth_remembering, hs.depth]
  · rw [State.nextId_remembering, hs.nextId]
  · rw [State.statistics_remembering]
    exact hknown s hs.known

/-- What is done between entering and leaving a rule is done one level deeper. -/
theorem inside {setting : Setting} (hcancelled : setting.cancelled = false) (hdepth : depth < setting.limits.maxRuleDepth)
    {rule : RuleId} (hx : Carries (Stands known (depth + 1) i) (Stands known' (depth + 1) j) x a)
    (hf : Carries (Stands known' depth j) Q (f a) b) :
    Carries (Stands known depth i) Q (Run.enter setting rule >>= fun _ => x >>= fun c => Run.leave >>= fun _ => f c) b := by
  intro s hs
  rw [Run.enter_bind, hcancelled, if_neg Bool.false_ne_true, if_neg (by rw [hs.depth]; omega), Run.bind_apply]
  obtain ⟨t, ht, hinside⟩ := hx s.entered ⟨congrArg (· + 1) hs.depth, hs.nextId, hs.known⟩
  rw [State.entered] at ht
  rw [ht, Run.ok_bind, Run.leave_bind]
  exact hf _ ⟨by rw [hinside.depth, Nat.add_sub_cancel], hinside.nextId, hinside.known⟩

end Run.Carries

namespace Engine

open Run

variable {setting : Setting} {A : Attempts} {id : RuleId} {offset depth i j : Nat} {context : Context} {a : Attempt}
  {known known' known'' : Knowledge} {P Q R : State → Prop}

/-! ## Rules -/

/-- What a consume rule comes to where its pattern matches. -/
theorem consume_hit {kind : ConsumeKind} {p : Pattern} (hb : Text.isBoundary setting.input offset = true)
    {length examined : Nat} {text : String}
    (hm : p.matchFront ((Text.bytes setting.input).drop offset) = ⟨some length, examined⟩)
    (ht : Text.slice? setting.input offset (offset + length) = some text) :
    Carries (Stands known depth i) (Stands known depth (i + 1)) (consume setting id kind (.pattern p) offset context)
      (.success (.leaf ⟨i⟩ ⟨offset, Text.size text⟩ text) (.leaf id ⟨offset, examined⟩)) := by
  rw [consume]
  refine .lift (a := p) rfl ?_
  intro s hs
  rw [matchAt_bind, if_pos hb, hm]
  simp only [ht]
  revert s
  cases kind with
  | keep => exact Carries.append (.freshId (.pure _))
  | skip => exact Carries.freshId (.pure _)

/-- What a consume rule comes to where its pattern matches the whole text. -/
theorem consume_whole {kind : ConsumeKind} {p : Pattern} {examined : Nat}
    (hm : p.matchFront (Text.bytes setting.input) = ⟨some (Text.size setting.input), examined⟩) :
    Carries (Stands known depth i) (Stands known depth (i + 1)) (consume setting id kind (.pattern p) 0 context)
      (.success (.leaf ⟨i⟩ ⟨0, Text.size setting.input⟩ setting.input) (.leaf id ⟨0, examined⟩)) := by
  have hslice := Text.slice?_self setting.input
  rw [← Nat.zero_add (Text.size setting.input)] at hslice
  exact consume_hit (Text.isBoundary_zero _) (by rw [List.drop_zero]; exact hm) hslice

/-- What a consume rule comes to where its pattern does not match. -/
theorem consume_miss {kind : ConsumeKind} {p : Pattern} (hb : Text.isBoundary setting.input offset = true) {examined : Nat}
    (hm : p.matchFront ((Text.bytes setting.input).drop offset) = ⟨none, examined⟩) :
    Carries P P (consume setting id kind (.pattern p) offset context) (.failure id ⟨offset, examined⟩) := by
  rw [consume]
  refine .lift (a := p) rfl ?_
  intro s hs
  rw [matchAt_bind, if_pos hb, hm]
  exact ⟨s, rfl, hs⟩

/-- What a consume rule comes to behind a text that its pattern does not match without any. -/
theorem consume_end {kind : ConsumeKind} {p : Pattern} {examined : Nat} (hm : p.matchFront [] = ⟨none, examined⟩) :
    Carries P P (consume setting id kind (.pattern p) (Text.size setting.input) context)
      (.failure id ⟨Text.size setting.input, examined⟩) := by
  refine consume_miss (Text.isBoundary_size _) ?_
  rw [List.drop_of_length_le (Nat.le_of_eq (Text.length_bytes _))]
  exact hm

/-- An attempt from scratch that is not found in a memo comes to what the body of its rule does, and may be remembered. -/
theorem attempt_missed (hcancelled : setting.cancelled = false) (hdepth : depth < setting.limits.maxRuleDepth)
    (hmiss : setting.memoize = true → ∀ memo hits, known memo hits → memo[(⟨id, offset, context⟩ : MemoKey)]? = none)
    (h : Carries (Stands known (depth + 1) i) (Stands known' (depth + 1) j) (readBody setting A id offset context) a)
    (hremember : ∀ (text : String) (s : State), known' s.memo s.statistics.hits →
      known'' (s.remembering setting ⟨id, offset, context⟩ ⟨a, text⟩).memo s.statistics.hits) :
    Carries (Stands known depth i) (Stands known'' depth j) (attempt setting A id offset context) a := by
  have hread : Carries (Stands known (depth + 1) i) (Stands known'' (depth + 1) j) (lookUpOrRead setting A id offset context) a :=
    .lookUp_missed hmiss (.mark fun _ => .bind h (.reach (.since fun text => .remember (hremember text) (.pure a))))
  exact .inside hcancelled hdepth hread (.pure a)

/-- An attempt from scratch that is found in the memo. -/
theorem attempt_found (hcancelled : setting.cancelled = false) (hdepth : depth < setting.limits.maxRuleDepth)
    (hmemo : setting.memoize = true)
    (hfound : ∀ memo hits, known memo hits → ∃ text, memo[(⟨id, offset, context⟩ : MemoKey)]? = some ⟨a, text⟩)
    (hknown : ∀ memo hits, known memo hits → known' memo (hits + 1)) :
    Carries (Stands known depth i) (Stands known' depth i) (attempt setting A id offset context) a :=
  .inside hcancelled hdepth (.lookUp_found hmemo hfound hknown (.pure a)) (.pure a)

/-- An attempt from scratch comes to what the body of its rule does, where nothing is remembered and nothing stops it. -/
theorem attempt_gives (hmemo : setting.memoize = false) (hcancelled : setting.cancelled = false)
    (hdepth : depth < setting.limits.maxRuleDepth) (h : Gives (depth + 1) i j (readBody setting A id offset context) a) :
    Gives depth i j (attempt setting A id offset context) a :=
  attempt_missed hcancelled hdepth (fun hon => absurd (hmemo.symm.trans hon) Bool.false_ne_true) h fun _ _ _ => trivial

/-- An attempt from scratch in one state, where it is not found in a memo, comes to what the body of its rule does there. -/
theorem attempt_run (hcancelled : setting.cancelled = false) {s t : State} (hdepth : s.depth < setting.limits.maxRuleDepth)
    (hmiss : setting.memoize = true → s.memo[(⟨id, offset, context⟩ : MemoKey)]? = none)
    (h : readBody setting A id offset context (s.entered.unfound setting) = .ok (a, t)) :
    ∃ u, attempt setting A id offset context s = .ok (a, u) ∧ u.nextId = t.nextId ∧ u.statistics.hits = t.statistics.hits := by
  have hread : lookUpOrRead setting A id offset context s.entered =
      .ok (a, (t.reaching a).remembering setting ⟨id, offset, context⟩ ⟨a, (s.entered.unfound setting).since t⟩) := by
    rw [lookUpOrRead, lookUp_unfound (by rw [State.memo_entered]; exact hmiss)]
    simp only
    rw [mark_bind, bind_apply, h, ok_bind]
    simp only
    rw [reach_eq, since_bind, remember_eq, State.since, State.collected_reaching]
    rfl
  refine ⟨((t.reaching a).remembering setting ⟨id, offset, context⟩ ⟨a, (s.entered.unfound setting).since t⟩).left, ?_, ?_, ?_⟩
  · rw [attempt, enter_bind, hcancelled, if_neg Bool.false_ne_true, if_neg (Nat.not_le.2 hdepth), bind_apply]
    change (lookUpOrRead setting A id offset context s.entered >>= _) = _
    rw [hread, ok_bind]
    rfl
  · exact (State.nextId_remembering ..).trans (State.nextId_reaching ..)
  · change ((t.reaching a).remembering setting ⟨id, offset, context⟩ ⟨a, (s.entered.unfound setting).since t⟩).statistics.hits = _
    rw [State.statistics_remembering, State.statistics_reaching]

/-- An attempt again on a node that was touched comes to what the body of its rule does. -/
theorem reattempt_gives {statement : Statement} {d : Derivation} (hrule : d.rule = id)
    (htouched : setting.modified.contains statement.id = true) (hcancelled : setting.cancelled = false)
    (hdepth : depth < setting.limits.maxRuleDepth)
    (h : Gives (depth + 1) i j (rereadBody setting A id statement d offset context) a) :
    Gives depth i j (reattempt setting A id statement d offset context) a := by
  have hread : Gives (depth + 1) i j (Run.count (fun s => { s with rederived := s.rederived + 1 }) >>= fun _ =>
      rereadBody setting A id statement d offset context) a := .count h
  have hleave : Gives depth j j (Run.reach a >>= fun _ => pure a) a := .reach (.pure a)
  rw [reattempt, if_neg (not_not_intro hrule), htouched, if_neg (by simp)]
  have hinside :=
    @Carries.inside _ _ _ _ _ _ _ _ _ _ (fun c => Run.reach c >>= fun _ => pure c) _ _ _ hcancelled hdepth id hread hleave
  simpa only [bind_assoc] using hinside

/-- An attempt again on a node that was not touched, and starts where it did, keeps the node. -/
theorem reattempt_kept {statement : Statement} {d : Derivation} (hrule : d.rule = id) (hoffset : statement.region.offset = offset)
    (htouched : setting.modified.contains statement.id = false) (hknown : statement.Known setting.grammar d) :
    Gives depth i i (reattempt setting A id statement d offset context) (.success statement d) := by
  have hcollect : Gives depth i i (recollect setting.grammar statement d) () := by
    intro s hs
    exact ⟨_, recollect_eq setting.grammar statement d s hknown, hs.depth, hs.nextId, hs.known⟩
  rw [reattempt, if_neg (not_not_intro hrule), if_pos (by simp [hoffset, htouched])]
  exact .bind hcollect (.reach (.count (.pure _)))

variable {live : Context} {entries : List (Edge × Nat)} {lanes lanes' : List Lane} {lane : Lane} {g g' : Gathering}
  {statement : Statement}

/-! ## Containers in order -/

section

variable {owner : RuleId} {budget : Nat} {p q : Progress}

/-- An edge that accepts no more is left as it is. -/
theorem readFresh_full (hm : p.lane.counter.acceptsMore = false) : Carries P P (readFresh A owner (budget + 1) p) p := by
  rw [readFresh]
  simp only [hm, Bool.false_eq_true, if_false]
  exact .pure p

/-- An attempt that consumes is followed by others. -/
theorem readFresh_consumed (hm : p.lane.counter.acceptsMore = true)
    (ha : Carries P Q (A.fresh p.lane.edge.rule p.gathering.cursor p.lane.context) a)
    (hs : a.statement = some statement) (he : statement.region.isEmpty = false)
    (hrest : Carries Q R (readFresh A owner budget
      ⟨(p.gathering.look a.interest).push ⟨p.lane.index, statement, a.derivation⟩,
        { p.lane with counter := p.lane.counter.addOne }, true⟩) q) :
    Carries P R (readFresh A owner (budget + 1) p) q := by
  rw [readFresh]
  simp only [hm, if_true]
  refine .bind ha ?_
  simp only [Progress.accept_consumed hs he]
  exact hrest

/-- An attempt that fails is the last. -/
theorem readFresh_failed (hm : p.lane.counter.acceptsMore = true)
    (ha : Carries P Q (A.fresh p.lane.edge.rule p.gathering.cursor p.lane.context) a) (hs : a.statement = none) :
    Carries P Q (readFresh A owner (budget + 1) p) { p with gathering := p.gathering.look a.interest } := by
  rw [readFresh]
  simp only [hm, if_true]
  refine .bind ha ?_
  simp only [Progress.accept_failure hs]
  exact .pure _

/-- An attempt that reads nothing is the last. -/
theorem readFresh_empty (hm : p.lane.counter.acceptsMore = true)
    (ha : Carries P Q (A.fresh p.lane.edge.rule p.gathering.cursor p.lane.context) a)
    (hs : a.statement = some statement) (he : statement.region.isEmpty = true) :
    Carries P Q (readFresh A owner (budget + 1) p)
      ⟨(p.gathering.look a.interest).pushMany ⟨p.lane.index, statement, a.derivation⟩ p.lane.counter.missing,
        { p.lane with counter := p.lane.counter.addMissing }, true⟩ := by
  rw [readFresh]
  simp only [hm, if_true]
  refine .bind ha ?_
  simp only [Progress.accept_empty hs he]
  exact .pure _

theorem readAgain_nil : Carries P P (readAgain A [] p) (false, p) := .pure _

/-- An earlier child that is read again, and consumes, is followed by the next one. -/
theorem readAgain_consumed {earlier : Earlier} {rest : List Earlier} {r : Bool × Progress}
    (hm : p.lane.counter.acceptsMore = true)
    (ha : Carries P Q (A.again p.lane.edge.rule earlier.1 earlier.2 p.gathering.cursor p.lane.context) a)
    (hs : a.statement = some statement) (he : statement.region.isEmpty = false)
    (hrest : Carries Q R (readAgain A rest
      ⟨(p.gathering.look a.interest).push ⟨p.lane.index, statement, a.derivation⟩,
        { p.lane with counter := p.lane.counter.addOne }, true⟩) r) :
    Carries P R (readAgain A (earlier :: rest) p) r := by
  rw [readAgain]
  simp only [hm, if_true]
  refine .bind ha ?_
  simp only [Progress.accept_consumed hs he]
  exact hrest

/-- An edge whose earlier children were read again is read on from scratch. -/
theorem readLane_again {earlier : List Earlier} {r : Progress} (h : Carries P Q (readAgain A earlier p) (false, q))
    (hrest : Carries Q R (readFresh A owner (setting.remaining q.gathering.cursor + 1) q) r) :
    Carries P R (readLane setting A owner earlier p) r :=
  .bind h hrest

/-- An edge that was not read before is read from scratch. -/
theorem readLane_fresh (h : Carries P Q (readFresh A owner (setting.remaining p.gathering.cursor + 1) p) q) :
    Carries P Q (readLane setting A owner [] p) q :=
  readLane_again readAgain_nil h

end

/-- An edge whose only attempt fails. -/
theorem readLane_failed {owner : RuleId} {p : Progress} (hm : p.lane.counter.acceptsMore = true)
    (ha : Carries P Q (A.fresh p.lane.edge.rule p.gathering.cursor p.lane.context) a) (hs : a.statement = none) :
    Carries P Q (readLane setting A owner [] p) { p with gathering := p.gathering.look a.interest } :=
  readLane_fresh (readFresh_failed hm ha hs)

/-- An edge that has to be read once is read by one attempt that consumes. -/
theorem readLane_once {owner : RuleId} {index : Nat} {edge : Edge} {budget : Nat}
    (hr : setting.remaining g.cursor = budget + 1) (ha : Carries P Q (A.fresh edge.rule g.cursor context) a)
    (hs : a.statement = some statement) (he : statement.region.isEmpty = false) :
    Carries P Q (readLane setting A owner [] { gathering := g, lane := ⟨index, edge, context, .start .once⟩ })
      ⟨(g.look a.interest).push ⟨index, statement, a.derivation⟩, ⟨index, edge, context, ⟨.once, 1⟩⟩, true⟩ := by
  refine readLane_fresh (readFresh_consumed rfl ha hs he ?_)
  rw [hr]
  exact readFresh_full rfl

/-- A value in one state has the body that its children make up there. -/
theorem value_run {edges : List Edge} {earliers : Earliers} {body : Statement} {inner : Derivation}
    (h : Carries P (Stands known depth j) (inOrder setting A id edges earliers offset live) (.success body inner)) (name : String)
    {s : State} (hs : P s.opened) :
    ∃ text t, value setting A id name false edges earliers offset live s =
        .ok (.success (.value ⟨j⟩ body.region name text body) (.around id inner), t) ∧ Stands known depth (j + 1) t := by
  obtain ⟨t, ht, hstands⟩ := h s.opened hs
  refine ⟨innermost t.collected, t.closed.issued, ?_, hstands.depth, congrArg NodeId.next hstands.nextId, hstands.known⟩
  rw [← hstands.nextId, value, openValue_bind, bind_apply]
  change (inOrder setting A id edges earliers offset live s.opened >>= _) = _
  rw [ht, ok_bind]
  simp only
  rw [closeValue_bind]
  simp only [Attempt.success, Bool.false_and, Bool.false_eq_true, if_false, freshId_bind]
  rfl

/-! ## Containers in any order -/

theorem openAll_gives (h : Reading.openAll live entries = some lanes) :
    Carries P P (entries.mapM fun entry => (liftM (Lane.open entry.2 entry.1 live) : Run Lane)) lanes := by
  rw [Run.mapM_liftM, Reading.openAll_eq_some_iff.1 h]
  exact .pure _

/-- An earlier child that is read again is followed by the next one. -/
theorem replay_consumed {index : Nat} {earlier : Earlier} {rest : List (Nat × Earlier)} {r : List Lane × Gathering}
    (hl : lanes[index]? = some lane) (hm : lane.counter.acceptsMore = true)
    (ha : Carries P Q (A.again lane.edge.rule earlier.1 earlier.2 g.cursor lane.context) a)
    (hs : a.statement = some statement) (he : statement.region.isEmpty = false)
    (hrest : Carries Q R (replay A rest (lanes.set index { lane with counter := lane.counter.addOne })
      ((g.look a.interest).push ⟨lane.index, statement, a.derivation⟩)) r) :
    Carries P R (replay A ((index, earlier) :: rest) lanes g) r := by
  rw [replay, hl]
  simp only [hm, if_true]
  refine .bind ha ?_
  simp only [Progress.accept_consumed hs he, reduceCtorEq, if_false]
  exact hrest

/-- A lane that consumes ends a scan. -/
theorem scan_consumed (hm : lane.counter.acceptsMore = true)
    (ha : Carries P Q (A.fresh lane.edge.rule g.cursor lane.context) a)
    (hs : a.statement = some statement) (he : statement.region.isEmpty = false) :
    Carries P Q (scan A (lane :: lanes) g)
      (true, { lane with counter := lane.counter.addOne } :: lanes,
        (g.look a.interest).push ⟨lane.index, statement, a.derivation⟩) := by
  rw [scan]
  simp only [hm, if_true]
  refine .bind ha ?_
  simp only [Progress.accept_consumed hs he, if_true]
  exact .pure _

section

variable {found : Bool}

/-- A lane that fails is passed over by a scan. -/
theorem scan_failed (hm : lane.counter.acceptsMore = true)
    (ha : Carries P Q (A.fresh lane.edge.rule g.cursor lane.context) a) (hs : a.statement = none)
    (hrest : Carries Q R (scan A lanes (g.look a.interest)) (found, lanes', g')) :
    Carries P R (scan A (lane :: lanes) g) (found, lane :: lanes', g') := by
  rw [scan]
  simp only [hm, if_true]
  refine .bind ha ?_
  simp only [Progress.accept_failure hs, reduceCtorEq, if_false]
  exact .bind hrest (.pure _)

/-- A lane that accepts no more is passed over by a scan. -/
theorem scan_full (hm : lane.counter.acceptsMore = false)
    (hrest : Carries P R (scan A lanes g) (found, lanes', g')) :
    Carries P R (scan A (lane :: lanes) g) (found, lane :: lanes', g') := by
  rw [scan]
  simp only [hm, Bool.false_eq_true, if_false]
  exact .bind hrest (.pure _)

variable {owner : RuleId} {budget : Nat} {r : List Lane × Gathering}

theorem scanAll_again (h : Carries P Q (scan A lanes g) (true, lanes', g'))
    (hrest : Carries Q R (scanAll A owner budget lanes' g') r) :
    Carries P R (scanAll A owner (budget + 1) lanes g) r := by
  rw [scanAll]
  exact .bind h hrest

theorem scanAll_done (h : Carries P Q (scan A lanes g) (false, lanes', g')) :
    Carries P Q (scanAll A owner (budget + 1) lanes g) (lanes', g') := by
  rw [scanAll]
  exact .bind h (.pure _)

end

section

variable {k : Nat} {edges : List Edge} {earliers : Earliers}

/-- A container in any order whose counts are satisfied succeeds. -/
theorem anyOrder_valid {opened : List Lane} {g1 : Gathering} (hl : Reading.openAll live edges.zipIdx = some opened)
    (hr : Gives depth i j (replay A earliers.children opened (.begin offset)) (lanes, g1))
    (hs : Gives depth j k (scanAll A id (setting.remaining g1.cursor + 1) lanes g1) (lanes', g'))
    (hv : lanes'.all (·.counter.isValid) = true) :
    Gives depth i (k + 1) (anyOrder setting A id edges earliers offset live)
      (.success (g'.statement ⟨k⟩) (g'.derivation id none)) := by
  refine .mark fun _ => .bind (openAll_gives hl) (.bind hr (.bind hs ?_))
  simp only [hv, if_true]
  exact .freshId (.pure _)

/-- A container in any order fails where a count is not satisfied. -/
theorem anyOrder_invalid {opened : List Lane} {g1 : Gathering} (hl : Reading.openAll live edges.zipIdx = some opened)
    (hr : Gives depth i j (replay A earliers.children opened (.begin offset)) (lanes, g1))
    (hs : Gives depth j k (scanAll A id (setting.remaining g1.cursor + 1) lanes g1) (lanes', g'))
    (hv : lanes'.all (·.counter.isValid) = false) :
    Gives depth i k (anyOrder setting A id edges earliers offset live) (g'.fail id) := by
  refine .mark fun _ => .bind (openAll_gives hl) (.bind hr (.bind hs ?_))
  simp only [hv, Bool.false_eq_true, if_false]
  exact .rollback (.pure _)

end

end Engine

/-! ## Whole calls -/

section

variable {grammar : Grammar} {input : String} {options : Options} {first last : Nat} {a : Attempt} {statement : Statement}
  {d : Derivation}

theorem Limits.checkInput_ok {limits : Limits} (h : Text.size input ≤ limits.maxInputSize) :
    limits.checkInput input = .ok () := by
  rw [Limits.checkInput, if_neg (Nat.not_lt.2 h)]

/-- A parse whose root attempt reads the whole text. -/
theorem parse_of_run (hsize : Text.size input ≤ options.limits.maxInputSize) {t : State}
    (h : (Engine.atRoot (.make grammar input options {})).fresh grammar.root 0 options.context { nextId := ⟨first⟩ } =
      .ok (.success statement d, t)) (hstop : statement.region.stop = Text.size input) :
    grammar.parse input options ⟨first⟩ = .ok (⟨statement, d, t.statistics⟩, t.nextId) := by
  rw [Grammar.parse, Limits.checkInput_ok hsize, Run.ok_bind]
  simp only [StateT.run, h, Run.ok_bind, Tree.ofRun, Attempt.success, hstop, if_true]
  rfl

theorem parse_of_gives (hsize : Text.size input ≤ options.limits.maxInputSize)
    (h : Run.Gives 0 first last ((Engine.atRoot (.make grammar input options {})).fresh grammar.root 0 options.context)
      (.success statement d)) (hstop : statement.region.stop = Text.size input) :
    ∃ statistics, grammar.parse input options ⟨first⟩ = .ok (⟨statement, d, statistics⟩, ⟨last⟩) := by
  obtain ⟨t, ht, _, hi, _⟩ := h { nextId := ⟨first⟩ } ⟨rfl, rfl, trivial⟩
  exact ⟨t.statistics, by rw [← hi]; exact parse_of_run hsize ht hstop⟩

/-- A parse whose root attempt does not read the whole text. -/
theorem parse_of_gives_short (hsize : Text.size input ≤ options.limits.maxInputSize)
    (h : Run.Gives 0 first last ((Engine.atRoot (.make grammar input options {})).fresh grammar.root 0 options.context) a)
    (hshort : ∀ statement, a.statement = some statement → statement.region.stop ≠ Text.size input) :
    ∃ fault, grammar.parse input options ⟨first⟩ = .error fault ∧ fault.kind = .parseFailed := by
  obtain ⟨t, ht, _, hi, _⟩ := h { nextId := ⟨first⟩ } ⟨rfl, rfl, trivial⟩
  rw [Grammar.parse, Limits.checkInput_ok hsize, Run.ok_bind]
  simp only [StateT.run, ht, Run.ok_bind, Tree.ofRun]
  cases hs : a.statement with
  | none => exact ⟨_, rfl, rfl⟩
  | some statement =>
    simp only [hshort statement hs, if_false]
    exact ⟨_, rfl, rfl⟩

variable {tree : Tree} {edits : List Edit} {t : EditedTree}

/-- A repair of a touched root attempts the root again. -/
theorem repair_eq_rederive (hne : edits ≠ []) (hcount : edits.length ≤ options.limits.maxEdits)
    (ht : tree.applyEdits edits = .ok t) (hsize : Text.size t.text ≤ options.limits.maxInputSize)
    (htouched : t.modified.contains t.statement.id = true) (nextId : NodeId) :
    grammar.repair tree edits options nextId = grammar.rederive t options nextId := by
  rw [Grammar.repair, if_neg (by simpa using hne), if_neg (Nat.not_lt.2 hcount), ht, Run.ok_bind,
    Limits.checkInput_ok hsize, Run.ok_bind, if_pos htouched]

/-- A repair of a root that is not touched and ends where the text does keeps it. -/
theorem repair_of_untouched (hne : edits ≠ []) (hcount : edits.length ≤ options.limits.maxEdits)
    (ht : tree.applyEdits edits = .ok t) (hsize : Text.size t.text ≤ options.limits.maxInputSize)
    (htouched : t.modified.contains t.statement.id = false) (hstop : t.statement.region.stop = Text.size t.text)
    (nextId : NodeId) : grammar.repair tree edits options nextId = .ok (⟨t.statement, t.derivation, {}⟩, nextId) := by
  rw [Grammar.repair, if_neg (by simpa using hne), if_neg (Nat.not_lt.2 hcount), ht, Run.ok_bind,
    Limits.checkInput_ok hsize, Run.ok_bind, if_neg (by simp [htouched]), Grammar.keepTree]
  simp only [hstop, if_true]
  rfl

/-- Attempting the root again where it reads the whole text. -/
theorem rederive_of_gives
    (h : Run.Gives 0 first last ((Engine.atRoot (.make grammar t.text options t.modified)).again grammar.root t.statement
      t.derivation 0 options.context) (.success statement d))
    (hstop : statement.region.stop = Text.size t.text) (htext : statement.rawText = t.text) :
    ∃ statistics, grammar.rederive t options ⟨first⟩ = .ok (⟨statement, d, statistics⟩, ⟨last⟩) := by
  obtain ⟨s, hs, _, hi, _⟩ := h { nextId := ⟨first⟩ } ⟨rfl, rfl, trivial⟩
  refine ⟨s.statistics, ?_⟩
  rw [Grammar.rederive]
  simp only [StateT.run, hs, Run.ok_bind, Tree.ofRun, Attempt.success, hstop, if_true, Tree.text, htext, hi]
  rfl

end

end Graft
