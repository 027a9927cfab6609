import Graft.Proofs.RuleSimulation

/-!
# Attempts come to their readings

An attempt from scratch comes to the reading of its rule, whether or not attempts are remembered. Inside a known number of
levels, at a known depth, it does so exactly: it fails to come to a result where there is no reading. Where only the limits
are excused, it does so for all large numbers of levels.
-/

namespace Graft

open Filter Engine

variable [Pattern.Compiler]

/-! ## Entering and leaving -/

namespace State

variable {setting : Setting} {depth : Nat} {s t : State} {text : String}

theorem Ready.enter (h : s.Ready setting depth) (statistics : Statistics) :
    State.Ready setting (depth + 1) { s with depth := s.depth + 1, statistics } :=
  ⟨congrArg (· + 1) h.depth, h.collected, h.memo⟩

theorem Steady.leave (h : s.Steady setting (depth + 1) t text) {base : State} (hc : base.collected = s.collected) :
    base.Steady setting depth { t with depth := t.depth - 1 } text := by
  refine ⟨⟨?_, h.ready.collected, h.ready.memo⟩, ?_⟩
  · simp only [h.ready.depth, Nat.add_sub_cancel]
  · simp only [h.collected, adding, hc]

/-- Only the texts that were collected before matter for what was added. -/
theorem Steady.of_base (h : s.Steady setting depth t text) {base : State} (hc : base.collected = s.collected) :
    base.Steady setting depth t text :=
  ⟨h.ready, by simp only [h.collected, adding, hc]⟩

end State

omit [Pattern.Compiler] in
/-- What holds of all numbers from the next on holds of all from here on. -/
theorem eventually_succ {p : Nat → Prop} : (∀ᶠ n in atTop, p (n + 1)) ↔ ∀ᶠ n in atTop, p n := by
  conv_rhs => rw [← map_add_atTop_eq_nat 1]
  rfl

section

variable {setting : Setting} {excused : Prop} {ℓ : Filter Nat} [ℓ.NeBot] {depth : Nat} {m : Recasting}
  {attempts : Attempts} {R : Nat → Reading.Oracle} {id : RuleId} {offset : Nat} {context : Context} {s : State}

/-! ## Bodies -/

/-- The body of a rule, read from scratch, comes to its reading. -/
theorem readBody_decides (hm : ∀ id, m.identity id = Reading.noId)
    (hR : ∀ n, Reading.Sound setting.grammar setting.input (R n))
    (hA : FreshDecides setting excused ℓ depth m attempts R) (hb : Text.isBoundary setting.input offset = true)
    (hs : s.Ready setting depth) :
    Decides excused ℓ (Agrees setting depth m none s)
      (fun n => Reading.body (R n) setting.grammar setting.input id offset context)
      (readBody setting attempts id offset context s) := by
  rw [readBody]
  simp only [Reading.body, Option.bind_eq_bind]
  refine Decides.lift (setting.grammar.getRule_resolves id) ?_
  intro rule hrule
  have hr := Grammar.body?_of_getRule hrule
  cases hbody : rule.body with
  | consume kind pattern =>
    rw [hbody] at hr
    exact consume_decides hm hb hr hs
  | container kind edges =>
    rw [hbody] at hr
    exact container_decides hm hR hA hb rule hr (.none hm hR hA kind) hs
  | invoke call =>
    rw [hbody] at hr
    exact invoke_decides hm hA hb hr (fun e _ _ he => by cases he) hs

/-- How an earlier node may help the body of a rule. -/
structure BodyHelp (setting : Setting) (excused : Prop) (ℓ : Filter Nat) (depth : Nat) (m : Recasting)
    (attempts : Attempts) (R : Nat → Reading.Oracle) (id : RuleId) (context : Context) (statement : Statement)
    (derivation : Derivation) : Prop where
  container : ∀ kind edges, setting.grammar.body? id = some (.container kind edges) →
    EarliersHelp setting excused ℓ depth m attempts R kind edges context (earliersOf kind statement derivation)
  invoke : ∀ call, setting.grammar.body? id = some (.invoke call) → ∀ e target inside,
    earlierCall? statement derivation = some e → resolveCall setting.grammar call context = .ok (target, inside) →
    AgainDecides setting excused ℓ depth m attempts R call.shownAs target e inside

/-- The body of a rule, read with an earlier node at hand, comes to its reading. -/
theorem rereadBody_decides (hm : ∀ id, m.identity id = Reading.noId)
    (hR : ∀ n, Reading.Sound setting.grammar setting.input (R n))
    (hA : FreshDecides setting excused ℓ depth m attempts R) (hb : Text.isBoundary setting.input offset = true)
    {statement : Statement} {derivation : Derivation}
    (hE : BodyHelp setting excused ℓ depth m attempts R id context statement derivation)
    (hs : s.Ready setting depth) :
    Decides excused ℓ (Agrees setting depth m none s)
      (fun n => Reading.body (R n) setting.grammar setting.input id offset context)
      (rereadBody setting attempts id statement derivation offset context s) := by
  rw [rereadBody]
  simp only [Reading.body, Option.bind_eq_bind]
  refine Decides.lift (setting.grammar.getRule_resolves id) ?_
  intro rule hrule
  have hr := Grammar.body?_of_getRule hrule
  cases hbody : rule.body with
  | consume kind pattern =>
    rw [hbody] at hr
    exact consume_decides hm hb hr hs
  | container kind edges =>
    rw [hbody] at hr
    exact container_decides hm hR hA hb rule hr (hE.container kind edges hr) hs
  | invoke call =>
    rw [hbody] at hr
    exact invoke_decides hm hA hb hr (hE.invoke call hr) hs

/-! ## The memo -/

/-- An attempt that was remembered may be remembered. -/
theorem MemoEntry.sound_of_agrees {key : MemoKey} {a b : Attempt} {t : State} {text : String}
    (h : Agrees setting depth .bare none s a t b) (htext : text = b.kept setting.grammar)
    (hlevel : ∀ᶠ n in atTop, Reading.within setting.grammar setting.input (n + 1) key.rule key.offset key.context = some b) :
    MemoEntry.Sound setting key ⟨a, text⟩ := by
  have hsame := h.same
  rw [Reading.shownAttempt_none, Reading.shownAttempt_none] at hsame
  intro _
  refine ⟨⟨b, eventually_succ.1 hlevel, hsame⟩, ?_⟩
  rw [htext, ← Attempt.kept_recast setting.grammar .bare b, ← hsame, Attempt.kept_recast]

/-- Reading a body and remembering what it came to comes to the reading of the rule. -/
theorem remembering_decides (hmemo : setting.memoize = true → ℓ = atTop)
    (hA : FreshDecides setting excused ℓ depth .bare attempts (Reading.within setting.grammar setting.input))
    (hb : Text.isBoundary setting.input offset = true) (hs : s.Ready setting depth) :
    Decides excused ℓ (Agrees setting depth .bare none s)
      (fun n => Reading.within setting.grammar setting.input (n + 1) id offset context)
      ((do
        let mark ← Run.mark
        let attempt ← readBody setting attempts id offset context
        Run.reach attempt
        let appended ← Run.since mark
        Run.remember setting ⟨id, offset, context⟩ ⟨attempt, appended⟩
        return attempt : Run Attempt) s) := by
  rw [Run.mark_bind]
  refine Decides.andThen
    (readBody_decides (fun _ => rfl) (Reading.sound_within setting.grammar setting.input) hA hb hs) ?_
  intro a t b hab hlevel
  obtain ⟨furthest, hreach⟩ := Run.reach_bind a (fun _ => do
    let appended ← Run.since (Text.size (Run.innermost s.collected))
    Run.remember setting ⟨id, offset, context⟩ ⟨a, appended⟩
    return a) t
  rw [hreach, Run.since_bind]
  have htext := hab.steady.beyond hs.collected
  obtain ⟨memo, hremember, hkeeps⟩ := Run.remember_bind setting ⟨id, offset, context⟩
    ⟨a, Text.beyond (Run.innermost t.collected) (Text.size (Run.innermost s.collected))⟩ (fun _ => pure a)
    { t with furthest }
  rw [hremember]
  refine .ok ⟨hab.same, ⟨hab.steady.ready.depth, hab.steady.ready.collected, ?_⟩, hab.steady.collected⟩
  intro hon key entry hentry
  rcases hkeeps with rfl | ⟨_, rfl⟩
  · exact hab.steady.ready.memo hon key entry hentry
  · rw [Std.HashMap.getElem?_insert] at hentry
    split at hentry
    · rename_i heq
      rw [beq_iff_eq] at heq
      subst heq
      cases hentry
      rw [hmemo hon] at hlevel
      exact MemoEntry.sound_of_agrees hab htext hlevel
    · exact hab.steady.ready.memo hon key entry hentry

/-- Asking the memo first makes no difference. -/
theorem lookUpOrRead_decides (hmemo : setting.memoize = true → ℓ = atTop)
    (hA : FreshDecides setting excused ℓ depth .bare attempts (Reading.within setting.grammar setting.input))
    (hb : Text.isBoundary setting.input offset = true) (hs : s.Ready setting depth) :
    Decides excused ℓ (Agrees setting depth .bare none s)
      (fun n => Reading.within setting.grammar setting.input (n + 1) id offset context)
      (lookUpOrRead setting attempts id offset context s) := by
  rw [lookUpOrRead, Run.lookUp_bind]
  cases hon : setting.memoize with
  | false => exact remembering_decides hmemo hA hb hs
  | true =>
    cases hentry : s.memo[(⟨id, offset, context⟩ : MemoKey)]? with
    | none =>
      refine Decides.mono (remembering_decides hmemo hA hb (hs.of_eq rfl rfl rfl)) ?_
      intro a t b hab _
      exact ⟨hab.same, hab.steady.of_base rfl⟩
    | some entry =>
      obtain ⟨⟨b, hlevel, hsame⟩, happended⟩ := hs.memo hon _ _ hentry hb
      have hkept : entry.appended = b.kept setting.grammar := by
        rw [happended, ← Attempt.kept_recast setting.grammar .bare entry.attempt, hsame, Attempt.kept_recast]
      rw [hmemo hon]
      refine ⟨b, eventually_succ.2 hlevel, ?_, ?_⟩
      · rw [Reading.shownAttempt_none, Reading.shownAttempt_none, hsame]
      · rw [← hkept]
        exact (hs.steady_adding entry.appended).of_eq rfl rfl rfl

/-! ## Attempts from scratch -/

/-- An attempt that is neither cancelled nor too deep comes to the reading of its rule. -/
theorem attempt_decides (hcancelled : setting.cancelled = true → excused)
    (hdeep : setting.limits.maxRuleDepth ≤ depth → excused) (hmemo : setting.memoize = true → ℓ = atTop)
    (hA : FreshDecides setting excused ℓ (depth + 1) .bare attempts (Reading.within setting.grammar setting.input))
    (hb : Text.isBoundary setting.input offset = true) (hs : s.Ready setting depth) :
    Decides excused (ℓ.map (· + 1)) (Agrees setting depth .bare none s)
      (fun n => Reading.within setting.grammar setting.input n id offset context)
      (attempt setting attempts id offset context s) := by
  rw [attempt, Run.enter_bind]
  split
  · rename_i hc
    exact ⟨by simp [Fault.of, Fault.kind, Fault.Cause.kind], Or.inl ⟨hcancelled hc, Or.inr rfl⟩⟩
  · split
    · rename_i hd
      rw [hs.depth] at hd
      exact ⟨by simp [Fault.of, Fault.kind, Fault.Cause.kind], Or.inl ⟨hdeep hd, Or.inl rfl⟩⟩
    · refine Decides.succ (Decides.andThen (lookUpOrRead_decides hmemo hA hb (hs.enter _)) ?_)
      intro a t b hab _
      exact .ok ⟨hab.same, hab.steady.leave rfl⟩

end

/-- **Attempts are exact.** Inside a known number of levels, at a known depth, and without a memo, an attempt from scratch
comes to the reading of its rule inside as many levels as there are and as the limit of depth leaves. -/
theorem fresh_decides_exactly {setting : Setting} (hcancelled : setting.cancelled = false)
    (hmemo : setting.memoize = false) (levels depth : Nat) :
    FreshDecides setting False (pure (min levels (setting.limits.maxRuleDepth - depth))) depth .bare
      (attempts setting levels) (Reading.within setting.grammar setting.input) := by
  induction levels generalizing depth with
  | zero =>
    intro r o c s _ _
    rw [Nat.zero_min]
    exact ⟨by simp [Fault.of, Fault.kind, Fault.Cause.kind], Or.inr (eventually_pure.2 rfl)⟩
  | succ levels ih =>
    intro r o c s hb hs
    by_cases hd : setting.limits.maxRuleDepth ≤ depth
    · -- the rule cannot be entered, and no level is left for its reading
      have hzero : min (levels + 1) (setting.limits.maxRuleDepth - depth) = 0 := by omega
      rw [hzero]
      change Decides _ _ _ _ (attempt setting (attempts setting levels) r o c s)
      rw [attempt, Run.enter_bind, hcancelled, hs.depth]
      simp only [Bool.false_eq_true, if_false, hd, if_true]
      exact ⟨by simp [Fault.of, Fault.kind, Fault.Cause.kind], Or.inr (eventually_pure.2 rfl)⟩
    · have hstep : min (levels + 1) (setting.limits.maxRuleDepth - depth) =
          min levels (setting.limits.maxRuleDepth - (depth + 1)) + 1 := by omega
      rw [hstep, ← map_pure]
      exact attempt_decides (by simp [hcancelled]) (fun h => absurd h hd) (by simp [hmemo]) (ih (depth + 1)) hb hs

/-- **Attempts come to readings.** An attempt from scratch that no limit stops comes to the reading of its rule. -/
theorem fresh_decides (setting : Setting) (levels depth : Nat) :
    FreshDecides setting True atTop depth .bare (attempts setting levels)
      (Reading.within setting.grammar setting.input) := by
  induction levels generalizing depth with
  | zero =>
    intro r o c s _ _
    exact ⟨by simp [Fault.of, Fault.kind, Fault.Cause.kind], Or.inl ⟨trivial, Or.inl rfl⟩⟩
  | succ levels ih =>
    intro r o c s hb hs
    have h : Decides True (atTop.map (· + 1)) (Agrees setting depth .bare none s)
        (fun n => Reading.within setting.grammar setting.input n r o c) (attempt setting (attempts setting levels) r o c s) :=
      attempt_decides (fun _ => trivial) (fun _ => trivial) (fun _ => rfl) (ih (depth + 1)) hb hs
    rw [map_add_atTop_eq_nat] at h
    exact h

end Graft
