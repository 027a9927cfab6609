import Graft.Proofs.Likeness

/-!
# Runs side by side

Two runs on one text, the first of which remembers nothing, go side by side: they come to the same up to identities, add the
same text, and reach equally far beyond where they began, or they end in the same fault. Only a limit may part them. A memo
holds what any run without a memo comes to, so that a run that looks an attempt up keeps pace with one that makes it again.
-/

namespace Graft

open Engine

variable {α β γ δ : Type}

variable [Pattern.Compiler]

/-! ## States -/

/-- Settings of one call on one text, the first of which remembers nothing. -/
structure Setting.Twins (σ τ : Setting) : Prop where
  grammar : τ.grammar = σ.grammar
  input : τ.input = σ.input
  depth : τ.limits.maxRuleDepth = σ.limits.maxRuleDepth
  cancelled : τ.cancelled = σ.cancelled
  forgets : σ.memoize = false

/-- A remembered attempt is what every run without a memo comes to, unless a limit stops it: it adds the same text, and reaches
no further than has been noted. -/
def MemoEntry.Recalls (σ : Setting) (noted : Nat) (key : MemoKey) (entry : MemoEntry) : Prop :=
  ∀ levels s, s.collected ≠ [] →
    match lookUpOrRead σ (attempts σ levels) key.rule key.offset key.context s with
    | .ok (a, t) =>
      a.recast .bare = entry.attempt.recast .bare ∧ t.collected = (s.adding entry.appended).collected ∧
        t.depth = s.depth ∧ ∃ reach ≤ noted, t.furthest = max s.furthest reach
    | .error fault => fault.kind = .limitExceeded

/-- A state that remembers only what may be recalled. -/
def State.Recalls (σ τ : Setting) (t : State) : Prop :=
  τ.memoize = true → ∀ (key : MemoKey) (entry : MemoEntry), t.memo[key]? = some entry → entry.Recalls σ t.furthest key

/-- States from which two runs may set out: unless either may be stopped, they are as deep. Where attempts are remembered they
have reached as far, and collect text. -/
structure State.Level (leave : Leave) (σ τ : Setting) (s t : State) : Prop where
  collects : τ.memoize = true → s.collected ≠ []
  collects' : τ.memoize = true → t.collected ≠ []
  even : leave = .either ∨ s.depth = t.depth ∧ (τ.memoize = true → s.furthest = t.furthest)
  recalls : t.Recalls σ τ

/-- What two runs have done since two states: they have added the same text, and noted the same reach. -/
structure State.Abreast (σ τ : Setting) (s t s' t' : State) : Prop where
  text : ∃ text, s'.collected = (s.adding text).collected ∧ t'.collected = (t.adding text).collected
  reach : ∃ reach, s'.furthest = max s.furthest reach ∧ t'.furthest = max t.furthest reach
  depth : s'.depth = s.depth
  depth' : t'.depth = t.depth
  recalls : t'.Recalls σ τ

namespace State

variable {leave : Leave} {σ τ : Setting} {s t s₁ t₁ s₂ t₂ : State}

theorem collected_ne_nil {text : String} (h : s₁.collected = (s.adding text).collected) (hs : s.collected ≠ []) :
    s₁.collected ≠ [] := by
  rw [h]
  obtain ⟨memo, collected, depth, furthest, statistics, nextId⟩ := s
  cases collected with
  | nil => exact absurd rfl hs
  | cons top outer => simp [adding, Run.withInnermost]

/-- What may be recalled may still be recalled when a run has reached further. -/
theorem Recalls.of_le (h : t.Recalls σ τ) (hm : t₁.memo = t.memo) (hf : t.furthest ≤ t₁.furthest) :
    t₁.Recalls σ τ := by
  intro hon key entry hentry levels s hs
  rw [hm] at hentry
  have h1 := h hon key entry hentry levels s hs
  generalize lookUpOrRead σ (attempts σ levels) key.rule key.offset key.context s = r at h1
  cases r with
  | error fault => exact h1
  | ok r =>
    obtain ⟨h2, h3, h4, reach, h5, h6⟩ := h1
    exact ⟨h2, h3, h4, reach, Nat.le_trans h5 hf, h6⟩

namespace Abreast

theorem refl (h : t.Recalls σ τ) : Abreast σ τ s t s t where
  text := ⟨"", by rw [adding_empty], by rw [adding_empty]⟩
  reach := ⟨0, by rw [Nat.max_zero], by rw [Nat.max_zero]⟩
  depth := rfl
  depth' := rfl
  recalls := h

theorem trans (h : Abreast σ τ s t s₁ t₁) (h' : Abreast σ τ s₁ t₁ s₂ t₂) : Abreast σ τ s t s₂ t₂ := by
  obtain ⟨text, h1, h2⟩ := h.text
  obtain ⟨text', h1', h2'⟩ := h'.text
  obtain ⟨reach, h3, h4⟩ := h.reach
  obtain ⟨reach', h3', h4'⟩ := h'.reach
  refine ⟨⟨text ++ text', collected_trans h1 h1', collected_trans h2 h2'⟩, ⟨max reach reach', ?_, ?_⟩,
    h'.depth.trans h.depth, h'.depth'.trans h.depth', h'.recalls⟩
  · rw [h3', h3, Nat.max_assoc]
  · rw [h4', h4, Nat.max_assoc]

/-- What a step changes beside the texts, the depth, the reach and the memo does not matter. -/
theorem of_eq (h : Abreast σ τ s t s₁ t₁)
    (hs : s₂ = { s₁ with memo := s₂.memo, statistics := s₂.statistics, nextId := s₂.nextId })
    (ht : t₂ = { t₁ with statistics := t₂.statistics, nextId := t₂.nextId }) : Abreast σ τ s t s₂ t₂ := by
  rw [hs, ht]
  exact ⟨h.text, h.reach, h.depth, h.depth', h.recalls.of_le rfl (Nat.le_refl _)⟩

/-- Both runs take back what they have added. -/
theorem rollback (h : Abreast σ τ s t s₁ t₁) :
    Abreast σ τ s t
      { s₁ with
        collected := Run.withInnermost
          (Text.upTo (Run.innermost s₁.collected) (Text.size (Run.innermost s.collected))) s₁.collected }
      { t₁ with
        collected := Run.withInnermost
          (Text.upTo (Run.innermost t₁.collected) (Text.size (Run.innermost t.collected))) t₁.collected } := by
  obtain ⟨text, h1, h2⟩ := h.text
  refine ⟨⟨"", ?_, ?_⟩, h.reach, h.depth, h.depth', h.recalls.of_le rfl (Nat.le_refl _)⟩
  · rw [adding_empty]
    exact rollback_of_collected h1
  · rw [adding_empty]
    exact rollback_of_collected h2

/-- Both runs end a value with the same text, and are back at the texts around it. -/
theorem close (h : Abreast σ τ { s with collected := "" :: s.collected } { t with collected := "" :: t.collected } s₁ t₁) :
    Run.innermost s₁.collected = Run.innermost t₁.collected ∧
      Abreast σ τ s t { s₁ with collected := s₁.collected.drop 1 } { t₁ with collected := t₁.collected.drop 1 } := by
  obtain ⟨text, h1, h2⟩ := h.text
  refine ⟨by rw [h1, h2]; rfl, ⟨"", ?_, ?_⟩, h.reach, h.depth, h.depth', h.recalls.of_le rfl (Nat.le_refl _)⟩
  · rw [adding_empty, h1]
    rfl
  · rw [adding_empty, h2]
    rfl

end Abreast

/-- Where two runs have gone side by side they may go on. -/
theorem Level.of_abreast (h : Level leave σ τ s t) (h' : Abreast σ τ s t s₁ t₁) : Level leave σ τ s₁ t₁ := by
  obtain ⟨text, h1, h2⟩ := h'.text
  obtain ⟨reach, h3, h4⟩ := h'.reach
  refine ⟨fun hon => collected_ne_nil h1 (h.collects hon), fun hon => collected_ne_nil h2 (h.collects' hon),
    h.even.imp id ?_, h'.recalls⟩
  rintro ⟨hd, hf⟩
  rw [h'.depth, h'.depth', h3, h4, hd]
  exact ⟨rfl, fun hon => by rw [hf hon]⟩

end State

/-! ## Runs -/

/-- Two runs that go side by side from all states from which they may set out. -/
def Run.Apace (leave : Leave) (σ τ : Setting) (R : α → β → Prop) (x : Run α) (y : Run β) : Prop :=
  ∀ s t, State.Level leave σ τ s t →
    Mirrors leave (fun a s' b t' => R a b ∧ State.Abreast σ τ s t s' t') (x s) (y t)

namespace Run.Apace

variable {leave : Leave} {σ τ : Setting} {R : α → β → Prop} {R' : γ → δ → Prop}

theorem pure {a : α} {b : β} (h : R a b) : Apace leave σ τ R (pure a) (pure b) :=
  fun _ _ hl => .ok ⟨h, .refl hl.recalls⟩

theorem fail (cause : Fault.Cause) : Apace leave σ τ R (Run.fail cause) (Run.fail cause) :=
  fun _ _ _ => .same _

theorem bind {x : Run α} {y : Run β} {f : α → Run γ} {g : β → Run δ} (h : Apace leave σ τ R x y)
    (hf : ∀ a b, R a b → Apace leave σ τ R' (f a) (g b)) : Apace leave σ τ R' (x >>= f) (y >>= g) := by
  intro s t hl
  refine (h s t hl).bind ?_
  rintro a s₁ b t₁ ⟨hr, hab⟩
  exact (hf a b hr s₁ t₁ (hl.of_abreast hab)).mono fun _ _ _ _ h2 => ⟨h2.1, hab.trans h2.2⟩

/-- A step that both runs leave to the grammar. -/
theorem lift (x : Except Fault α) : Apace leave σ τ (· = ·) (liftM x : Run α) (liftM x : Run α) := by
  intro s t hl
  cases x with
  | ok a => exact .ok ⟨rfl, .refl hl.recalls⟩
  | error fault => exact .same fault

theorem freshId : Apace leave σ τ (fun _ _ => True) Run.freshId Run.freshId :=
  fun _ _ hl => .ok ⟨trivial, (State.Abreast.refl hl.recalls).of_eq rfl rfl⟩

theorem append (text : String) : Apace leave σ τ (fun _ _ => True) (Run.append text) (Run.append text) :=
  fun _ _ hl => .ok ⟨trivial, ⟨text, rfl, rfl⟩, (State.Abreast.refl hl.recalls).reach, rfl, rfl,
    hl.recalls.of_le rfl (Nat.le_refl _)⟩

/-- Both runs note how far the same attempt reached. -/
theorem reach {a b : Attempt} (h : a.recast .bare = b.recast .bare) :
    Apace leave σ τ (fun _ _ => True) (Run.reach a) (Run.reach b) := by
  intro s t hl
  rw [Run.reach, Run.reach]
  cases ha : a.statement with
  | none =>
    rw [Attempt.statement_none_of_same h ha]
    exact .ok ⟨trivial, .refl hl.recalls⟩
  | some u =>
    obtain ⟨v, hv, hsame⟩ := Attempt.statement_some_of_same h ha
    rw [hv]
    refine .ok ⟨trivial, ⟨"", ?_, ?_⟩, ⟨u.region.stop, rfl, by rw [Statement.region_of_same hsame]⟩, rfl, rfl, ?_⟩
    · rw [State.adding_empty]
    · rw [State.adding_empty]
    · exact hl.recalls.of_le rfl (Nat.le_max_left _ _)

/-- Both runs have read on from a mark, and take back what they have added since. -/
theorem marked {x : Run α} {y : Run β} {f : Nat → α → Run γ} {g : Nat → β → Run δ} (h : Apace leave σ τ R x y)
    (hf : ∀ a b, R a b → (∀ m m', Apace leave σ τ R' (f m a) (g m' b)) ∨
      ∃ c d, R' c d ∧ (∀ m, f m a = Run.giveUp m c) ∧ ∀ m, g m b = Run.giveUp m d) :
    Apace leave σ τ R' (Run.mark >>= fun m => x >>= f m) (Run.mark >>= fun m => y >>= g m) := by
  intro s t hl
  rw [Run.mark_bind, Run.mark_bind]
  refine (h s t hl).bind ?_
  rintro a s' b t' ⟨hr, hab⟩
  obtain hgo | ⟨c, d, hcd, hc, hd⟩ := hf a b hr
  · exact (hgo _ _ s' t' (hl.of_abreast hab)).mono fun _ _ _ _ h2 => ⟨h2.1, hab.trans h2.2⟩
  · rw [hc, hd]
    exact .ok ⟨hcd, hab.rollback⟩

/-- Both runs have read a value: its text is the same in both. -/
theorem valued {x : Run α} {y : Run β} {f : α → String → Run γ} {g : β → String → Run δ} (h : Apace leave σ τ R x y)
    (hf : ∀ a b text, R a b → Apace leave σ τ R' (f a text) (g b text)) :
    Apace leave σ τ R' (Run.openValue >>= fun _ => x >>= fun a => Run.closeValue >>= f a)
      (Run.openValue >>= fun _ => y >>= fun b => Run.closeValue >>= g b) := by
  intro s t hl
  rw [Run.openValue_bind, Run.openValue_bind]
  have hopen : State.Level leave σ τ { s with collected := "" :: s.collected }
      { t with collected := "" :: t.collected } :=
    ⟨fun _ => List.cons_ne_nil _ _, fun _ => List.cons_ne_nil _ _, hl.even, hl.recalls.of_le rfl (Nat.le_refl _)⟩
  refine (h _ _ hopen).bind ?_
  rintro a s₁ b t₁ ⟨hr, hab⟩
  obtain ⟨htext, hclose⟩ := hab.close
  rw [Run.closeValue_bind, Run.closeValue_bind, htext]
  exact (hf a b _ hr _ _ (hl.of_abreast hclose)).mono fun _ _ _ _ h2 => ⟨h2.1, hclose.trans h2.2⟩

end Run.Apace

/-- To go side by side is to be alike. -/
def Setting.Twins.likeness {σ τ : Setting} (h : σ.Twins τ) (leave : Leave) : Likeness σ τ where
  Alike := Run.Apace leave σ τ
  grammar := h.grammar
  input := h.input
  pure := .pure
  fail := .fail
  lift := .lift
  bind := .bind
  freshId := .freshId
  append := .append
  marked := .marked
  valued := .valued

end Graft
