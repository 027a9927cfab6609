import Graft.Proofs.AttemptSimulation
import Graft.Proofs.Revisited

/-!
# Attempts on earlier nodes

An earlier node fits where it is attempted again if, as long as no edit has touched it, it is the reading of its rule where it
stands, and if the nodes below it fit where they are attempted again. A rule that is attempted again on a node that fits comes
to its reading, as it does from scratch. How the children of containers in any order are replayed is taken up elsewhere; here
it is only asked that they come to the reading of the container.
-/

namespace Graft

open Filter Engine

variable [Pattern.Compiler]

/-- An earlier node is, as long as no edit has touched it, the reading of its rule where it stands, under the name it is shown
under. -/
def Fitting (setting : Setting) : Condition := fun shownAs rule context s d =>
  Text.isBoundary setting.input s.region.offset = true → setting.modified.contains s.id = false →
    ∃ n b, Reading.within setting.grammar setting.input n rule s.region.offset context = some b ∧
      (Reading.shownAttempt shownAs (.success s d)).recast .bare = (Reading.shownAttempt shownAs b).recast .bare

/-- An earlier node, shown under some name, that fits a rule in a context. -/
abbrev Fits (setting : Setting) : Condition :=
  Revisited setting.grammar (Fitting setting)

/-- A property of rules in contexts that passes on to the rules that they attempt. -/
structure Passes (grammar : Grammar) (W : RuleId → Context → Prop) : Prop where
  edge : ∀ {rule : RuleId} {context : Context} {kind : ContainerKind} {edges : List Edge} {index : Nat} {edge : Edge},
    W rule context → grammar.body? rule = some (.container kind edges) → edges[index]? = some edge →
    W edge.rule (edge.context context)
  call : ∀ {rule : RuleId} {context : Context} {call : Invocation} {target : RuleId} {inside : Context},
    W rule context → grammar.body? rule = some (.invoke call) →
    resolveCall grammar call context = .ok (target, inside) → W target inside

/-- Whether a container in any order comes to its reading on earlier children that its edges may attempt again. -/
def ReplayDecides (setting : Setting) (m : Recasting) (edges : List Edge) (live : Context) : Prop :=
  ∀ (depth : Nat) (attempts : Attempts) (earliers : Earliers) (rule : RuleId) (offset : Nat) (s : State),
    FreshDecides setting True atTop depth m attempts (Reading.within setting.grammar setting.input) →
    EarliersDecide setting True atTop depth m attempts (Reading.within setting.grammar setting.input) edges live earliers →
    Text.isBoundary setting.input offset = true → s.Ready setting depth →
    Decides True atTop
      (fun a t b => a.recast m = b.recast m ∧ s.Steady setting depth t (b.keptBelow setting.grammar))
      (fun n => Reading.anyOrder (Reading.within setting.grammar setting.input n) setting.input rule edges offset live)
      (anyOrder setting attempts rule edges earliers offset live s)

section

variable {setting : Setting} {depth : Nat} {m : Recasting} (hm : ∀ id, m.identity id = Reading.noId)

/-- Attempts that agree up to identities agree under every recasting that forgets them. -/
theorem Agrees.recast {s t : State} {a b : Attempt} (h : Agrees setting depth .bare none s a t b)
    (hm : ∀ id, m.identity id = Reading.noId) : Agrees setting depth m none s a t b :=
  ⟨Attempt.recast_eq_of_bare hm h.same, h.steady⟩

theorem FreshDecides.recast {excused : Prop} {ℓ : Filter Nat} {attempts : Attempts} {R : Nat → Reading.Oracle}
    (h : FreshDecides setting excused ℓ depth .bare attempts R) (hm : ∀ id, m.identity id = Reading.noId) :
    FreshDecides setting excused ℓ depth m attempts R :=
  fun r o c s hb hs => (h r o c s hb hs).mono fun _ _ _ hq _ => hq.recast hm

/-- Keeping a node adds the text that it keeps. -/
theorem reuse_apply {s : Statement} {d : Derivation} (h : s.Known setting.grammar d) (state : State) :
    ∃ furthest statistics, reuse setting s d state =
      .ok (.success s d, { state.adding (s.kept setting.grammar d) with furthest, statistics }) := by
  rw [reuse, Run.bind_apply, recollect_eq setting.grammar s d state h, Run.ok_bind]
  obtain ⟨furthest, hreach⟩ := Run.reach_bind (.success s d) (fun _ =>
    (Run.count fun s => { s with reused := s.reused + 1 }) >>= fun _ => pure (Attempt.success s d))
    (state.adding (s.kept setting.grammar d))
  rw [Run.count_bind, Run.pure_apply] at hreach
  exact ⟨furthest, _, hreach⟩

include hm in
/-- A rule that is attempted again on an earlier node comes to its reading. -/
theorem reattempt_decides {attempts : Attempts} {shownAs : Option String} {rule : RuleId} {context : Context}
    {s : Statement} {d : Derivation}
    (hA : FreshDecides setting True atTop (depth + 1) .bare attempts (Reading.within setting.grammar setting.input))
    (hE : BodyHelp setting True atTop (depth + 1) m attempts (Reading.within setting.grammar setting.input) rule context s d)
    (hkept : Fitting setting shownAs rule context s d)
    {offset : Nat} (hb : Text.isBoundary setting.input offset = true) {state : State} (hs : state.Ready setting depth) :
    Decides True atTop (Agrees setting depth m shownAs state)
      (fun n => Reading.within setting.grammar setting.input n rule offset context)
      (reattempt setting attempts rule s d offset context state) := by
  rw [reattempt]
  split
  · -- the node was read by another rule
    have h : Decides True (atTop.map (· + 1)) (Agrees setting depth .bare none state)
        (fun n => Reading.within setting.grammar setting.input n rule offset context)
        (attempt setting attempts rule offset context state) :=
      attempt_decides (fun _ => trivial) (fun _ => trivial) (fun _ => rfl) hA hb hs
    rw [map_add_atTop_eq_nat] at h
    exact h.mono fun _ _ _ hq _ => (hq.recast hm).shown shownAs
  · split
    · -- the node is kept
      rename_i hkeep
      simp only [Bool.and_eq_true, decide_eq_true_eq, Bool.not_eq_true'] at hkeep
      obtain ⟨rfl, hmark⟩ := hkeep
      obtain ⟨n, b, hreading, hsame⟩ := hkept hb hmark
      have hlevel : ∀ᶠ k in atTop, Reading.within setting.grammar setting.input k rule s.region.offset context = some b :=
        (eventually_ge_atTop n).mono fun k hk => Reading.within_mono hk hb hreading
      -- what is read has rules of the grammar, and keeps what the node keeps
      obtain ⟨t, ht, hstatement, hderivation⟩ := Reading.shown_of_same hsame
      have hcovers := Reading.covers hreading hb t ht
      have hknown : s.Known setting.grammar d := by
        have h := hcovers.known
        rw [← Statement.known_shown setting.grammar shownAs, ← Statement.known_recast setting.grammar .bare .bare,
          ← hstatement, ← hderivation, Statement.known_recast, Statement.known_shown] at h
        exact h
      have hsteady : b.kept setting.grammar = s.kept setting.grammar d := by
        have h : b.kept setting.grammar = t.kept setting.grammar b.derivation := by rw [Attempt.kept, ht]
        rw [h, ← Statement.kept_shown setting.grammar shownAs, ← Statement.kept_recast setting.grammar .bare .bare,
          ← hstatement, ← hderivation, Statement.kept_recast, Statement.kept_shown]
      obtain ⟨furthest, statistics, hreuse⟩ := reuse_apply hknown state
      rw [hreuse]
      refine ⟨b, hlevel, Attempt.recast_eq_of_bare hm hsame, ?_⟩
      rw [hsteady]
      exact (hs.steady_adding _).of_eq rfl rfl rfl
    · -- the rule is read again with the children of the node at hand
      rw [Run.enter_bind]
      split
      · exact ⟨by simp [Fault.of, Fault.kind, Fault.Cause.kind], Or.inl ⟨trivial, Or.inr rfl⟩⟩
      · split
        · exact ⟨by simp [Fault.of, Fault.kind, Fault.Cause.kind], Or.inl ⟨trivial, Or.inl rfl⟩⟩
        · rw [Run.count_bind, ← map_add_atTop_eq_nat 1]
          refine Decides.succ (Decides.andThen (rereadBody_decides hm
            (Reading.sound_within setting.grammar setting.input) (hA.recast hm) hb hE ((hs.enter _).of_eq rfl rfl rfl)) ?_)
          intro a t b hab _
          rw [Run.leave_bind]
          obtain ⟨furthest, hreach⟩ := Run.reach_bind a (fun _ => pure a) { t with depth := t.depth - 1 }
          rw [hreach]
          have hleft : state.Steady setting depth { t with depth := t.depth - 1 } (b.kept setting.grammar) :=
            hab.steady.leave rfl
          exact .ok ⟨(hab.shown shownAs).same, hleft.of_eq rfl rfl rfl⟩

include hm in
/-- **Earlier nodes make no difference.** A rule that is attempted again on a node that fits comes to its reading. -/
theorem again_decides {W : RuleId → Context → Prop} (hW : Passes setting.grammar W)
    (hreplay : ∀ rule edges context, W rule context →
      setting.grammar.body? rule = some (.container .anyOrder edges) → ReplayDecides setting m edges context)
    (levels : Nat) (depth : Nat) {shownAs : Option String} {rule : RuleId} {context : Context} (hw : W rule context)
    {s : Statement} {d : Derivation} (h : Fits setting shownAs rule context s d) :
    AgainDecides setting True atTop depth m (attempts setting levels) (Reading.within setting.grammar setting.input)
      shownAs rule (s, d) context := by
  induction levels generalizing depth shownAs rule context s d with
  | zero =>
    intro o state _ _
    exact ⟨by simp [Fault.of, Fault.kind, Fault.Cause.kind], Or.inl ⟨trivial, Or.inl rfl⟩⟩
  | succ levels ih =>
    intro o state hb hs
    obtain ⟨kept, children, called⟩ := h
    have hA := fresh_decides setting levels (depth + 1)
    refine reattempt_decides hm hA ⟨?_, ?_⟩ kept hb hs
    · intro kind edges hr
      have hE : EarliersDecide setting True atTop (depth + 1) m (attempts setting levels)
          (Reading.within setting.grammar setting.input) edges context (earliersOf kind s d) := by
        intro index edge hedge e hmem
        exact ih (depth + 1) (hW.edge hw hr hedge) (children kind edges hr index edge hedge e hmem)
      refine ⟨hE, ?_⟩
      rintro rfl rule' offset state' hb' hs'
      exact hreplay rule edges context hw hr (depth + 1) _ _ rule' offset state' (hA.recast hm) hE hb' hs'
    · intro call hr e target inside he hc
      exact ih (depth + 1) (hW.call hw hr hc) (called call hr e target inside he hc)

end

end Graft
