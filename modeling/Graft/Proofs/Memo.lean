import Graft.Parse
import Graft.Proofs.Abreast
import Graft.Proofs.Recalled
import Graft.Proofs.SideBySide

/-!
# The memo is invisible

Two runs without a memo go side by side inside any numbers of levels and from any states. So what one of them came to may
stand for what any other would come to, and a run that remembers attempts goes side by side with one that does not.
-/

namespace Graft

open Engine

section

variable [Pattern.Compiler]

/-- Attempts from scratch go side by side, and come to the same up to identities. -/
def Engine.Attempts.Apace (leave : Leave) (σ τ : Setting) (A B : Attempts) : Prop :=
  ∀ rule offset context,
    Run.Apace leave σ τ (fun a b => a.recast .bare = b.recast .bare) (A.fresh rule offset context)
      (B.fresh rule offset context)

/-- Read the body of a rule, and note how far that reached. -/
def Engine.readAndReach (setting : Setting) (attempts : Attempts) (rule : RuleId) (offset : Nat) (context : Context) :
    Run Attempt := do
  let attempt ← readBody setting attempts rule offset context
  Run.reach attempt
  return attempt

section

variable {leave : Leave} {σ τ : Setting} {A B : Attempts} {rule : RuleId} {offset : Nat} {context : Context}

/-! ## Runs without a memo -/

theorem Setting.Twins.refl (h : σ.memoize = false) : σ.Twins σ :=
  ⟨rfl, rfl, rfl, rfl, h⟩

/-- Without a memo an entered rule is read. -/
theorem lookUpOrRead_forgetting (h : σ.memoize = false) :
    lookUpOrRead σ A rule offset context = readAndReach σ A rule offset context := by
  funext s
  have hremember : ∀ key entry, Run.remember σ key entry = pure () := by
    intro key entry
    rw [Run.remember, h]
    rfl
  rw [lookUpOrRead, Run.lookUp_bind, h]
  simp only [hremember, pure_bind]
  rfl

/-- With a memo an entered rule that is not found is read and remembered. -/
theorem lookUpOrRead_missing (h : τ.memoize = true) {t : State}
    (hmissing : t.memo[(⟨rule, offset, context⟩ : MemoKey)]? = none) :
    lookUpOrRead τ B rule offset context t =
      (do
        let attempt ← readAndReach τ B rule offset context
        let appended ← Run.since (Text.size (Run.innermost t.collected))
        Run.remember τ ⟨rule, offset, context⟩ ⟨attempt, appended⟩
        return attempt : Run Attempt)
        { t with statistics := { t.statistics with misses := t.statistics.misses + 1 } } := by
  rw [lookUpOrRead, Run.lookUp_bind, h, hmissing]
  simp only [if_true, readAndReach, bind_assoc, pure_bind]
  rw [Run.mark_bind]

theorem readAndReach_apace (hT : σ.Twins τ) (hA : A.Apace leave σ τ B) (rule : RuleId) (offset : Nat) (context : Context) :
    Run.Apace leave σ τ (fun a b => a.recast .bare = b.recast .bare) (readAndReach σ A rule offset context)
      (readAndReach τ B rule offset context) :=
  Run.Apace.bind (readBody_alike (L := hT.likeness leave) hA rule offset context) fun _ _ h => (Run.Apace.reach h).bind fun _ _ _ => .pure h

/-- Attempts that find or read a rule alike attempt it alike: both enter it, or neither. -/
theorem attempt_apace (hT : σ.Twins τ)
    (h : Run.Apace leave σ τ (fun a b => a.recast .bare = b.recast .bare) (lookUpOrRead σ A rule offset context)
      (lookUpOrRead τ B rule offset context)) :
    Run.Apace leave σ τ (fun a b => a.recast .bare = b.recast .bare) (attempt σ A rule offset context)
      (attempt τ B rule offset context) := by
  intro s t hl
  rw [attempt, attempt, Run.enter_bind, Run.enter_bind, hT.cancelled, hT.depth]
  split
  · exact .same _
  · split
    · rename_i hs
      rcases hl.even with given | ⟨hd, _⟩
      · exact .stopped (by rw [given]; decide) rfl
      · rw [hd] at hs
        rw [if_pos hs]
        exact .same _
    · rename_i hs
      split
      · rename_i ht
        rcases hl.even with given | ⟨hd, _⟩
        · exact .excused given rfl
        · rw [hd] at hs
          exact absurd ht hs
      · have hdeeper : ∀ statistics statistics', State.Level leave σ τ
            { s with depth := s.depth + 1, statistics } { t with depth := t.depth + 1, statistics := statistics' } :=
          fun _ _ => ⟨hl.collects, hl.collects', hl.even.imp id fun he => ⟨congrArg (· + 1) he.1, he.2⟩,
            hl.recalls.of_le rfl (Nat.le_refl _)⟩
        refine (h _ _ (hdeeper _ _)).bind ?_
        rintro a s₁ b t₁ ⟨hab, habreast⟩
        refine .ok ⟨hab, habreast.text, habreast.reach, ?_, ?_, habreast.recalls.of_le rfl (Nat.le_refl _)⟩
        · simp only [habreast.depth, Nat.add_sub_cancel]
        · simp only [habreast.depth', Nat.add_sub_cancel]

/-- Without a memo, attempts from scratch inside any numbers of levels go side by side as far as the limits let them. -/
theorem attempts_apace_forgetting (h : σ.memoize = false) (levels levels' : Nat) :
    (attempts σ levels).Apace .either σ σ (attempts σ levels') := by
  induction levels generalizing levels' with
  | zero => exact fun rule offset context s t _ => .stopped (by decide) rfl
  | succ levels ih =>
    cases levels' with
    | zero => exact fun rule offset context s t _ => .excused rfl rfl
    | succ levels' =>
      intro rule offset context
      refine attempt_apace (.refl h) ?_
      rw [lookUpOrRead_forgetting h, lookUpOrRead_forgetting h]
      exact readAndReach_apace (.refl h) (ih levels') _ _ _

/-- Without a memo, attempts from scratch inside one number of levels go side by side from states that are as deep. -/
theorem attempts_apace_even (h : σ.memoize = false) (levels : Nat) :
    (attempts σ levels).Apace .neither σ σ (attempts σ levels) := by
  induction levels with
  | zero => exact fun rule offset context => .fail _
  | succ levels ih =>
    intro rule offset context
    refine attempt_apace (.refl h) ?_
    rw [lookUpOrRead_forgetting h]
    exact readAndReach_apace (.refl h) ih _ _ _

/-! ## Runs with a memo -/

/-- What one run without a memo came to may be recalled. -/
theorem MemoEntry.recalls_of_eq_ok (h : σ.memoize = false) {key : MemoKey} {entry : MemoEntry} {levels noted : Nat}
    {s s' : State} {a : Attempt} (hs : s.collected ≠ [])
    (hr : lookUpOrRead σ (attempts σ levels) key.rule key.offset key.context s = .ok (a, s'))
    (hsame : a.recast .bare = entry.attempt.recast .bare) (htext : s'.collected = (s.adding entry.appended).collected)
    (hnoted : s'.furthest ≤ noted) : entry.Recalls σ noted key := by
  intro levels' s₁ hs₁
  have hforgets : ∀ t : State, t.Recalls σ σ := by
    intro t hon
    rw [h] at hon
    cases hon
  have hm := readAndReach_apace (.refl h) (attempts_apace_forgetting h levels' levels) key.rule key.offset
    key.context s₁ s ⟨fun _ => hs₁, fun _ => hs, Or.inl rfl, hforgets s⟩
  rw [← lookUpOrRead_forgetting h, ← lookUpOrRead_forgetting h, hr] at hm
  generalize lookUpOrRead σ (attempts σ levels') key.rule key.offset key.context s₁ = r at hm
  cases hm with
  | stopped given limit => exact limit
  | ok related =>
    obtain ⟨hab, ⟨text, h1, h2⟩, ⟨reach, h3, h4⟩, hd, _, _⟩ := related
    have happended : text = entry.appended := by
      rw [← State.beyond_of_collected h2 hs, ← State.beyond_of_collected htext hs]
    refine ⟨hab.trans hsame, by rw [h1, happended], hd, reach, ?_, h3⟩
    rw [h4] at hnoted
    exact Nat.le_trans (Nat.le_max_right _ _) hnoted

/-- A rule is found in the memo, or read and remembered, as it is read without a memo. -/
theorem lookUpOrRead_apace (hT : σ.Twins τ) {levels : Nat}
    (hA : (attempts σ levels).Apace .first σ τ (attempts τ levels)) :
    Run.Apace .first σ τ (fun a b => a.recast .bare = b.recast .bare)
      (lookUpOrRead σ (attempts σ levels) rule offset context)
      (lookUpOrRead τ (attempts τ levels) rule offset context) := by
  intro s t hl
  have heven := (hl.even.resolve_left (by decide)).2
  cases hon : τ.memoize with
  | false =>
    rw [lookUpOrRead_forgetting hon, lookUpOrRead_forgetting hT.forgets]
    exact readAndReach_apace hT hA _ _ _ s t hl
  | true =>
    cases hentry : t.memo[(⟨rule, offset, context⟩ : MemoKey)]? with
    | some entry =>
      have h1 := hl.recalls hon _ _ hentry levels s (hl.collects hon)
      rw [lookUpOrRead.eq_def τ, Run.lookUp_bind, hon, hentry]
      simp only at h1 ⊢
      generalize lookUpOrRead σ (attempts σ levels) rule offset context s = r at h1
      cases r with
      | error fault => exact .stopped (by decide) h1
      | ok r =>
        obtain ⟨hsame, htext, hdepth, reach, hle, hreach⟩ := h1
        refine .ok ⟨hsame, ⟨_, htext, rfl⟩, ⟨reach, hreach, ?_⟩, hdepth, rfl, hl.recalls.of_le rfl (Nat.le_refl _)⟩
        exact (Nat.max_eq_left hle).symm
    | none =>
      rw [lookUpOrRead_missing hon hentry]
      have hmissed : State.Level .first σ τ s
          { t with statistics := { t.statistics with misses := t.statistics.misses + 1 } } :=
        ⟨hl.collects, hl.collects', hl.even, hl.recalls.of_le rfl (Nat.le_refl _)⟩
      have hm := readAndReach_apace hT hA rule offset context _ _ hmissed
      rw [← lookUpOrRead_forgetting hT.forgets] at hm
      rw [Run.bind_apply]
      generalize hx : lookUpOrRead σ (attempts σ levels) rule offset context s = x at hm
      generalize readAndReach τ (attempts τ levels) rule offset context
        { t with statistics := { t.statistics with misses := t.statistics.misses + 1 } } = y at hm
      cases hm with
      | same fault => exact .same fault
      | stopped given limit => exact .stopped given limit
      | excused given => cases given
      | ok related =>
        rename_i a s' b t'
        obtain ⟨hab, habreast⟩ := related
        obtain ⟨text, h1, h2⟩ := habreast.text
        have heven' : s'.furthest = t'.furthest := ((hmissed.of_abreast habreast).even.resolve_left (by decide)).2 hon
        rw [Run.ok_bind, Run.since_bind]
        obtain ⟨memo, hremember, hkeeps⟩ := Run.remember_bind τ ⟨rule, offset, context⟩
          ⟨b, Text.beyond (Run.innermost t'.collected) (Text.size (Run.innermost t.collected))⟩ (fun _ => pure b) t'
        rw [hremember]
        refine .ok ⟨hab, habreast.text, habreast.reach, habreast.depth, habreast.depth', ?_⟩
        intro _ key entry hentry'
        rcases hkeeps with rfl | ⟨_, rfl⟩
        · exact habreast.recalls hon key entry hentry'
        · rw [Std.HashMap.getElem?_insert] at hentry'
          split at hentry'
          · rename_i heq
            rw [beq_iff_eq] at heq
            subst heq
            cases hentry'
            refine MemoEntry.recalls_of_eq_ok hT.forgets (hl.collects hon) hx hab ?_ (Nat.le_of_eq heven')
            rw [h1, State.beyond_of_collected h2 (hl.collects' hon)]
          · exact habreast.recalls hon key entry hentry'

/-- Attempts from scratch that remember go side by side with attempts that do not. -/
theorem attempts_apace (hT : σ.Twins τ) (levels : Nat) : (attempts σ levels).Apace .first σ τ (attempts τ levels) := by
  induction levels with
  | zero =>
    intro rule offset context
    change Run.Apace _ _ _ _ (Run.fail (.depth σ.limits.maxRuleDepth rule)) (Run.fail (.depth τ.limits.maxRuleDepth rule))
    rw [hT.depth]
    exact .fail _
  | succ levels ih => exact fun rule offset context => attempt_apace hT (lookUpOrRead_apace hT ih)

end

/-! ## Parses -/

/-- Two calls come to trees that are the same up to identities and statistics, or end in the same fault. -/
def SameOutcome : Except Fault (Tree × NodeId) → Except Fault (Tree × NodeId) → Prop
  | .ok (tree, _), .ok (tree', _) =>
    tree.statement.recast .bare = tree'.statement.recast .bare ∧ tree.derivation = tree'.derivation
  | .error fault, .error fault' => fault = fault'
  | _, _ => False

/-- Attempts that are the same up to identities, in runs that reached as far, make trees that are, or the same fault. -/
theorem Tree.ofRun_same {input : String} {unmatched : Nat → Nat → Fault.Cause} {a b : Attempt} {s t : State}
    (h : a.recast .bare = b.recast .bare) (hreach : s.furthest = t.furthest) (next next' : NodeId) :
    SameOutcome ((Tree.ofRun input unmatched a s).map (·, next)) ((Tree.ofRun input unmatched b t).map (·, next')) := by
  have hderivation := Attempt.derivation_of_same h
  obtain ⟨sa, da⟩ := a
  obtain ⟨sb, db⟩ := b
  simp only at hderivation
  subst hderivation
  cases sa with
  | none =>
    obtain rfl : sb = none := Attempt.statement_none_of_same h rfl
    simp only [Tree.ofRun, Except.map, SameOutcome, hreach, Attempt.interest]
  | some u =>
    obtain ⟨v, rfl, hu⟩ : ∃ v, sb = some v ∧ u.recast .bare = v.recast .bare := Attempt.statement_some_of_same h rfl
    simp only [Tree.ofRun, Statement.region_of_same hu, hreach, Attempt.interest]
    split
    · exact ⟨hu, rfl⟩
    · exact rfl

/-- A parse checks its input, attempts the root, and makes a tree of what that came to. -/
theorem Grammar.parse_eq (grammar : Grammar) (input : String) (options : Options) (nextId : NodeId) :
    grammar.parse input options nextId = (do
      options.limits.checkInput input
      let (attempt, state) ← (atRoot (.make grammar input options {})).fresh grammar.root 0 options.context { nextId }
      (Tree.ofRun input .unmatchedInput attempt state).map (·, state.nextId)) := by
  rw [Grammar.parse]
  rfl

/-- Two parses of one text, the first of which remembers nothing and is not stopped by a limit. -/
theorem parse_same {grammar : Grammar} {input : String} {off on : Options} (hforgets : off.memoize = false)
    (hsize : on.limits.maxInputSize = off.limits.maxInputSize)
    (hdepth : on.limits.maxRuleDepth = off.limits.maxRuleDepth) (hcancelled : on.isCancelled = off.isCancelled)
    (hcontext : on.context = off.context) {nextId nextId' : NodeId}
    (h : ∀ fault, grammar.parse input off nextId = .error fault → fault.kind ≠ .limitExceeded) :
    SameOutcome (grammar.parse input off nextId) (grammar.parse input on nextId') := by
  have hrecalls : State.Recalls (.make grammar input off {}) (.make grammar input on {}) { nextId := nextId' } := by
    intro _ key entry hentry
    rw [Std.HashMap.getElem?_empty] at hentry
    cases hentry
  have hm := attempts_apace (σ := .make grammar input off {}) (τ := .make grammar input on {})
    ⟨rfl, rfl, hdepth, hcancelled, hforgets⟩ (off.limits.maxRuleDepth + 1) grammar.root 0 off.context { nextId }
    { nextId := nextId' } ⟨fun _ => List.cons_ne_nil _ _, fun _ => List.cons_ne_nil _ _,
      Or.inr ⟨rfl, fun _ => rfl⟩, hrecalls⟩
  have hcheck : on.limits.checkInput input = off.limits.checkInput input := by
    rw [Limits.checkInput, Limits.checkInput, hsize]
  have hroot : ∀ options : Options, atRoot (.make grammar input options {}) =
      attempts (.make grammar input options {}) (options.limits.maxRuleDepth + 1) := fun _ => rfl
  rw [Grammar.parse_eq] at h
  rw [Grammar.parse_eq, Grammar.parse_eq, hcheck, hcontext, hroot, hroot, hdepth]
  rw [hroot] at h
  generalize off.limits.checkInput input = checked at h
  generalize (attempts (.make grammar input off {}) (off.limits.maxRuleDepth + 1)).fresh grammar.root 0 off.context
    { nextId } = x at h hm
  generalize (attempts (.make grammar input on {}) (off.limits.maxRuleDepth + 1)).fresh grammar.root 0 off.context
    { nextId := nextId' } = y at hm
  cases checked with
  | error fault => exact rfl
  | ok _ =>
    cases hm with
    | same fault => exact rfl
    | stopped given limit => exact absurd limit (h _ rfl)
    | excused given => cases given
    | ok related =>
      obtain ⟨hsame, habreast⟩ := related
      obtain ⟨reach, h1, h2⟩ := habreast.reach
      exact Tree.ofRun_same hsame (h1.trans h2.symm) _ _

/-- **The memo is invisible.** Where a parse that remembers nothing is not stopped by a limit, a parse that remembers attempts,
as many as it likes, comes to the same tree up to identities, with the texts of its values, or to the same fault: its cause,
its offset, its region and what was being done are the same. -/
theorem parse_agrees_with_memo (grammar : Grammar) (input : String) (options : Options) (entries : Nat)
    (nextId nextId' : NodeId)
    (h : ∀ fault, grammar.parse input { options with memoize := false } nextId = .error fault →
      fault.kind ≠ .limitExceeded) :
    SameOutcome (grammar.parse input { options with memoize := false } nextId)
      (grammar.parse input
        { options with memoize := true, limits := { options.limits with maxMemoEntries := entries } } nextId') := by
  refine parse_same ?_ ?_ ?_ ?_ ?_ h <;> rfl

end

open Pattern.Regex

/-- A letter that is found in the memo inside a value, where a call that remembers nothing reads it a second time. -/
theorem parse_agrees_with_memo_pairAndOne : ∃ tree next tree' next',
    (Grammar.pairAndOne .letterB .letterA).parse "a" (.brief false) ⟨0⟩ = .ok (tree, next) ∧
      (Grammar.pairAndOne .letterB .letterA).parse "a" (.brief true) ⟨0⟩ = .ok (tree', next') ∧
      tree'.statistics.hits = 1 ∧ tree.statement.recast .bare = tree'.statement.recast .bare ∧
      tree.derivation = tree'.derivation := by
  have hletter : Pattern.letterA.matchFront (Text.bytes "a") = ⟨some (Text.size "a"), Text.size "a" + 1⟩ := by
    rw [Pattern.matchFront_letterA]
    decide +kernel
  have hne : Text.size "a" ≠ 0 := by decide +kernel
  have hsize : Text.size "a" ≤ (Options.brief true).limits.maxInputSize := by decide +kernel
  obtain ⟨tree, next, hforgets, -⟩ :=
    parse_pairAndOne (p := .letterB) false hletter Pattern.letterB_reads.matchFront_nil hne hsize 0
  obtain ⟨tree', next', hremembers, hhits⟩ :=
    parse_pairAndOne (p := .letterB) true hletter Pattern.letterB_reads.matchFront_nil hne hsize 0
  have hoff : { Options.brief true with memoize := false } = Options.brief false := rfl
  have hon : { Options.brief true with memoize := true, limits := { (Options.brief true).limits with maxMemoEntries := 1 } } =
      Options.brief true := rfl
  have hsame := parse_agrees_with_memo (.pairAndOne .letterB .letterA) "a" (.brief true) 1 ⟨0⟩ ⟨0⟩ (by
    rw [hoff, hforgets]
    exact fun _ h => nomatch h)
  rw [hoff, hon, hforgets, hremembers] at hsame
  exact ⟨tree, next, tree', next', hforgets, hremembers, hhits rfl, hsame⟩

end Graft
