import Graft.Proofs.AttemptSimulation
import Graft.Proofs.Letters

/-!
# What an attempt depends on

An attempt of the engine from scratch depends on the text in its region of interest and on nothing else. On another text that
shows the same bytes elsewhere it comes to the same there, and adds the same text to the value around it.
-/

namespace Graft

open Filter Engine

section

variable [Pattern.Compiler]

namespace Decides

variable {α β : Type} {Q : α → State → β → Prop} {m : Nat → Option β} {r : Except Fault (α × State)} {k : Nat} {b : β}

/-- A run that decides exactly comes to a result where there is one. -/
theorem exists_ok (h : Decides False (pure k) Q m r) (hb : m k = some b) : ∃ a s, r = .ok (a, s) ∧ Q a s b := by
  match r with
  | .ok (a, s) =>
    obtain ⟨b', hb', hq⟩ := h
    obtain rfl : b' = b := Option.some.inj ((eventually_pure.1 hb').symm.trans hb)
    exact ⟨a, s, rfl, hq⟩
  | .error fault =>
    obtain ⟨_, hf | hnone⟩ := h
    · exact absurd hf.1 id
    · rw [eventually_pure.1 hnone] at hb
      cases hb

/-- A run that decides exactly and comes to a result has one to come to. -/
theorem exists_some {a : α} {s : State} (h : Decides False (pure k) Q m (.ok (a, s))) : ∃ b, m k = some b ∧ Q a s b := by
  obtain ⟨b, hb, hq⟩ := h
  exact ⟨b, eventually_pure.1 hb, hq⟩

end Decides

/-- A call that was cancelled attempts nothing. -/
theorem Engine.cancelled_of_fresh {setting : Setting} {levels : Nat} {rule : RuleId} {offset : Nat} {context : Context}
    {s t : State} {a : Attempt} (h : (attempts setting levels).fresh rule offset context s = .ok (a, t)) :
    setting.cancelled = false := by
  cases levels with
  | zero => cases h
  | succ levels =>
    change attempt setting (attempts setting levels) rule offset context s = .ok (a, t) at h
    rw [attempt, Run.enter_bind] at h
    cases hc : setting.cancelled with
    | false => rfl
    | true =>
      rw [hc] at h
      cases h

/-- **An attempt depends on its region of interest only.** When an attempt at `o` in `u` comes to `a`, and `v` shows at `p`
the bytes that `a` has looked at, then the attempt at `p` in `v`, at the same depth and within the same limits, comes to the
same, moved from `o` to `p`. Where the region reaches past the end of `u`, both texts end alike behind `o` and `p`. -/
theorem fresh_depends_on_interest {grammar : Grammar} {u v : String} {options : Options} (hoff : options.memoize = false)
    {levels : Nat} {rule : RuleId} {context : Context} {o p : Nat} (ho : Text.isBoundary u o = true)
    (hp : Text.isBoundary v p = true) {s s1 t : State} (hs : s.collected ≠ []) (ht : t.collected ≠ [])
    (hdepth : s.depth = t.depth) {a : Attempt}
    (hrun : (attempts (.make grammar u options {}) levels).fresh rule o context s = .ok (a, s1))
    (hsame : ((Text.bytes u).drop o).take a.interest.length = ((Text.bytes v).drop p).take a.interest.length) :
    ∃ b t1 appended, (attempts (.make grammar v options {}) levels).fresh rule p context t = .ok (b, t1) ∧
      (a.recast .bare).Shifted o p (b.recast .bare) ∧ a.interest.offset = o ∧
      s1.collected = (s.adding appended).collected ∧ t1.collected = (t.adding appended).collected := by
  have hcancelled := Engine.cancelled_of_fresh hrun
  have hready : ∀ (w : String) (r : State), r.collected ≠ [] → r.depth = t.depth →
      r.Ready (.make grammar w options {}) t.depth := by
    intro w r hr hd
    refine ⟨hd, hr, ?_⟩
    intro hon
    rw [Setting.make, hoff] at hon
    cases hon
  have hdecides : ∀ w, FreshDecides (.make grammar w options {}) False
      (pure (min levels (options.limits.maxRuleDepth - t.depth))) t.depth .bare
      (attempts (.make grammar w options {}) levels) (Reading.within grammar w) := fun w =>
    @fresh_decides_exactly _ (.make grammar w options {}) hcancelled hoff levels t.depth
  have hu := hdecides u rule o context s ho (hready u s hs hdepth)
  rw [hrun] at hu
  obtain ⟨a', hreading, hagree⟩ := hu.exists_some
  have h1 := hagree.same
  rw [Reading.shownAttempt_none, Reading.shownAttempt_none] at h1
  have hinterest : a.interest = a'.interest := by
    have h2 := congrArg Attempt.interest h1
    rw [Attempt.interest_recast, Attempt.interest_recast] at h2
    exact h2
  -- the reading moves to the other text, and the run there comes to it
  have hwindow : Text.Alike u v o p a'.interest.length :=
    ⟨Text.le_size_of_isBoundary ho, Text.le_size_of_isBoundary hp, by rw [← hinterest]; exact hsame⟩
  obtain ⟨b', hreading', hshift⟩ := Reading.within_local grammar u v (Nat.le_refl _) rule o p context a' ho hreading hwindow
  obtain ⟨b, t1, hrun', hagree'⟩ := (hdecides v rule p context t hp (hready v t ht rfl)).exists_ok hreading'
  have h2 := hagree'.same
  rw [Reading.shownAttempt_none, Reading.shownAttempt_none] at h2
  have hkept : b'.kept grammar = a'.kept grammar := by
    rw [← Attempt.kept_recast grammar (.moved o) b', ← hshift, Attempt.kept_recast]
  refine ⟨b, t1, a'.kept grammar, hrun', ?_, ?_, hagree.steady.collected, ?_⟩
  · rw [Attempt.Shifted, h1, h2, Attempt.recast_recast, Attempt.recast_recast, Recasting.bare_andThen_moved,
      Recasting.bare_andThen_moved, ← Attempt.recast_recast, ← Attempt.recast_recast, hshift]
  · rw [hinterest]
    exact (Reading.laid hreading).1
  · rw [← hkept]
    exact hagree'.steady.collected

end

open Pattern.Regex

/-- A letter that is read at the start of one text and at the end of another. -/
theorem fresh_depends_on_interest_letterA : ∃ a s b t,
    (attempts (.make (.ofPattern .letterA) "a" .plain {}) 1).fresh ⟨0⟩ 0 .empty { nextId := ⟨0⟩ } = .ok (a, s) ∧
      (attempts (.make (.ofPattern .letterA) "ba" .plain {}) 1).fresh ⟨0⟩ 1 .empty { nextId := ⟨0⟩ } = .ok (b, t) ∧
      (a.recast .bare).Shifted 0 1 (b.recast .bare) := by
  have hgives : Run.Gives 0 0 1 ((attempts (.make (.ofPattern .letterA) "a" .plain {}) 1).fresh ⟨0⟩ 0 .empty)
      (.success (.leaf ⟨0⟩ ⟨0, Text.size "a"⟩ "a") (.leaf ⟨0⟩ ⟨0, 2⟩)) :=
    attempt_gives rfl rfl (Nat.succ_pos 511) (.lift (a := ⟨none, [], .empty, .consume .keep (.pattern .letterA)⟩) rfl
      (consume_whole Pattern.matchFront_letterA))
  obtain ⟨s, hrun, _⟩ := hgives { nextId := ⟨0⟩ } ⟨rfl, rfl, trivial⟩
  have hsame : ((Text.bytes "a").drop 0).take 2 = ((Text.bytes "ba").drop 1).take 2 := by decide +kernel
  obtain ⟨b, t, _, hrun', hshifted, _⟩ := fresh_depends_on_interest (v := "ba") (p := 1) (t := { nextId := ⟨0⟩ }) (by rfl)
    (Text.isBoundary_zero "a") (by decide +kernel) (List.cons_ne_nil _ _) (List.cons_ne_nil _ _) rfl hrun hsame
  exact ⟨_, s, b, t, hrun, hrun', hshifted⟩

end Graft
