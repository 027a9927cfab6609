import Graft.Proofs.Agreement
import Graft.Proofs.Memo
import Graft.Proofs.Visible

/-!
# Accounts

What a call counts adds up. A relation between what was counted before a run and what is counted after it holds of every run, from
whatever state and of whatever grammar, if it chains and if it holds across what one attempt counts for itself. To count by such
a relation is a likeness of which only one run is looked at, so the steps of the engine keep it.
-/

namespace Graft

open Engine

/-! ## Relations -/

/-- A relation between what was counted before and after, which chains and holds across what an attempt from scratch counts for
itself: that it was found in the memo, that it was not found there, or, without a memo, nothing but itself. -/
structure Account (memoize : Bool) (Q : Statistics → Statistics → Prop) : Prop where
  refl (s : Statistics) : Q s s
  trans {s t u : Statistics} (first : Q s t) (second : Q t u) : Q s u
  found (s : Statistics) (asked : memoize = true) : Q s { s with entered := s.entered + 1, hits := s.hits + 1 }
  missed (s : Statistics) (asked : memoize = true) : Q s { s with entered := s.entered + 1, misses := s.misses + 1 }
  unasked (s : Statistics) (off : memoize = false) : Q s { s with entered := s.entered + 1 }

/-- Such a relation that holds across what an attempt on an earlier node counts for itself, too: that the node is derived again,
or that it is kept. -/
structure Account.WithRepairs (memoize : Bool) (Q : Statistics → Statistics → Prop) : Prop extends Account memoize Q where
  rederived (s : Statistics) : Q s { s with entered := s.entered + 1, rederived := s.rederived + 1 }
  kept (s : Statistics) : Q s { s with reused := s.reused + 1 }

namespace Account

/-- Every attempt counts as entered. -/
theorem entered (memoize : Bool) : WithRepairs memoize fun s t => s.entered ≤ t.entered where
  refl _ := Nat.le_refl _
  trans := Nat.le_trans
  found _ _ := Nat.le_succ _
  missed _ _ := Nat.le_succ _
  unasked _ _ := Nat.le_succ _
  rederived _ := Nat.le_succ _
  kept _ := Nat.le_refl _

/-- An attempt from scratch neither keeps a node nor derives one again. -/
theorem afresh (memoize : Bool) : Account memoize fun s t => t.reused = s.reused ∧ t.rederived = s.rederived where
  refl _ := ⟨rfl, rfl⟩
  trans first second := ⟨second.1.trans first.1, second.2.trans first.2⟩
  found _ _ := ⟨rfl, rfl⟩
  missed _ _ := ⟨rfl, rfl⟩
  unasked _ _ := ⟨rfl, rfl⟩

/-- Without a memo nothing is found there and nothing is missed. -/
theorem unasking : WithRepairs false fun s t => t.hits = s.hits ∧ t.misses = s.misses where
  refl _ := ⟨rfl, rfl⟩
  trans first second := ⟨second.1.trans first.1, second.2.trans first.2⟩
  found _ asked := nomatch asked
  missed _ asked := nomatch asked
  unasked _ _ := ⟨rfl, rfl⟩
  rederived _ := ⟨rfl, rfl⟩
  kept _ := ⟨rfl, rfl⟩

/-- With a memo an attempt that is entered is found there, or missed there, or on a node that is derived again. -/
theorem asking : WithRepairs true fun s t =>
    t.entered + (s.hits + s.misses + s.rederived) = s.entered + (t.hits + t.misses + t.rederived) where
  refl _ := rfl
  trans first second := by omega
  found _ _ := by dsimp only; omega
  missed _ _ := by dsimp only; omega
  unasked _ off := nomatch off
  rederived _ := by dsimp only; omega
  kept _ := rfl

end Account

section

variable [Pattern.Compiler]

/-! ## Runs -/

/-- To count by a relation is a likeness of which only the first run is looked at. -/
def Account.likeness {memoize : Bool} {Q : Statistics → Statistics → Prop} (h : Account memoize Q) (setting : Setting) :
    Likeness setting setting where
  Alike R x _ := ∀ s a t, x s = .ok (a, t) → Q s.statistics t.statistics ∧ ∃ b, R a b
  grammar := rfl
  input := rfl
  pure hr s a t hx := by
    cases hx
    exact ⟨h.refl _, _, hr⟩
  fail _ _ _ _ hx := by cases hx
  lift x s a t hx := by
    cases x <;> cases hx
    exact ⟨h.refl _, _, rfl⟩
  bind hx hf s c u hrun := by
    obtain ⟨a, t, hrun, hrest⟩ := Run.bind_eq_ok.1 hrun
    obtain ⟨hfirst, b, hr⟩ := hx s a t hrun
    obtain ⟨hsecond, hc⟩ := hf a b hr t c u hrest
    exact ⟨h.trans hfirst hsecond, hc⟩
  freshId s a t hx := by
    cases hx
    exact ⟨h.refl _, s.nextId, trivial⟩
  append text s a t hx := by
    cases hx
    exact ⟨h.refl _, (), trivial⟩
  marked hx hf s c u hrun := by
    rw [Run.mark_bind] at hrun
    obtain ⟨a, t, hrun, hrest⟩ := Run.bind_eq_ok.1 hrun
    obtain ⟨hfirst, b, hr⟩ := hx s a t hrun
    obtain hgo | ⟨_, d, hd, hback, -⟩ := hf a b hr
    · obtain ⟨hsecond, hc⟩ := hgo _ 0 t c u hrest
      exact ⟨h.trans hfirst hsecond, hc⟩
    · rw [hback] at hrest
      cases hrest
      exact ⟨hfirst, d, hd⟩
  valued hx hf s c u hrun := by
    rw [Run.openValue_bind] at hrun
    obtain ⟨a, t, hrun, hrest⟩ := Run.bind_eq_ok.1 hrun
    rw [Run.closeValue_bind] at hrest
    obtain ⟨hfirst, b, hr⟩ := hx _ a t hrun
    obtain ⟨hsecond, hc⟩ := hf a b _ hr _ c u hrest
    exact ⟨h.trans hfirst hsecond, hc⟩

/-! ## Attempts -/

section

variable {setting : Setting} {Q : Statistics → Statistics → Prop} {A : Attempts} {rule : RuleId} {offset : Nat}
  {context : Context} {s t : State} {a : Attempt}

/-- An attempt of a rule counts the rule as entered and then, unless it is found in the memo, what its body counts. -/
theorem counted_of_attempt (h : Account setting.memoize Q) (hA : (h.likeness setting).Fresh A A)
    (hrun : attempt setting A rule offset context s = .ok (a, t)) :
    (∃ entry, setting.memoize = true ∧ t.statistics = (s.entered.found entry).statistics) ∨
      Q (s.entered.unfound setting).statistics t.statistics := by
  rw [attempt] at hrun
  obtain ⟨_, u, hread, hleave⟩ := Run.bind_eq_ok.1 (Run.enter_eq_ok hrun)
  cases hleave
  rw [lookUpOrRead] at hread
  obtain ⟨entry, hon, -, hfound⟩ | ⟨-, hunfound⟩ := Run.lookUp_eq_ok hread
  · cases hfound
    exact Or.inl ⟨entry, hon, rfl⟩
  · dsimp only at hunfound
    rw [Run.mark_bind] at hunfound
    obtain ⟨b, v, hbody, hend⟩ := Run.bind_eq_ok.1 hunfound
    rw [Run.reach_eq, Run.since_bind, Run.remember_eq] at hend
    cases hend
    have hcounted := (readBody_alike hA rule offset context _ _ v hbody).1
    refine Or.inr ?_
    rw [State.statistics_remembering, State.statistics_reaching]
    exact hcounted

theorem attempt_counted (h : Account setting.memoize Q) (hA : (h.likeness setting).Fresh A A)
    (hrun : attempt setting A rule offset context s = .ok (a, t)) : Q s.statistics t.statistics := by
  obtain ⟨entry, hon, ht⟩ | hbody := counted_of_attempt h hA hrun
  · rw [ht]
    exact h.found s.statistics hon
  · refine h.trans ?_ hbody
    rw [State.unfound]
    split
    · rename_i hon
      exact h.missed s.statistics hon
    · rename_i hoff
      exact h.unasked s.statistics (Bool.not_eq_true _ ▸ hoff)

/-- Every attempt counts the rule. -/
theorem entered_lt_of_attempt
    (hA : ((Account.entered setting.memoize).likeness setting).Fresh A A)
    (hrun : attempt setting A rule offset context s = .ok (a, t)) : s.statistics.entered < t.statistics.entered := by
  obtain ⟨entry, -, ht⟩ | hbody := counted_of_attempt (Account.entered setting.memoize).toAccount hA hrun
  · rw [ht]
    exact Nat.lt_succ_self _
  · refine Nat.lt_of_lt_of_le (Nat.lt_succ_self _) (Nat.le_trans (Nat.le_of_eq ?_) hbody)
    rw [State.unfound]
    split <;> rfl

/-- Attempts from scratch count by the relation at every level. -/
theorem fresh_counted (h : Account setting.memoize Q) (levels : Nat) :
    (h.likeness setting).Fresh (attempts setting levels) (attempts setting levels) := by
  induction levels with
  | zero => exact fun _ _ _ _ _ _ hrun => by cases hrun
  | succ levels ih => exact fun _ _ _ s a t hrun => ⟨attempt_counted h ih hrun, a, rfl⟩

theorem reattempt_counted (h : Account.WithRepairs setting.memoize Q) (hA : (h.likeness setting).Fresh A A)
    (hB : ∀ node, (h.likeness setting).Again A A node) {statement : Statement} {d : Derivation}
    (hrun : reattempt setting A rule statement d offset context s = .ok (a, t)) : Q s.statistics t.statistics := by
  rw [reattempt] at hrun
  split at hrun
  · exact attempt_counted h.toAccount hA hrun
  split at hrun
  · rw [reuse] at hrun
    obtain ⟨_, u, hrecollect, hrest⟩ := Run.bind_eq_ok.1 hrun
    have hcounted := (recollect_alike (L := h.likeness setting) setting.grammar statement d _ _ u hrecollect).1
    rw [Run.reach_eq, Run.count_bind] at hrest
    cases hrest
    refine h.trans hcounted ?_
    simpa only [State.statistics_reaching] using h.kept u.statistics
  · replace hrun := Run.enter_eq_ok hrun
    rw [Run.count_bind] at hrun
    obtain ⟨b, u, hbody, hrest⟩ := Run.bind_eq_ok.1 hrun
    have hcounted := (rereadBody_alike hA hB rule statement d offset context _ b u hbody).1
    rw [Run.leave_bind, Run.reach_eq] at hrest
    cases hrest
    refine h.trans (h.rederived s.statistics) ?_
    rw [State.statistics_reaching]
    exact hcounted

/-- Attempts on earlier nodes, whatever the nodes are, count by the relation at every level. -/
theorem again_counted (h : Account.WithRepairs setting.memoize Q) (levels : Nat) (node : Earlier) :
    (h.likeness setting).Again (attempts setting levels) (attempts setting levels) node := by
  induction levels generalizing node with
  | zero => exact fun _ _ _ _ _ _ hrun => by cases hrun
  | succ levels ih =>
    exact fun _ _ _ s a t hrun => ⟨reattempt_counted h (fresh_counted h.toAccount levels) ih hrun, a, rfl⟩

end

/-! ## Calls -/

section

variable {grammar : Grammar} {options : Options} {nextId next : NodeId} {tree : Tree} {Q : Statistics → Statistics → Prop}

theorem parse_counted {input : String} (hQ : Account options.memoize Q)
    (h : grammar.parse input options nextId = .ok (tree, next)) : Q {} tree.statistics := by
  obtain ⟨t, hrun, _, _, ht⟩ := Grammar.parse_eq_ok h
  rw [ht]
  exact (@fresh_counted _ (.make grammar input options {}) Q hQ _ _ _ _ _ _ t hrun).1

/-- A parse attempts the root at least. -/
theorem entered_pos_of_parse {input : String} (h : grammar.parse input options nextId = .ok (tree, next)) :
    0 < tree.statistics.entered := by
  obtain ⟨t, hrun, _, _, ht⟩ := Grammar.parse_eq_ok h
  rw [ht]
  exact entered_lt_of_attempt (fresh_counted (Account.entered options.memoize).toAccount _) hrun

/-- Where a relation of attempts holds of the tree before a repair, it holds of the tree after. -/
theorem repair_counted {before : Tree} {edits : List Edit} (hQ : Account.WithRepairs options.memoize Q)
    (hbefore : Q {} before.statistics) (h : grammar.repair before edits options nextId = .ok (tree, next)) :
    Q {} tree.statistics := by
  obtain ⟨_, rfl⟩ | ⟨t, _, ⟨_, hrederive⟩ | ⟨_, hkeep⟩⟩ := repair_eq_ok h
  · exact hbefore
  · obtain ⟨u, hrun, _, _, _, hu⟩ := Grammar.rederive_eq_ok hrederive
    rw [hu]
    exact (@again_counted _ (.make grammar t.text options t.modified) Q hQ _ (t.statement, t.derivation) _ _ _ _ _ u hrun).1
  · obtain ⟨rfl, _⟩ := Grammar.keepTree_eq_ok hkeep
    exact hQ.refl {}

end

/-- A tree that comes from a parse and any number of repairs, each of them by some grammar, and all with a memo or all
without. -/
inductive Tree.MadeWith (memoize : Bool) : Tree → Prop where
  | parse {grammar : Grammar} {input : String} {options : Options} {nextId next : NodeId} {tree : Tree}
      (memoizes : options.memoize = memoize) (parsed : grammar.parse input options nextId = .ok (tree, next)) :
      MadeWith memoize tree
  | repair {grammar : Grammar} {before tree : Tree} {edits : List Edit} {options : Options} {nextId next : NodeId}
      (made : MadeWith memoize before) (memoizes : options.memoize = memoize)
      (repaired : grammar.repair before edits options nextId = .ok (tree, next)) : MadeWith memoize tree

/-- A relation of attempts holds from nothing counted to what is counted for a tree. -/
theorem Tree.MadeWith.counted {memoize : Bool} {Q : Statistics → Statistics → Prop} (hQ : Account.WithRepairs memoize Q)
    {tree : Tree} (h : tree.MadeWith memoize) : Q {} tree.statistics := by
  induction h with
  | parse memoizes parsed => exact parse_counted (memoizes ▸ hQ.toAccount) parsed
  | repair _ memoizes repaired ih => exact repair_counted (memoizes ▸ hQ) ih repaired

/-- **Statistics add up.** Where all calls remember attempts, each rule entered for a tree was found in the memo, or missed there,
or entered for a node that is derived again. Where none does, nothing is found and nothing is missed. A parse enters a rule, and
neither keeps a node nor derives one again. -/
theorem statistics_add_up :
    (∀ tree : Tree, tree.MadeWith true →
      tree.statistics.entered = tree.statistics.hits + tree.statistics.misses + tree.statistics.rederived) ∧
    (∀ tree : Tree, tree.MadeWith false → tree.statistics.hits = 0 ∧ tree.statistics.misses = 0) ∧
    ∀ (grammar : Grammar) (input : String) (options : Options) (nextId next : NodeId) (tree : Tree),
      grammar.parse input options nextId = .ok (tree, next) →
        0 < tree.statistics.entered ∧ tree.statistics.reused = 0 ∧ tree.statistics.rederived = 0 := by
  refine ⟨fun tree h => ?_, fun tree h => h.counted Account.unasking, fun grammar input options nextId next tree h => ?_⟩
  · have hcounted := h.counted Account.asking
    dsimp only at hcounted
    omega
  · exact ⟨entered_pos_of_parse h, parse_counted (Account.afresh options.memoize) h⟩

/-- A document that is one match is parsed as that match by a call that remembers attempts. -/
theorem parse_ofPattern_remembering {p : Pattern} {input : String} {examined : Nat}
    (hm : p.matchFront (Text.bytes input) = ⟨some (Text.size input), examined⟩)
    (hsize : Text.size input ≤ Options.plain.limits.maxInputSize) (nextId : Nat) :
    ∃ first statistics next,
      (Grammar.ofPattern p).parse input {} ⟨nextId⟩ = .ok (.ofMatch first input examined statistics, next) := by
  obtain ⟨_, hplain⟩ := parse_ofPattern hm hsize nextId
  have hfinished : ∀ fault, (Grammar.ofPattern p).parse input .plain ⟨nextId⟩ = .error fault →
      fault.kind ≠ .limitExceeded := by
    rw [hplain]
    exact fun _ h => nomatch h
  -- the memo is invisible, so the tree is the same up to the identity of its root
  have hsame : SameOutcome ((Grammar.ofPattern p).parse input .plain ⟨nextId⟩)
      ((Grammar.ofPattern p).parse input {} ⟨nextId⟩) := by
    refine parse_same ?_ ?_ ?_ ?_ ?_ hfinished <;> rfl
  rw [hplain] at hsame
  generalize (Grammar.ofPattern p).parse input {} ⟨nextId⟩ = outcome at hsame
  cases outcome with
  | error fault => exact hsame.elim
  | ok r =>
    obtain ⟨⟨statement, d, statistics⟩, next⟩ := r
    obtain ⟨hstatement, hd⟩ := hsame
    obtain rfl : _ = d := hd
    cases statement with
    | leaf id region text =>
      simp only [Tree.ofMatch, Statement.recast_leaf, Statement.leaf.injEq] at hstatement
      obtain ⟨-, hregion, rfl⟩ := hstatement
      obtain rfl : _ = region := hregion
      exact ⟨id.index, statistics, next, rfl⟩
    | group id region children =>
      rw [Tree.ofMatch, Statement.recast_leaf, Statement.recast_group] at hstatement
      cases hstatement
    | value id region name text body =>
      rw [Tree.ofMatch, Statement.recast_leaf, Statement.recast_value] at hstatement
      cases hstatement

end

open Pattern.Regex

/-- A letter that is parsed and then written anew, by calls that remember attempts, and parsed by a call that does not. -/
theorem statistics_add_up_letterA : ∃ parsed repaired forgetful next next' last,
    (Grammar.ofPattern .letterA).parse "a" {} ⟨0⟩ = .ok (parsed, next) ∧
    (Grammar.ofPattern .letterA).repair parsed [⟨0, 1, "a"⟩] {} ⟨1⟩ = .ok (repaired, next') ∧
    parsed.statistics.entered = parsed.statistics.hits + parsed.statistics.misses + parsed.statistics.rederived ∧
    0 < parsed.statistics.entered ∧ parsed.statistics.reused = 0 ∧ parsed.statistics.rederived = 0 ∧
    repaired.statistics.entered = repaired.statistics.hits + repaired.statistics.misses + repaired.statistics.rederived ∧
    (Grammar.ofPattern .letterA).parse "a" .plain ⟨0⟩ = .ok (forgetful, last) ∧
    forgetful.statistics.hits = 0 ∧ forgetful.statistics.misses = 0 := by
  have hsize : Text.size "a" ≤ Options.plain.limits.maxInputSize := by decide +kernel
  have he : Edit.applyAll [⟨0, 1, "a"⟩] "a" = .ok "a" := by decide +kernel
  obtain ⟨remembering, forgetting, parsing⟩ := statistics_add_up
  obtain ⟨first, statistics, next, hparse⟩ := parse_ofPattern_remembering Pattern.matchFront_letterA hsize 0
  obtain ⟨⟨repaired, next'⟩, hrepair⟩ := repair_ofPattern_within {} rfl (Nat.succ_pos 511)
    Pattern.matchFront_letterA he Pattern.matchFront_letterA (by decide) hsize first 1 statistics
  have hmade : Tree.MadeWith true (.ofMatch first "a" 2 statistics) := .parse rfl hparse
  obtain ⟨hentered, hreused, hrederived⟩ := parsing _ _ _ _ _ _ hparse
  obtain ⟨_, hplain⟩ := parse_ofPattern Pattern.matchFront_letterA hsize 0
  obtain ⟨hhits, hmisses⟩ := forgetting _ (.parse rfl hplain)
  exact ⟨_, repaired, _, next, next', _, hparse, hrepair, remembering _ hmade, hentered, hreused, hrederived,
    remembering _ (.repair hmade rfl hrepair), hplain, hhits, hmisses⟩

end Graft
