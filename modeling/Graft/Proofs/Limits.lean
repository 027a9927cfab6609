import Graft.Proofs.Calls
import Graft.Proofs.Memo
import Graft.Proofs.Nesting

/-!
# Raised limits

A limit ends a call or does nothing to it. Two runs set out from states that are the same up to identities, the second of them
under limits that are at least as high. As long as no limit ends the first, they take the same steps: they enter the same rules,
find the same attempts in the memo, fail and succeed at the same places and count the same. How much the memo holds is no limit in
this sense, since it decides which attempts are found there, and so the statistics.
-/

namespace Graft

open Engine

/-- Limits that are at least as high, with as much room in the memo. -/
structure Limits.RaisedTo (limits limits' : Limits) : Prop where
  input : limits.maxInputSize ≤ limits'.maxInputSize
  depth : limits.maxRuleDepth ≤ limits'.maxRuleDepth
  edits : limits.maxEdits ≤ limits'.maxEdits
  entries : limits'.maxMemoEntries = limits.maxMemoEntries

/-! ## States -/

/-- A remembered attempt without the identities of its nodes. -/
def MemoEntry.bare (entry : MemoEntry) : MemoEntry :=
  { entry with attempt := entry.attempt.recast .bare }

section

variable [Pattern.Compiler]

/-- States that differ in identities only: in those of the remembered nodes, and in the next one. -/
structure State.Same (s t : State) : Prop where
  memo (key : MemoKey) : (s.memo[key]?).map MemoEntry.bare = (t.memo[key]?).map MemoEntry.bare
  room : s.memo.size = t.memo.size
  collected : s.collected = t.collected
  depth : s.depth = t.depth
  furthest : s.furthest = t.furthest
  statistics : s.statistics = t.statistics

namespace State.Same

variable {s t : State}

/-- The states that two calls begin in differ in the next identity at most. -/
theorem begin (nextId nextId' : NodeId) : State.Same { nextId } { nextId := nextId' } :=
  ⟨fun _ => rfl, rfl, rfl, rfl, rfl, rfl⟩

/-- The same has been remembered, while there was room for it in both memos. -/
theorem remembering (h : s.Same t) {setting : Setting} {limits : Limits}
    (hroom : limits.maxMemoEntries = setting.limits.maxMemoEntries) (key : MemoKey) {entry entry' : MemoEntry}
    (he : entry.bare = entry'.bare) :
    (s.remembering setting key entry).Same (t.remembering (setting.under limits) key entry') := by
  -- both memos hold the key already or neither does, so they grow alike
  have hmem : key ∈ s.memo ↔ key ∈ t.memo := by
    have hsome := congrArg Option.isSome (h.memo key)
    rw [Option.isSome_map, Option.isSome_map] at hsome
    rw [Std.HashMap.mem_iff_isSome_getElem?, Std.HashMap.mem_iff_isSome_getElem?, hsome]
  have hunder : (setting.under limits).memoize = setting.memoize ∧
      (setting.under limits).limits.maxMemoEntries = setting.limits.maxMemoEntries := ⟨rfl, hroom⟩
  rw [State.remembering, State.remembering, hunder.1, hunder.2, h.room]
  split
  · refine ⟨fun other => ?_, ?_, h.collected, h.depth, h.furthest, h.statistics⟩
    · rw [Std.HashMap.getElem?_insert, Std.HashMap.getElem?_insert]
      split
      · exact congrArg some he
      · exact h.memo other
    · rw [Std.HashMap.size_insert, Std.HashMap.size_insert, h.room]
      simp only [hmem]
  · exact h

end State.Same

/-! ## Runs -/

/-- From states that differ in identities only, a run comes to what another comes to and leaves such states, unless a limit ends
the first. -/
def Run.Upheld {α β : Type} (R : α → β → Prop) (x : Run α) (y : Run β) : Prop :=
  ∀ s t, s.Same t → Mirrors .first (fun a s' b t' => R a b ∧ s'.Same t') (x s) (y t)

namespace Run.Upheld

variable {α β γ δ : Type} {R : α → β → Prop} {S : γ → δ → Prop}

/-- Related results are upheld. -/
theorem pure {a : α} {b : β} (h : R a b) : Upheld R (pure a) (pure b) :=
  fun _ _ hst => .ok ⟨h, hst⟩

/-- A fault is met in both runs. -/
theorem fail (cause : Fault.Cause) : Upheld R (Run.fail cause) (Run.fail cause) :=
  fun _ _ _ => .same _

/-- A lifted result is the same in both runs. -/
theorem lift (x : Except Fault α) : Upheld (· = ·) (liftM x : Run α) (liftM x : Run α) := by
  intro s t hst
  cases x with
  | ok a => exact .ok ⟨rfl, hst⟩
  | error fault => exact .same fault

/-- Steps that follow an upheld step are upheld together with it if they are so from related results. -/
theorem bind {x : Run α} {y : Run β} {f : α → Run γ} {g : β → Run δ} (h : Upheld R x y)
    (hf : ∀ a b, R a b → Upheld S (f a) (g b)) : Upheld S (x >>= f) (y >>= g) := by
  intro s t hst
  refine (h s t hst).bind ?_
  rintro a s' b t' ⟨hr, hst'⟩
  exact hf a b hr s' t' hst'

/-- Identities are where the runs may differ. -/
theorem freshId : Upheld (fun _ _ => True) Run.freshId Run.freshId :=
  fun _ _ hst => .ok ⟨trivial, hst.memo, hst.room, hst.collected, hst.depth, hst.furthest, hst.statistics⟩

theorem count (k : Statistics → Statistics) : Upheld (fun _ _ => True) (Run.count k) (Run.count k) :=
  fun _ _ hst => .ok ⟨trivial, hst.memo, hst.room, hst.collected, hst.depth, hst.furthest, congrArg k hst.statistics⟩

/-- Both runs leave a rule. -/
theorem leave : Upheld (fun _ _ => True) Run.leave Run.leave :=
  fun _ _ hst => .ok ⟨trivial, hst.memo, hst.room, hst.collected, congrArg (· - 1) hst.depth, hst.furthest, hst.statistics⟩

/-- What a step makes of the collected texts it makes of them in both runs. -/
theorem collect {x : Run α} (value : List String → α) (texts : List String → List String)
    (h : ∀ s, x s = .ok (value s.collected, { s with collected := texts s.collected })) : Upheld (· = ·) x x := by
  intro s t hst
  rw [h, h]
  exact .ok ⟨congrArg value hst.collected, hst.memo, hst.room, congrArg texts hst.collected, hst.depth, hst.furthest,
    hst.statistics⟩

theorem mark : Upheld (· = ·) Run.mark Run.mark :=
  collect (fun texts => Text.size (Run.innermost texts)) id fun _ => rfl

theorem since (mark : Nat) : Upheld (· = ·) (Run.since mark) (Run.since mark) :=
  collect (fun texts => Text.beyond (Run.innermost texts) mark) id fun _ => rfl

theorem rollback (mark : Nat) : Upheld (· = ·) (Run.rollback mark) (Run.rollback mark) :=
  collect (fun _ => ()) (fun texts => Run.withInnermost (Text.upTo (Run.innermost texts) mark) texts) fun _ => rfl

theorem append (text : String) : Upheld (· = ·) (Run.append text) (Run.append text) :=
  collect (fun _ => ()) (fun texts => Run.withInnermost (Run.innermost texts ++ text) texts) fun _ => rfl

theorem openValue : Upheld (· = ·) Run.openValue Run.openValue :=
  collect (fun _ => ()) ("" :: ·) fun _ => rfl

theorem closeValue : Upheld (· = ·) Run.closeValue Run.closeValue :=
  collect Run.innermost (List.drop 1) fun _ => rfl

/-- Both runs reach equally far. -/
theorem reach {a b : Attempt} (h : a.Same b) : Upheld (fun _ _ => True) (Run.reach a) (Run.reach b) := by
  intro s t hst
  rw [Run.reach, Run.reach]
  cases ha : a.statement with
  | none =>
    rw [Attempt.statement_none_of_same h ha]
    exact .ok ⟨trivial, hst⟩
  | some u =>
    obtain ⟨v, hv, hsame⟩ := Attempt.statement_some_of_same h ha
    rw [hv]
    refine .ok ⟨trivial, hst.memo, hst.room, hst.collected, hst.depth, ?_, hst.statistics⟩
    simp only [hst.furthest, Statement.region_of_same hsame]

variable {setting : Setting} {limits : Limits}

/-- Where a rule may be entered it may be entered under a higher limit. -/
theorem enter (h : setting.limits.maxRuleDepth ≤ limits.maxRuleDepth) (rule : RuleId) :
    Upheld (fun _ _ => True) (Run.enter setting rule) (Run.enter (setting.under limits) rule) := by
  intro s t hst
  have hcancelled : (setting.under limits).cancelled = setting.cancelled := rfl
  have hunder : (setting.under limits).limits = limits := rfl
  rw [← bind_pure (Run.enter setting rule), ← bind_pure (Run.enter (setting.under limits) rule), Run.enter_bind,
    Run.enter_bind, hcancelled, hunder]
  cases setting.cancelled with
  | true => exact .same _
  | false =>
    simp only [Bool.false_eq_true, if_false]
    by_cases hdepth : setting.limits.maxRuleDepth ≤ s.depth
    -- where the first run meets its limit the second may do anything
    · rw [if_pos hdepth]
      exact .stopped (by decide) rfl
    · have hle : ¬limits.maxRuleDepth ≤ t.depth := by
        rw [← hst.depth]
        omega
      rw [if_neg hdepth, if_neg hle]
      refine .ok ⟨trivial, hst.memo, hst.room, hst.collected, congrArg (· + 1) hst.depth, hst.furthest, ?_⟩
      simp only [hst.statistics]

/-- The same is found in both memos, or nothing. -/
theorem lookUp (key : MemoKey) :
    Upheld (fun a b => a.map (Attempt.recast .bare) = b.map (Attempt.recast .bare)) (Run.lookUp setting key)
      (Run.lookUp (setting.under limits) key) := by
  intro s t hst
  have hmemoize : (setting.under limits).memoize = setting.memoize := rfl
  rw [← bind_pure (Run.lookUp setting key), ← bind_pure (Run.lookUp (setting.under limits) key), Run.lookUp_bind,
    Run.lookUp_bind, hmemoize]
  cases setting.memoize with
  | false => exact .ok ⟨rfl, hst⟩
  | true =>
    have hmemo := hst.memo key
    simp only [if_true]
    cases hs : s.memo[key]? with
    | none =>
      rw [hs, eq_comm, Option.map_none, Option.map_eq_none_iff] at hmemo
      rw [hmemo]
      refine .ok ⟨rfl, hst.memo, hst.room, hst.collected, hst.depth, hst.furthest, ?_⟩
      simp only [hst.statistics]
    | some entry =>
      rw [hs, eq_comm, Option.map_some, Option.map_eq_some_iff] at hmemo
      obtain ⟨entry', ht, hbare⟩ := hmemo
      have hattempt : entry'.attempt.Same entry.attempt := congrArg MemoEntry.attempt hbare
      have happended : entry'.appended = entry.appended := (congrArg MemoEntry.appended hbare :)
      rw [ht]
      refine .ok ⟨congrArg some hattempt.symm, hst.memo, hst.room, ?_, hst.depth, hst.furthest, ?_⟩
      · simp only [State.adding, hst.collected, happended]
      · simp only [State.adding, hst.statistics]

/-- Both runs remember an attempt, or neither has room for it. -/
theorem remember (h : limits.maxMemoEntries = setting.limits.maxMemoEntries) (key : MemoKey) {entry entry' : MemoEntry}
    (he : entry.bare = entry'.bare) :
    Upheld (fun _ _ => True) (Run.remember setting key entry) (Run.remember (setting.under limits) key entry') := by
  intro s t hst
  rw [← bind_pure (Run.remember setting key entry), ← bind_pure (Run.remember (setting.under limits) key entry'),
    Run.remember_eq, Run.remember_eq]
  exact .ok ⟨trivial, hst.remembering h key he⟩

end Run.Upheld

/-- To be upheld is to be alike. -/
def Setting.upheld (setting : Setting) (limits : Limits) : Likeness setting (setting.under limits) where
  Alike := Run.Upheld
  grammar := rfl
  input := rfl
  pure := .pure
  fail := .fail
  lift := .lift
  bind := .bind
  freshId := .freshId
  append text := Run.Upheld.append text |>.bind fun _ _ _ => .pure trivial
  marked h hf := by
    -- the collected texts are the same, and so are the marks
    refine Run.Upheld.mark.bind ?_
    rintro m _ rfl
    refine h.bind fun a b hr => ?_
    obtain hgo | ⟨c, d, hcd, hc, hd⟩ := hf a b hr
    · exact hgo m m
    · rw [hc, hd]
      exact (Run.Upheld.rollback m).bind fun _ _ _ => .pure hcd
  valued h hf := by
    refine Run.Upheld.openValue.bind fun _ _ _ => h.bind fun a b hr => ?_
    refine Run.Upheld.closeValue.bind ?_
    rintro text _ rfl
    exact hf a b text hr

/-! ## Attempts -/

section

variable {setting : Setting} {limits : Limits} {A B : Attempts} {rule : RuleId} {offset : Nat} {context : Context}

/-- Keeping a node is upheld under any limits. -/
theorem reuse_upheld (s : Statement) (d : Derivation) :
    Run.Upheld Attempt.Same (reuse setting s d) (reuse (setting.under limits) s d) := by
  rw [reuse, reuse]
  refine Run.Upheld.bind (recollect_alike (L := setting.upheld limits) setting.grammar s d) fun _ _ _ => ?_
  exact (Run.Upheld.reach rfl).bind fun _ _ _ => (Run.Upheld.count _).bind fun _ _ _ => .pure rfl

variable (hlimits : setting.limits.RaisedTo limits)
include hlimits

/-- An attempt is found in both memos or made in both runs. -/
theorem lookUpOrRead_upheld (hA : (setting.upheld limits).Fresh A B) :
    Run.Upheld Attempt.Same (lookUpOrRead setting A rule offset context)
      (lookUpOrRead (setting.under limits) B rule offset context) := by
  rw [lookUpOrRead, lookUpOrRead]
  refine (Run.Upheld.lookUp _).bind fun found found' hfound => ?_
  cases found with
  | some a =>
    obtain ⟨b, rfl, hab⟩ := Option.map_eq_some_iff.1 hfound.symm
    exact .pure hab.symm
  | none =>
    obtain rfl := Option.map_eq_none_iff.1 hfound.symm
    refine Run.Upheld.mark.bind ?_
    rintro mark _ rfl
    refine Run.Upheld.bind (readBody_alike hA rule offset context) fun a b hab => ?_
    refine (Run.Upheld.reach hab).bind fun _ _ _ => (Run.Upheld.since mark).bind ?_
    rintro appended _ rfl
    have hentry : MemoEntry.bare ⟨a, appended⟩ = MemoEntry.bare ⟨b, appended⟩ := congrArg (MemoEntry.mk · appended) hab
    exact (Run.Upheld.remember hlimits.entries _ hentry).bind fun _ _ _ => .pure hab

/-- An attempt from scratch is upheld if the attempts below it are. -/
theorem attempt_upheld (hA : (setting.upheld limits).Fresh A B) :
    Run.Upheld Attempt.Same (attempt setting A rule offset context) (attempt (setting.under limits) B rule offset context) := by
  rw [attempt, attempt]
  refine (Run.Upheld.enter hlimits.depth rule).bind fun _ _ _ => (lookUpOrRead_upheld hlimits hA).bind fun a b hab => ?_
  exact Run.Upheld.leave.bind fun _ _ _ => .pure hab

/-- An attempt on an earlier node is upheld if the attempts below it are. -/
theorem reattempt_upheld (hA : (setting.upheld limits).Fresh A B) (hB : ∀ node, (setting.upheld limits).Again A B node)
    (s : Statement) (d : Derivation) :
    Run.Upheld Attempt.Same (reattempt setting A rule s d offset context)
      (reattempt (setting.under limits) B rule s d offset context) := by
  have hmodified : (setting.under limits).modified = setting.modified := rfl
  rw [reattempt, reattempt, hmodified]
  split
  · exact attempt_upheld hlimits hA
  · split
    · exact reuse_upheld s d
    · refine (Run.Upheld.enter hlimits.depth rule).bind fun _ _ _ => (Run.Upheld.count _).bind fun _ _ _ => ?_
      refine Run.Upheld.bind (rereadBody_alike hA hB rule s d offset context) fun a b hab => ?_
      exact Run.Upheld.leave.bind fun _ _ _ => (Run.Upheld.reach hab).bind fun _ _ _ => .pure hab

/-- Attempts inside a number of levels are upheld inside at least as many. -/
theorem attempts_upheld {levels levels' : Nat} (h : levels ≤ levels') :
    (setting.upheld limits).Fresh (attempts setting levels) (attempts (setting.under limits) levels') ∧
      ∀ node, (setting.upheld limits).Again (attempts setting levels) (attempts (setting.under limits) levels') node := by
  induction levels generalizing levels' with
  -- below its last level the first run is stopped
  | zero => exact ⟨fun _ _ _ _ _ _ => .stopped (by decide) rfl, fun _ _ _ _ _ _ _ => .stopped (by decide) rfl⟩
  | succ levels ih =>
    cases levels' with
    | zero => exact absurd h (by omega)
    | succ levels' =>
      obtain ⟨hfresh, hagain⟩ := ih (Nat.le_of_succ_le_succ h)
      exact ⟨fun _ _ _ => attempt_upheld hlimits hfresh, fun node _ _ _ => reattempt_upheld hlimits hfresh hagain node.1 node.2⟩

/-- What the root comes to is upheld, from scratch and again. -/
theorem atRoot_upheld :
    (setting.upheld limits).Fresh (atRoot setting) (atRoot (setting.under limits)) ∧
      ∀ node, (setting.upheld limits).Again (atRoot setting) (atRoot (setting.under limits)) node :=
  attempts_upheld hlimits (Nat.succ_le_succ hlimits.depth)

end

/-! ## Calls -/

/-- A tree without the identities of its nodes. -/
def Tree.bare (t : Tree) : Tree :=
  { t with statement := t.statement.recast .bare }

omit [Pattern.Compiler] in
@[simp] theorem Tree.text_bare (t : Tree) : t.bare.text = t.text :=
  Statement.rawText_recast ..

/-- What a call comes to up to identities: the tree, with its statistics, or the fault. -/
def outcome (r : Except Fault (Tree × NodeId)) : Except Fault Tree :=
  r.map (·.1.bare)

/-- A call is not ended by a limit. -/
def Finished {α : Type} (r : Except Fault α) : Prop :=
  ∀ fault, r = .error fault → fault.kind ≠ .limitExceeded

/-- A call that no limit ends is ended by none in its first step. -/
theorem Finished.of_bind {α β : Type} {x : Except Fault α} {f : α → Except Fault β} (h : Finished (x >>= f)) : Finished x := by
  rintro fault rfl
  exact h fault rfl

/-- Attempts that are the same up to identities make trees that are, with the same statistics, or the same fault. -/
theorem Tree.ofRun_upheld {input : String} {unmatched : Nat → Nat → Fault.Cause} {a b : Attempt} {s t : State}
    (hab : a.Same b) (hst : s.Same t) :
    (Tree.ofRun input unmatched a s).map Tree.bare = (Tree.ofRun input unmatched b t).map Tree.bare := by
  have hsame : SameOutcome ((Tree.ofRun input unmatched a s).map (·, s.nextId))
      ((Tree.ofRun input unmatched b t).map (·, t.nextId)) := Tree.ofRun_same hab hst.furthest _ _
  rcases hs : Tree.ofRun input unmatched a s with fault | tree <;>
    rcases ht : Tree.ofRun input unmatched b t with fault' | tree' <;> rw [hs, ht] at hsame
  · exact congrArg Except.error hsame
  · exact hsame.elim
  · exact hsame.elim
  · obtain ⟨_, _, hleft⟩ := Tree.ofRun_eq_ok hs
    obtain ⟨_, _, hright⟩ := Tree.ofRun_eq_ok ht
    have hstatistics : tree.statistics = tree'.statistics := by rw [hleft, hright, hst.statistics]
    simp only [Except.map, Tree.bare, hsame.1, hsame.2, hstatistics]

/-- The outcome does not depend on the next identity. -/
theorem outcome_map (r : Except Fault Tree) (next : NodeId) : outcome (r.map (·, next)) = r.map Tree.bare := by
  cases r <;> rfl

/-- Whether a tree has the text of its document does not depend on identities. -/
theorem outcome_of_text {r r' : Except Fault Tree} (h : r.map Tree.bare = r'.map Tree.bare) (text : String)
    (next next' : NodeId) :
    outcome (do
      let tree ← r
      if tree.text = text then return (tree, next) else throw (.of .textDiffers)) =
    outcome (do
      let tree ← r'
      if tree.text = text then return (tree, next') else throw (.of .textDiffers)) := by
  rcases r with fault | tree
  · rcases r' with fault' | tree'
    · cases h
      rfl
    · cases h
  · rcases r' with fault' | tree'
    · cases h
    · have hbare : tree.bare = tree'.bare := Except.ok.inj h
      have htext : tree.text = tree'.text := by rw [← tree.text_bare, hbare, tree'.text_bare]
      change outcome (if tree.text = text then _ else _) = outcome (if tree'.text = text then _ else _)
      rw [htext]
      split
      · exact congrArg Except.ok hbare
      · rfl

/-- What is made of the results of two runs is the same up to identities, if no limit ends the first. -/
theorem outcome_of_upheld {r r' : Except Fault (Attempt × State)}
    (h : Mirrors .first (fun a s b t => a.Same b ∧ s.Same t) r r') {k : Attempt × State → Except Fault (Tree × NodeId)}
    (hk : ∀ a s b t, a.Same b → s.Same t → outcome (k (a, s)) = outcome (k (b, t))) (hfinished : Finished (r >>= k)) :
    outcome (r' >>= k) = outcome (r >>= k) := by
  cases h with
  | ok related => exact (hk _ _ _ _ related.1 related.2).symm
  | same fault => rfl
  | stopped given limit => exact absurd limit (hfinished _ rfl)
  | excused given limit => cases given

/-- A text that is not too large is not too large for higher limits. -/
theorem Limits.RaisedTo.checkInput {limits limits' : Limits} (h : limits.RaisedTo limits') {input : String}
    (hfinished : Finished (limits.checkInput input)) :
    limits.checkInput input = .ok () ∧ limits'.checkInput input = .ok () := by
  have hsize : ¬limits.maxInputSize < Text.size input := by
    intro hlt
    rw [Limits.checkInput, if_pos hlt] at hfinished
    exact hfinished _ rfl rfl
  have hsize' : ¬limits'.maxInputSize < Text.size input := by
    have hle := h.input
    omega
  exact ⟨if_neg hsize, if_neg hsize'⟩

section

variable {grammar : Grammar} {options : Options} {limits : Limits} (h : options.limits.RaisedTo limits) {nextId : NodeId}
include h

/-- Raised limits leave the outcome of a parse as it is. -/
theorem outcome_of_parse {input : String} (hfinished : Finished (grammar.parse input options nextId)) (nextId' : NodeId) :
    outcome (grammar.parse input { options with limits } nextId') = outcome (grammar.parse input options nextId) := by
  rw [Grammar.parse_eq] at hfinished
  obtain ⟨hcheck, hcheck'⟩ := h.checkInput hfinished.of_bind
  rw [Grammar.parse_eq, Grammar.parse_eq, hcheck, hcheck']
  rw [hcheck] at hfinished
  have hsetting : (Setting.make grammar input options {}).limits.RaisedTo limits := h
  have hroot := (atRoot_upheld hsetting).1 grammar.root 0 options.context { nextId } { nextId := nextId' } (.begin ..)
  refine outcome_of_upheld hroot (fun a s b t hab hst => ?_) hfinished
  rw [outcome_map, outcome_map, Tree.ofRun_upheld hab hst]

/-- Raised limits leave the outcome of a rederivation as it is. -/
theorem outcome_of_rederive {t : EditedTree} (hfinished : Finished (grammar.rederive t options nextId)) (nextId' : NodeId) :
    outcome (grammar.rederive t { options with limits } nextId') = outcome (grammar.rederive t options nextId) := by
  have hsetting : (Setting.make grammar t.text options t.modified).limits.RaisedTo limits := h
  have hroot := (atRoot_upheld hsetting).2 (t.statement, t.derivation) grammar.root 0 options.context { nextId }
    { nextId := nextId' } (.begin ..)
  exact outcome_of_upheld hroot (fun a s b t hab hst => outcome_of_text (Tree.ofRun_upheld hab hst) ..) hfinished

/-- Raised limits leave the outcome of a repair as it is. -/
theorem outcome_of_repair {tree : Tree} {edits : List Edit} (hfinished : Finished (grammar.repair tree edits options nextId))
    (nextId' : NodeId) :
    outcome (grammar.repair tree edits { options with limits } nextId') =
      outcome (grammar.repair tree edits options nextId) := by
  by_cases hne : edits.isEmpty = true
  · rw [Grammar.repair, Grammar.repair, if_pos hne, if_pos hne]
    rfl
  have hcount : ¬options.limits.maxEdits < edits.length := by
    intro hlt
    rw [Grammar.repair, if_neg hne, if_pos hlt] at hfinished
    exact hfinished _ rfl rfl
  have hcount' : ¬limits.maxEdits < edits.length := by
    have hle := h.edits
    omega
  rw [Grammar.repair, if_neg hne, if_neg hcount] at hfinished
  rw [Grammar.repair, Grammar.repair, if_neg hne, if_neg hne, if_neg hcount, if_neg hcount']
  cases happly : tree.applyEdits edits with
  | error fault => rfl
  | ok t =>
    rw [happly, Run.ok_bind] at hfinished
    obtain ⟨hcheck, hcheck'⟩ := h.checkInput hfinished.of_bind
    rw [hcheck, Run.ok_bind] at hfinished
    rw [Run.ok_bind, Run.ok_bind, hcheck, hcheck', Run.ok_bind, Run.ok_bind]
    split
    · rename_i hmark
      rw [if_pos hmark] at hfinished
      exact outcome_of_rederive h hfinished nextId'
    · cases Grammar.keepTree t <;> rfl

end

/-- **Raising limits changes no finished call.** A parse or a repair that is not ended by a limit comes, under limits on the
input, on the depth of rules and on the edits that are at least as high, to the same tree up to identities with the same
statistics, or to the same fault. -/
theorem finished_calls_upheld (grammar : Grammar) {options : Options} {limits : Limits}
    (h : options.limits.RaisedTo limits) (nextId nextId' : NodeId) :
    (∀ input, Finished (grammar.parse input options nextId) →
      outcome (grammar.parse input { options with limits } nextId') = outcome (grammar.parse input options nextId)) ∧
    ∀ tree edits, Finished (grammar.repair tree edits options nextId) →
      outcome (grammar.repair tree edits { options with limits } nextId') =
        outcome (grammar.repair tree edits options nextId) :=
  ⟨fun _ hfinished => outcome_of_parse h hfinished nextId', fun _ _ hfinished => outcome_of_repair h hfinished nextId'⟩

end

open Pattern.Regex

/-- A letter is parsed, and written anew and repaired, under the highest limits as under the usual ones. -/
theorem finished_calls_upheld_letterA : ∃ before tree limits,
    Options.plain.limits.RaisedTo limits ∧ limits ≠ Options.plain.limits ∧
      outcome ((Grammar.ofPattern .letterA).parse "a" .plain ⟨0⟩) = .ok before.bare ∧
      outcome ((Grammar.ofPattern .letterA).parse "a" { Options.plain with limits } ⟨7⟩) = .ok before.bare ∧
      outcome ((Grammar.ofPattern .letterA).repair before [⟨0, 1, "a"⟩] .plain ⟨1⟩) = .ok tree ∧
      outcome ((Grammar.ofPattern .letterA).repair before [⟨0, 1, "a"⟩] { Options.plain with limits } ⟨7⟩) = .ok tree := by
  have hsize : Text.size "a" ≤ Options.plain.limits.maxInputSize := by decide +kernel
  obtain ⟨statistics, hparse⟩ := parse_ofPattern Pattern.matchFront_letterA hsize 0
  have hedits : Edit.applyAll [⟨0, 1, "a"⟩] "a" = .ok "a" := by decide +kernel
  obtain ⟨⟨tree, next⟩, hrepair⟩ :=
    repair_ofPattern Pattern.matchFront_letterA hedits Pattern.matchFront_letterA (by decide) hsize 0 1 statistics
  have hraised : Options.plain.limits.RaisedTo
      { Limits.unlimited with maxMemoEntries := Options.plain.limits.maxMemoEntries } :=
    ⟨by decide, by decide, by decide, rfl⟩
  have hparsed := (finished_calls_upheld (.ofPattern .letterA) hraised ⟨0⟩ ⟨7⟩).1 "a" (by
    rw [hparse]
    intro _ hfault
    cases hfault)
  have hrepaired := (finished_calls_upheld (.ofPattern .letterA) hraised ⟨1⟩ ⟨7⟩).2 _ _ (by
    rw [hrepair]
    intro _ hfault
    cases hfault)
  refine ⟨_, _, _, hraised, by decide, by rw [hparse]; rfl, ?_, by rw [hrepair]; rfl, ?_⟩
  · rw [hparsed, hparse]
    rfl
  · rw [hrepaired, hrepair]
    rfl

end Graft
