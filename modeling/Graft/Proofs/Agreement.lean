import Graft.Proofs.Calls
import Graft.Proofs.Edited
import Graft.Proofs.Rows

/-!
# Repairs agree with parses

A parse of a text comes to the reading of its root rule, and so does the repair of a tree, on the edited text. What they come
to is compared here: a repair succeeds where a parse does, with the same tree up to identities, and does not match where a parse
does not. Only the limits and the caller may stop one of them and not the other.
-/

namespace Graft

open Filter Engine

section

variable [Pattern.Compiler]

/-! ## What the root comes to -/

/-- A call on a text comes to what the root rule reads there, told up to a recasting: to a tree when the reading takes all of
the text, and else to the fault that it does not match. -/
def Settles (m : Recasting) (grammar : Grammar) (input : String) (context : Context) : Except Fault (Tree × NodeId) → Prop
  | .ok (tree, _) => ∃ b t, (∀ᶠ n in atTop, Reading.within grammar input n grammar.root 0 context = some b) ∧
      b.statement = some t ∧ t.region.stop = Text.size input ∧
      (Attempt.success tree.statement tree.derivation).recast m = b.recast m
  | .error fault => fault.isStop ∨
      (fault.kind = .parseFailed ∧ ∃ b, (∀ᶠ n in atTop, Reading.within grammar input n grammar.root 0 context = some b) ∧
        ∀ t, b.statement = some t → t.region.stop ≠ Text.size input) ∨
      (fault.kind ≠ .parseFailed ∧ ∀ᶠ n in atTop, Reading.within grammar input n grammar.root 0 context = none)

namespace Settles

variable {m : Recasting} {grammar : Grammar} {input : String} {context : Context} {x y : Except Fault (Tree × NodeId)}

/-- What is known of a call that no limit and no caller stops. -/
def Unstopped (x : Except Fault (Tree × NodeId)) : Prop :=
  ∀ fault, x = .error fault → ¬fault.isStop

theorem isOk_of (hx : Settles m grammar input context x) (hy : Settles m grammar input context y) (hu : Unstopped y)
    {r : Tree × NodeId} (h : x = .ok r) : ∃ r, y = .ok r := by
  subst h
  obtain ⟨b, t, hb, ht, hstop, _⟩ := hx
  match y with
  | .ok r => exact ⟨r, rfl⟩
  | .error fault =>
    obtain hs | ⟨_, b', hb', hno⟩ | ⟨_, hnone⟩ := hy
    · exact absurd hs (hu fault rfl)
    · obtain ⟨n, h1, h2⟩ := (hb.and hb').exists
      rw [h1] at h2
      cases h2
      exact absurd hstop (hno t ht)
    · obtain ⟨n, h1, h2⟩ := (hb.and hnone).exists
      rw [h1] at h2
      cases h2

theorem parseFailed_of (hx : Settles m grammar input context x) (hy : Settles m grammar input context y)
    (hu : Unstopped y) {fault : Fault} (h : x = .error fault) (hk : fault.kind = .parseFailed) :
    ∃ other, y = .error other ∧ other.kind = .parseFailed := by
  subst h
  obtain hs | ⟨_, b, hb, hno⟩ | ⟨hne, _⟩ := hx
  · rw [Fault.isStop, hk] at hs
    simp at hs
  · match y with
    | .ok (tree, next) =>
      obtain ⟨b', t, hb', ht, hstop, _⟩ := hy
      obtain ⟨n, h1, h2⟩ := (hb.and hb').exists
      rw [h1] at h2
      cases h2
      exact absurd hstop (hno t ht)
    | .error other =>
      obtain hs | ⟨hk', _⟩ | ⟨_, hnone⟩ := hy
      · exact absurd hs (hu other rfl)
      · exact ⟨other, rfl, hk'⟩
      · obtain ⟨n, h1, h2⟩ := (hb.and hnone).exists
        rw [h1] at h2
        cases h2
  · exact absurd hk hne

/-- Calls that settle alike come to trees that agree. -/
theorem same {tree tree' : Tree} {next next' : NodeId} (hx : Settles m grammar input context (.ok (tree, next)))
    (hy : Settles m grammar input context (.ok (tree', next'))) :
    (Attempt.success tree.statement tree.derivation).recast m =
      (Attempt.success tree'.statement tree'.derivation).recast m := by
  obtain ⟨b, t, hb, _, _, h1⟩ := hx
  obtain ⟨b', t', hb', _, _, h2⟩ := hy
  obtain ⟨n, h3, h4⟩ := (hb.and hb').exists
  rw [h3] at h4
  cases h4
  rw [h1, h2]

end Settles

/-! ## Runs of the root -/

section

variable {m : Recasting} {grammar : Grammar} {input : String} {context : Context}

/-- A tree that a call settles on has the text. -/
theorem Settles.text {tree : Tree} {next : NodeId} (h : Settles m grammar input context (.ok (tree, next))) :
    tree.text = input := by
  obtain ⟨b, t, hb, ht, hstop, hsame⟩ := h
  obtain ⟨n, hn⟩ := hb.exists
  obtain ⟨t', ht', hstatement⟩ := Attempt.statement_some_of_same hsame rfl
  obtain rfl : t = t' := Option.some.inj (ht.symm.trans ht')
  -- what was read is the text from its start to its end
  have hcovers := (Reading.covers hn (Text.isBoundary_zero input) t ht).text
  rw [hstop, Text.slice?_self, Option.some.injEq] at hcovers
  rw [Tree.text, ← Statement.rawText_recast m, hstatement, Statement.rawText_recast, ← hcovers]

/-- What an attempt at the root comes to as a tree. -/
theorem settles_ofRun {x : Except Fault (Attempt × State)} (unmatched : Nat → Nat → Fault.Cause)
    (hk : ∀ size furthest, (unmatched size furthest).kind = .parseFailed) {setting : Setting} {s : State}
    (h : Decides True atTop (Agrees setting 0 m none s)
      (fun n => Reading.within grammar input n grammar.root 0 context) x) :
    Settles m grammar input context
      (x >>= fun r => Tree.ofRun input unmatched r.1 r.2 >>= fun tree => pure (tree, r.2.nextId)) := by
  match x with
  | .error fault =>
    obtain ⟨hne, hs | hnone⟩ := h
    · exact Or.inl hs.2
    · exact Or.inr (Or.inr ⟨hne, hnone⟩)
  | .ok (a, state) =>
    obtain ⟨b, hb, hab⟩ := h
    have hsame := hab.same
    rw [Reading.shownAttempt_none, Reading.shownAttempt_none] at hsame
    obtain ⟨statement, d⟩ := a
    cases statement with
    | none =>
      have hnone := Attempt.statement_none_of_same hsame rfl
      refine Or.inr (Or.inl ⟨hk _ _, b, hb, ?_⟩)
      intro t ht
      rw [hnone] at ht
      cases ht
    | some statement =>
      obtain ⟨t, ht, hstatement⟩ := Attempt.statement_some_of_same hsame rfl
      have hstop : statement.region.stop = t.region.stop := congrArg Region.stop (Statement.region_of_same hstatement)
      by_cases hsize : statement.region.stop = Text.size input
      · have hrun : Tree.ofRun input unmatched ⟨some statement, d⟩ state = .ok ⟨statement, d, state.statistics⟩ := by
          simp only [Tree.ofRun, hsize, if_true]
        simp only [Run.ok_bind, hrun]
        exact ⟨b, t, hb, ht, by rw [← hstop, hsize], hsame⟩
      · obtain ⟨fault, hfault, hkind⟩ : ∃ fault,
            Tree.ofRun input unmatched ⟨some statement, d⟩ state = .error fault ∧ fault.kind = .parseFailed := by
          simp only [Tree.ofRun, hsize, if_false]
          exact ⟨_, rfl, hk _ _⟩
        simp only [Run.ok_bind, hfault]
        refine Or.inr (Or.inl ⟨hkind, b, hb, ?_⟩)
        intro t' ht'
        rw [ht] at ht'
        cases ht'
        rw [← hstop]
        exact hsize

/-- A state before the root is attempted. -/
theorem State.ready_begin (setting : Setting) (nextId : NodeId) : State.Ready setting 0 { nextId } := by
  refine ⟨rfl, List.cons_ne_nil _ _, ?_⟩
  intro _ key entry h
  simp at h

theorem checkInput_settles (limits : Limits) {f : Except Fault (Tree × NodeId)} (hf : Settles m grammar input context f) :
    Settles m grammar input context (limits.checkInput input >>= fun _ => f) := by
  rw [Limits.checkInput]
  split
  · exact Or.inl (Or.inl rfl)
  · exact hf

/-- A parse comes to what the root rule reads. -/
theorem parse_settles (grammar : Grammar) (input : String) (options : Options) (nextId : NodeId) :
    Settles .bare grammar input options.context (grammar.parse input options nextId) :=
  checkInput_settles _ (settles_ofRun .unmatchedInput (fun _ _ => rfl)
    (fresh_decides (.make grammar input options {}) _ 0 grammar.root 0 options.context { nextId }
      (Text.isBoundary_zero input) (State.ready_begin _ nextId)))

/-- A call that settles up to identities settles under every recasting that forgets them. -/
theorem Settles.recast {x : Except Fault (Tree × NodeId)} (h : Settles .bare grammar input context x)
    (hm : ∀ id, m.identity id = Reading.noId) : Settles m grammar input context x := by
  match x with
  | .ok (tree, next) =>
    obtain ⟨b, t, hb, ht, hstop, hsame⟩ := h
    exact ⟨b, t, hb, ht, hstop, Attempt.recast_eq_of_bare hm hsame⟩
  | .error fault => exact h

/-! ## Repairs -/

/-- A repair of the root comes to what the root rule reads, if attempting it again does. -/
theorem rederive_settles {t : EditedTree} {options : Options} {nextId : NodeId}
    (h : Decides True atTop (Agrees (.make grammar t.text options t.modified) 0 m none { nextId })
      (fun n => Reading.within grammar t.text n grammar.root 0 options.context)
      (((atRoot (.make grammar t.text options t.modified)).again grammar.root t.statement t.derivation 0
        options.context).run { nextId })) :
    Settles m grammar t.text options.context (grammar.rederive t options nextId) := by
  have hsettles := settles_ofRun .unmatchedDocument (fun _ _ => rfl) h
  rw [Grammar.rederive]
  revert hsettles
  generalize ((atRoot (.make grammar t.text options t.modified)).again grammar.root t.statement t.derivation 0
        options.context).run { nextId } = x
  intro hsettles
  cases x with
  | error fault => exact hsettles
  | ok r =>
    obtain ⟨a, state⟩ := r
    simp only [Run.ok_bind] at hsettles ⊢
    cases hrun : Tree.ofRun t.text .unmatchedDocument a state with
    | error fault =>
      rw [hrun] at hsettles
      exact hsettles
    | ok tree =>
      rw [hrun] at hsettles
      have htext := Settles.text hsettles
      simp only [Run.ok_bind, htext, if_true]
      exact hsettles

/-- A tree that is, up to identities, what the root rule reads of the tree's text. -/
def Tree.IsReading (grammar : Grammar) (context : Context) (tree : Tree) : Prop :=
  ∃ n b, Reading.within grammar tree.text n grammar.root 0 context = some b ∧
    (Attempt.success tree.statement tree.derivation).recast .bare = b.recast .bare ∧
    tree.statement.region.stop = Text.size tree.text

theorem Settles.isReading {tree : Tree} {next : NodeId} (h : Settles .bare grammar input context (.ok (tree, next))) :
    tree.IsReading grammar context := by
  have htext := h.text
  obtain ⟨b, t, hb, ht, hstop, hsame⟩ := h
  obtain ⟨n, hn⟩ := hb.exists
  refine ⟨n, b, by rw [htext]; exact hn, hsame, ?_⟩
  obtain ⟨t', ht', hstatement⟩ := Attempt.statement_some_of_same hsame rfl
  obtain rfl : t = t' := Option.some.inj (ht.symm.trans ht')
  rw [Statement.region_of_same hstatement, hstop, htext]

namespace Tree.IsReading

variable {tree : Tree}

theorem same (h : tree.IsReading grammar context) : ∃ n b,
    Reading.within grammar tree.text n grammar.root 0 context = some b ∧
    (Reading.shownAttempt none (.success tree.statement tree.derivation)).recast .bare =
      (Reading.shownAttempt none b).recast .bare := by
  obtain ⟨n, b, hn, hsame, _⟩ := h
  exact ⟨n, b, hn, by rw [Reading.shownAttempt_none, Reading.shownAttempt_none, hsame]⟩

theorem formed (h : tree.IsReading grammar context) :
    Formed tree.statement tree.derivation ∧ tree.statement.region.offset = 0 := by
  obtain ⟨n, b, hn, hsame⟩ := h.same
  obtain ⟨h1, h2, _⟩ := Reading.formed_of_same hn hsame
  exact ⟨h1, h2⟩

/-- A tree whose rules have looked at something has looked at all of its text and at the end. -/
theorem spanned (h : tree.IsReading grammar context) (hinterest : tree.derivation.interest.length ≠ 0) :
    (EditedTree.ofTree tree).Spanned := by
  obtain ⟨hformed, hoffset⟩ := h.formed
  obtain ⟨_, _, _, _, hstop⟩ := h
  have h1 := hformed.sits.offset
  have h2 := hformed.sits.seen
  refine ⟨?_, ?_⟩
  · change tree.derivation.interest.offset = 0
    omega
  · change Text.size tree.text < tree.derivation.interest.stop
    omega

theorem settles (h : tree.IsReading grammar context) (next : NodeId) :
    Settles .bare grammar tree.text context (.ok (tree, next)) := by
  obtain ⟨n, b, hn, hsame, hstop⟩ := h
  obtain ⟨t, ht, hstatement⟩ := Attempt.statement_some_of_same hsame rfl
  refine ⟨b, t, ?_, ht, by rw [← Statement.region_of_same hstatement, hstop], hsame⟩
  exact (eventually_ge_atTop n).mono fun k hk => Reading.within_mono hk (Text.isBoundary_zero _) hn

end Tree.IsReading

/-- **Repairs settle.** The repair of a tree that was read in a context comes to what the root rule reads of the edited text in
that context, as long as the replaying of containers in any order does. -/
theorem repair_settles (hm : ∀ id, m.identity id = Reading.noId) {W : RuleId → Context → Prop} (hW : Passes grammar W)
    {options : Options} (hw : W grammar.root options.context) {tree : Tree}
    (ht : tree.IsReading grammar options.context) (hinterest : tree.derivation.interest.length ≠ 0)
    {edits : List Edit} {edited : String} (he : Edit.applyAll edits tree.text = .ok edited)
    (hreplay : ∀ setting : Setting, setting.grammar = grammar → setting.input = edited → ∀ rule edges live, W rule live →
      grammar.body? rule = some (.container .anyOrder edges) → ReplayDecides setting m edges live)
    (nextId : NodeId) :
    Settles m grammar edited options.context (grammar.repair tree edits options nextId) := by
  obtain ⟨hformed, hoffset⟩ := ht.formed
  obtain ⟨n, b, hn, hsame⟩ := ht.same
  have hstop : tree.statement.region.stop ≤ Text.size tree.text := by
    obtain ⟨_, _, _, _, hstop⟩ := ht
    exact Nat.le_of_eq hstop
  rw [Grammar.repair]
  split
  · -- nothing is edited
    rename_i hempty
    rw [List.isEmpty_iff] at hempty
    subst hempty
    cases he
    exact (ht.settles nextId).recast hm
  · split
    · exact Or.inl (Or.inl rfl)
    · have hbegin : EditedTree.Follows tree.statement tree.derivation tree.text (fun r => r) (.ofTree tree) :=
        .begin hformed hstop
      obtain ⟨t, v, hedits, hfollows, rfl⟩ := hbegin.edits hformed.paired he
      have happly : tree.applyEdits edits = .ok t := hedits
      rw [happly]
      refine checkInput_settles _ ?_
      split
      · -- the root was touched
        refine rederive_settles ?_
        have hfits : Fits (.make grammar t.text options t.modified) none grammar.root options.context t.statement
            t.derivation := by
          rw [hfollows.statement, hfollows.derivation]
          exact readings_fit _ hn (Text.isBoundary_zero _) hsame hfollows.carried
        exact again_decides hm hW (hreplay (.make grammar t.text options t.modified) rfl rfl) _ 0 hw hfits 0 { nextId }
          (Text.isBoundary_zero _) (State.ready_begin _ nextId)
      · -- the root was not touched, so nothing has changed
        rename_i hmark
        rw [Bool.not_eq_true] at hmark
        have hid : t.statement.id = tree.statement.id := by rw [hfollows.statement, Statement.id_placed]
        rw [hid] at hmark
        obtain rfl := (ht.spanned hinterest).eq_of_edits hedits hmark
        have hkeep : Grammar.keepTree (.ofTree tree) = .ok ⟨tree.statement, tree.derivation, {}⟩ := by
          obtain ⟨_, _, _, _, hstop⟩ := ht
          simp only [Grammar.keepTree, EditedTree.ofTree, hstop, if_true]
        rw [hkeep]
        obtain ⟨b', t', hb', ht', hstop', hsame'⟩ := (ht.settles nextId).recast hm
        exact ⟨b', t', hb', ht', hstop', hsame'⟩

end

/-! ## Chains of repairs -/

/-- Whether a grammar has containers in any order. -/
def Grammar.HasAnyOrder (grammar : Grammar) : Prop :=
  ∃ rule edges, grammar.body? rule = some (.container .anyOrder edges)

theorem passes_true (grammar : Grammar) : Passes grammar fun _ _ => True :=
  ⟨fun _ _ _ => trivial, fun _ _ _ => trivial⟩

/-- Without containers in any order, the repair of a reading comes to what the root rule reads. -/
theorem repair_settles_exactly {grammar : Grammar} (hany : ¬grammar.HasAnyOrder) {options : Options} {tree : Tree}
    (ht : tree.IsReading grammar options.context) (hinterest : tree.derivation.interest.length ≠ 0) {edits : List Edit}
    {edited : String} (he : Edit.applyAll edits tree.text = .ok edited) (nextId : NodeId) :
    Settles .bare grammar edited options.context (grammar.repair tree edits options nextId) :=
  repair_settles (fun _ => rfl) (passes_true grammar) trivial ht hinterest he
    (fun _ _ _ rule edges _ _ hr => absurd ⟨rule, edges, hr⟩ hany) nextId

/-- A tree that was reached is a reading, or its rules have looked at nothing. -/
theorem Tree.Reached.isReading {grammar : Grammar} (hany : ¬grammar.HasAnyOrder) {context : Context} {tree : Tree}
    (h : tree.Reached grammar (· = context)) :
    tree.IsReading grammar context ∧ tree.derivation.interest.length ≠ 0 ∨ (EditedTree.ofTree tree).Blank := by
  have hreading : ∀ {tree : Tree}, tree.IsReading grammar context →
      tree.IsReading grammar context ∧ tree.derivation.interest.length ≠ 0 ∨ (EditedTree.ofTree tree).Blank := by
    intro tree ht
    by_cases hn : tree.derivation.interest.length = 0
    · exact Or.inr (.of_formed ht.formed.1 hn)
    · exact Or.inl ⟨ht, hn⟩
  induction h with
  | @parse input options nextId next tree same parsed =>
    have hsettles := parse_settles grammar input options nextId
    rw [parsed, same] at hsettles
    exact hreading hsettles.isReading
  | @repair before tree edits options nextId next reached same repaired ih =>
    obtain ⟨ht, hinterest⟩ | hblank := ih
    · subst same
      obtain ⟨edited, he⟩ := applyAll_of_repair repaired
      have hsettles := repair_settles_exactly hany ht hinterest he nextId
      rw [repaired] at hsettles
      exact hreading hsettles.isReading
    · exact Or.inr (blank_of_repair hblank repaired)

/-- **Repairs agree with parses.** In a grammar without containers in any order, take a tree that comes from a parse and any
number of repairs in one context, and whose rules have looked at something; and edits that fit its text one after the other. As
long as no limit and no caller stops them, its repair succeeds exactly where a parse of the edited text does, fails to match
exactly where that does, and comes to the same tree up to identities. -/
theorem repair_agrees_with_parse {grammar : Grammar} (hany : ¬grammar.HasAnyOrder) {context : Context} {tree : Tree}
    (ht : tree.Reached grammar (· = context)) (hinterest : tree.derivation.interest.length ≠ 0) {edits : List Edit}
    {edited : String} (he : Edit.applyAll edits tree.text = .ok edited) {options options' : Options}
    (ho : options.context = context) (ho' : options'.context = context) (nextId nextId' : NodeId)
    (hr : ∀ fault, grammar.repair tree edits options nextId = .error fault →
      fault.kind ≠ .limitExceeded ∧ fault.kind ≠ .cancelled)
    (hp : ∀ fault, grammar.parse edited options' nextId' = .error fault →
      fault.kind ≠ .limitExceeded ∧ fault.kind ≠ .cancelled) :
    ((∃ r, grammar.repair tree edits options nextId = .ok r) ↔ ∃ r, grammar.parse edited options' nextId' = .ok r) ∧
      ((∃ fault, grammar.repair tree edits options nextId = .error fault ∧ fault.kind = .parseFailed) ↔
        ∃ fault, grammar.parse edited options' nextId' = .error fault ∧ fault.kind = .parseFailed) ∧
      ∀ repaired parsed next next', grammar.repair tree edits options nextId = .ok (repaired, next) →
        grammar.parse edited options' nextId' = .ok (parsed, next') →
        repaired.statement.recast .bare = parsed.statement.recast .bare ∧ repaired.derivation = parsed.derivation := by
  obtain ⟨hreading, _⟩ | hblank := ht.isReading hany
  · have hrepair := repair_settles_exactly hany (by rw [ho]; exact hreading) hinterest he nextId
    have hparse := parse_settles grammar edited options' nextId'
    rw [ho] at hrepair
    rw [ho'] at hparse
    have hr' : Settles.Unstopped (grammar.repair tree edits options nextId) :=
      fun fault hf hs => hs.elim (hr fault hf).1 (hr fault hf).2
    have hp' : Settles.Unstopped (grammar.parse edited options' nextId') :=
      fun fault hf hs => hs.elim (hp fault hf).1 (hp fault hf).2
    refine ⟨⟨?_, ?_⟩, ⟨?_, ?_⟩, ?_⟩
    · rintro ⟨r, h⟩
      exact hrepair.isOk_of hparse hp' h
    · rintro ⟨r, h⟩
      exact hparse.isOk_of hrepair hr' h
    · rintro ⟨fault, h, hk⟩
      exact hrepair.parseFailed_of hparse hp' h hk
    · rintro ⟨fault, h, hk⟩
      exact hparse.parseFailed_of hrepair hr' h hk
    · intro repaired parsed next next' h h'
      rw [h] at hrepair
      rw [h'] at hparse
      have hsame := hrepair.same hparse
      simp only [Attempt.success_recast, Derivation.recast_bare] at hsame
      exact ⟨Option.some.inj (congrArg Attempt.statement hsame), congrArg Attempt.derivation hsame⟩
  · exact absurd (hblank.interests _ (EditedTree.mem_walk_self tree.statement tree.derivation)) hinterest

theorem not_hasAnyOrder_row (p : Pattern) : ¬(Grammar.row p).HasAnyOrder := by
  rintro ⟨⟨index⟩, edges, h⟩
  match index with
  | 0 => cases h
  | 1 => cases h
  | _ + 2 => cases h

end

open Pattern.Regex

/-- Where the last of three letters is replaced, a repair keeps the first one, reads the others anew and comes to what a parse
reads. -/
theorem repair_agrees_with_parse_abd : ∃ tree repaired parsed next next',
    tree.Reached (.row .dot) (· = .empty) ∧ tree.text = "abc" ∧ tree.derivation.interest.length ≠ 0 ∧
      (Grammar.row .dot).repair tree [⟨2, 1, "d"⟩] .plain ⟨4⟩ = .ok (repaired, next) ∧
      (Grammar.row .dot).parse "abd" .plain ⟨0⟩ = .ok (parsed, next') ∧
      repaired.statement = .group ⟨6⟩ ⟨0, 3⟩ [.leaf ⟨0⟩ ⟨0, 1⟩ "a", .leaf ⟨4⟩ ⟨1, 1⟩ "b", .leaf ⟨5⟩ ⟨2, 1⟩ "d"] ∧
      repaired.statement.recast .bare = parsed.statement.recast .bare ∧ repaired.derivation = parsed.derivation := by
  obtain ⟨statistics, hbefore⟩ := parse_abc
  obtain ⟨_, hrepair⟩ := repair_abd statistics
  obtain ⟨_, hparse⟩ := parse_row Pattern.dot_readsRow_abd 0
  have hreached : (Tree.abc statistics).Reached (.row .dot) (· = .empty) := .parse rfl hbefore
  have hinterest : (Tree.abc statistics).derivation.interest.length ≠ 0 := Nat.succ_ne_zero 3
  have hr : ∀ fault, (Grammar.row .dot).repair (.abc statistics) [⟨2, 1, "d"⟩] .plain ⟨4⟩ = .error fault →
      fault.kind ≠ .limitExceeded ∧ fault.kind ≠ .cancelled := by
    rw [hrepair]
    exact fun _ h => nomatch h
  have hp : ∀ fault, (Grammar.row .dot).parse "abd" .plain ⟨0⟩ = .error fault →
      fault.kind ≠ .limitExceeded ∧ fault.kind ≠ .cancelled := by
    rw [hparse]
    exact fun _ h => nomatch h
  obtain ⟨_, _, hsame⟩ := repair_agrees_with_parse (not_hasAnyOrder_row .dot) hreached hinterest
    (by rw [Tree.text_abc]; exact applyAll_abd) rfl rfl ⟨4⟩ ⟨0⟩ hr hp
  exact ⟨_, _, _, _, _, hreached, Tree.text_abc _, hinterest, hrepair, hparse, rfl, hsame _ _ _ _ hrepair hparse⟩

end Graft
