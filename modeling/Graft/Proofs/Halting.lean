import Graft.Proofs.Backtracking
import Graft.Proofs.Inviolate
import Graft.Proofs.Loops
import Graft.Proofs.Nesting
import Graft.Proofs.Takes

/-!
# Calls end

Parsing and repairing always come to an end. Rules are nested no deeper than the limit of depth. Each attempt that reads anything
takes the cursor further inside the text, from scratch, out of the memo, and on the nodes of an edited tree. So every loop of the
engine ends within the budget that it is given.
-/

namespace Graft

open Engine

section

variable [Pattern.Compiler]

/-- A step that may fail, but not because a loop does not end. -/
def Except.Ends {α : Type} (x : Except Fault α) : Prop :=
  ∀ fault, x = .error fault → ∀ owner, fault.cause ≠ .endlessLoop owner

/-- A loop without an end would violate an invariant. -/
theorem Except.Intact.ends {α : Type} {x : Except Fault α} (h : Except.Intact x) : Except.Ends x := by
  intro fault hx owner hcause
  refine h fault hx ?_
  rw [Fault.kind, hcause]
  rfl

/-- The setting of a call that makes attempts, and the earlier nodes that it may make them on: a parse has none, and a repair
whose root was touched has those of the edited tree. -/
inductive Grammar.Calls (grammar : Grammar) : Setting → List Earlier → Prop where
  | parse (input : String) (options : Options) : Calls grammar (.make grammar input options {}) []
  | repair {tree : Tree} {edits : List Edit} {t : EditedTree} (reached : tree.Reached grammar fun _ => True)
      (edited : tree.applyEdits edits = .ok t) (touched : t.modified.contains t.statement.id = true) (options : Options) :
      Calls grammar (.make grammar t.text options t.modified) t.nodes

/-! ## What attempts of a call come to -/

/-- What an attempt comes to, it takes some patterns of the text for. -/
def Setting.Taken (setting : Setting) : Claim := fun rule offset context a =>
  ∃ n, Takes setting.grammar setting.input rule offset context a n

theorem Setting.taken_advances (setting : Setting) : setting.Taken.Advances setting.input := by
  rintro rule offset context a ⟨n, htakes⟩ ho s hs
  have hoffset := htakes.laid.starts s hs
  refine ⟨hoffset, (htakes.bounded ho).2 s hs, ?_⟩
  intro he
  rw [Region.isEmpty, beq_eq_false_iff_ne] at he
  rw [Region.stop]
  omega

namespace Grammar.Calls

variable {grammar : Grammar} {setting : Setting} {nodes : List Earlier}

/-- The nodes of an edited tree that no edit touched took patterns of the edited text for what they are. -/
theorem revisited (h : grammar.Calls setting nodes) {node : Earlier} (hm : node ∈ nodes) (rule : RuleId) (context : Context) :
    Revisited setting.grammar (Keeping setting.Taken setting) none rule context node.1 node.2 := by
  cases h with
  | parse => cases hm
  | @repair tree edits t reached edited touched options =>
    obtain ⟨document, htracks⟩ := reached.exists_tracks
    obtain ⟨n, htook⟩ := htracks.took
    rcases htracks.stands with ⟨hw, _, rfl⟩ | ⟨hblank, _⟩
    · obtain ⟨v, hfollows⟩ := hw.follows edited
      exact hfollows.kept_node hw.formed rfl
        (fun _ hm _ hcarried rule context => Tree.Tracks.took_placed htook hw.formed hm hcarried rule context) hm none rule
        context
    · rw [hblank.unmarked edited] at touched
      cases touched

theorem yields (h : grammar.Calls setting nodes) {offset : Nat} {x : Run Attempt} (hx : IsAttempt setting nodes offset x) :
    ∃ rule context, Yields setting.Taken (setting.Taken rule offset context) x := by
  cases hx with
  | fresh levels rule offset context => exact ⟨rule, context, fresh_yields Takes.closed.passes levels rule offset context⟩
  | again levels rule hm offset context =>
    exact ⟨rule, context, (again_yields Takes.closed.passes levels (h.revisited hm rule context)).plain offset⟩

/-- A memo that was filled by attempts of the call remembers what they come to. -/
theorem remembers (h : grammar.Calls setting nodes) {s : State} (hs : Fills setting nodes s.memo) :
    s.Remembers setting.Taken := by
  generalize hm : s.memo = memo at hs
  induction hs generalizing s with
  | empty =>
    intro key entry he
    simp [hm] at he
  | attempt _ hx hr ih =>
    obtain ⟨_, _, hyields⟩ := h.yields hx
    exact (hyields _ _ _ (ih rfl) hr).2.of_eq hm

theorem advances (h : grammar.Calls setting nodes) {offset : Nat} (ho : offset ≤ Text.size setting.input) {x : Run Attempt}
    (hx : IsAttempt setting nodes offset x) {s t : State} {a : Attempt} (hs : Fills setting nodes s.memo)
    (hr : x s = .ok (a, t)) : a.Advances setting.input offset := by
  obtain ⟨rule, context, hyields⟩ := h.yields hx
  exact setting.taken_advances rule offset context a (hyields s a t (h.remembers hs) hr).1 ho

/-- What the engine does within its budgets, the loops do without them. -/
theorem readFresh_loop (h : grammar.Calls setting nodes) (levels : Nat) (owner : RuleId) {p : Progress} {s : State}
    (hp : p.gathering.cursor ≤ Text.size setting.input) (hs : Fills setting nodes s.memo) :
    ∃ made, FreshLoop (attempts setting levels) p s made
        (readFresh (attempts setting levels) owner (setting.remaining p.gathering.cursor + 1) p s) ∧
      made.length ≤ setting.remaining p.gathering.cursor + 1 :=
  Engine.readFresh_loop (fresh_yields Takes.closed.passes levels) setting.taken_advances owner (h.remembers hs) hp
    (Nat.lt_succ_self _)

theorem scanAll_loop (h : grammar.Calls setting nodes) (levels : Nat) (owner : RuleId) (lanes : List Lane) {g : Gathering}
    {s : State} (hg : g.cursor ≤ Text.size setting.input) (hs : Fills setting nodes s.memo) :
    ∃ restarts, ScanLoop (attempts setting levels) lanes g s restarts
        (scanAll (attempts setting levels) owner (setting.remaining g.cursor + 1) lanes g s) ∧
      restarts ≤ setting.remaining g.cursor :=
  Engine.scanAll_loop (fresh_yields Takes.closed.passes levels) setting.taken_advances owner (h.remembers hs) hg
    (Nat.lt_succ_self _)

/-- What the attempts of an edge do without a budget, the engine does. -/
theorem readFresh_eq (h : grammar.Calls setting nodes) {levels : Nat} {owner : RuleId} {p : Progress} {s : State}
    (hp : p.gathering.cursor ≤ Text.size setting.input) (hs : Fills setting nodes s.memo)
    {tries : List (Except Fault Attempt)} {r : Except Fault (Progress × State)}
    (hloop : FreshLoop (attempts setting levels) p s tries r) :
    readFresh (attempts setting levels) owner (setting.remaining p.gathering.cursor + 1) p s = r := by
  obtain ⟨_, hread, _⟩ := h.readFresh_loop levels owner hp hs
  exact (hloop.unique hread).2

end Grammar.Calls

/-- **Every call ends.** A parse, and a repair of any tree that was reached, returns: no loop outlasts its budget. In the setting
of a call, with anything in the memo that its attempts have put there:
1. Rules are never nested deeper than the limit of depth.
2. What an attempt at an offset inside the text has read starts there and ends inside the text, behind the offset unless it is
   empty.
3. The attempts of an edge from scratch, which nothing bounds, are one more than the bytes behind the cursor at most, and the
   engine does what they do.
4. The scans of a container in any order, which nothing bounds either, start over as often as there are bytes behind the cursor
   at most, and the engine does what they do. -/
theorem calls_end (grammar : Grammar) :
    (∀ input options nextId, Except.Ends (grammar.parse input options nextId)) ∧
    (∀ tree, tree.Reached grammar (fun _ => True) → ∀ edits options nextId,
      Except.Ends (grammar.repair tree edits options nextId)) ∧
    ∀ setting nodes, grammar.Calls setting nodes →
      setting.Nests ∧
      (∀ offset x s a t, offset ≤ Text.size setting.input → IsAttempt setting nodes offset x →
        Fills setting nodes s.memo → x s = .ok (a, t) → a.Advances setting.input offset) ∧
      (∀ levels owner p s, p.gathering.cursor ≤ Text.size setting.input → Fills setting nodes s.memo →
        ∃ made, made.length ≤ setting.remaining p.gathering.cursor + 1 ∧
          ∀ made' r, FreshLoop (attempts setting levels) p s made' r ↔
            made' = made ∧ r = readFresh (attempts setting levels) owner (setting.remaining p.gathering.cursor + 1) p s) ∧
      ∀ levels owner lanes g s, g.cursor ≤ Text.size setting.input → Fills setting nodes s.memo →
        ∃ restarts, restarts ≤ setting.remaining g.cursor ∧
          ∀ restarts' r, ScanLoop (attempts setting levels) lanes g s restarts' r ↔
            restarts' = restarts ∧ r = scanAll (attempts setting levels) owner (setting.remaining g.cursor + 1) lanes g s := by
  refine ⟨fun input options nextId => (grammar.parse_intact input options nextId).ends,
    fun tree hreached edits options nextId => (hreached.repair_intact edits options nextId).ends, ?_⟩
  intro setting nodes h
  refine ⟨setting.nests, fun offset x s a t ho hx hs hr => h.advances ho hx hs hr, ?_, ?_⟩
  · intro levels owner p s hp hs
    obtain ⟨made, hloop, hlength⟩ := h.readFresh_loop levels owner hp hs
    refine ⟨made, hlength, fun made' r => ⟨hloop.unique, ?_⟩⟩
    rintro ⟨rfl, rfl⟩
    exact hloop
  · intro levels owner lanes g s hg hs
    obtain ⟨restarts, hloop, hbound⟩ := h.scanAll_loop levels owner lanes hg hs
    refine ⟨restarts, hbound, fun restarts' r => ⟨hloop.unique, ?_⟩⟩
    rintro ⟨rfl, rfl⟩
    exact hloop

end

open Pattern.Regex

/-- A letter is parsed, and repaired, by calls that end. At the start of the letter its rule takes the cursor to the end, the
attempts of an edge are two at most, and the scans start over once at most. -/
theorem calls_end_letterB :
    (∃ tree : Tree, tree.Reached (.anyAndOne .letterA .letterB) (fun _ => True) ∧
      Except.Ends ((Grammar.anyAndOne .letterA .letterB).repair tree [⟨0, 1, "b"⟩] .plain ⟨2⟩)) ∧
    (Grammar.anyAndOne .letterA .letterB).Calls (.make (.anyAndOne .letterA .letterB) "b" .plain {}) [] ∧
    ∃ a t, (attempts (.make (.anyAndOne .letterA .letterB) "b" .plain {}) 512).fresh ⟨1⟩ 0 .empty
        { depth := 1, nextId := ⟨0⟩ } = .ok (a, t) ∧ a.Advances "b" 0 ∧
      (∃ made r, made.length ≤ 2 ∧ FreshLoop (attempts (.make (.anyAndOne .letterA .letterB) "b" .plain {}) 512)
        { gathering := .begin 0, lane := oneLane 0 } t made r) ∧
      ∃ restarts r, restarts ≤ 1 ∧ ScanLoop (attempts (.make (.anyAndOne .letterA .letterB) "b" .plain {}) 512)
        [anyLane 0, oneLane 0] (.begin 0) t restarts r := by
  have hone : Text.size "b" = 1 := by decide +kernel
  have hne : Text.size "b" ≠ 0 := by decide +kernel
  have hsize : Text.size "b" ≤ Options.plain.limits.maxInputSize := by decide +kernel
  obtain ⟨_, hrepair, hcalls⟩ := calls_end (.anyAndOne .letterA .letterB)
  refine ⟨?_, .parse "b" .plain, ?_⟩
  · obtain ⟨statistics, hparse⟩ := parse_anyAndOne Pattern.matchFront_letterA_b Pattern.letterA_reads.matchFront_nil
      Pattern.matchFront_letterB hne hsize 0
    have hreached : Tree.Reached (.anyAndOne .letterA .letterB) (fun _ => True) _ := .parse trivial hparse
    exact ⟨_, hreached, hrepair _ hreached _ _ _⟩
  · obtain ⟨_, hadvances, hfresh, hscan⟩ := hcalls _ _ (.parse "b" .plain)
    have hhit : Run.Gives 1 0 1 ((attempts (.make (.anyAndOne .letterA .letterB) "b" .plain {}) 512).fresh ⟨1⟩ 0 .empty) _ :=
      leaf_whole rfl Pattern.matchFront_letterB
    obtain ⟨t, ht, _⟩ := hhit { depth := 1, nextId := ⟨0⟩ } ⟨rfl, rfl, trivial⟩
    have hattempt : IsAttempt (.make (.anyAndOne .letterA .letterB) "b" .plain {}) [] 0
        ((attempts (.make (.anyAndOne .letterA .letterB) "b" .plain {}) 512).fresh ⟨1⟩ 0 .empty) := .fresh 512 ⟨1⟩ 0 .empty
    have hfilled := Fills.attempt .empty hattempt ht
    obtain ⟨made, hmade, hloop⟩ := hfresh 512 ⟨2⟩ { gathering := .begin 0, lane := oneLane 0 } t (Nat.zero_le _) hfilled
    obtain ⟨restarts, hrestarts, hscans⟩ := hscan 512 ⟨2⟩ [anyLane 0, oneLane 0] (.begin 0) t (Nat.zero_le _) hfilled
    have hremaining : (Setting.make (.anyAndOne .letterA .letterB) "b" .plain {}).remaining 0 = 1 := by
      rw [Setting.remaining]
      exact hone
    rw [show (Gathering.begin 0).cursor = 0 from rfl, hremaining] at hmade hrestarts
    exact ⟨_, t, ht, hadvances 0 _ _ _ _ (Nat.zero_le _) hattempt .empty ht, ⟨made, _, hmade, (hloop _ _).2 ⟨rfl, rfl⟩⟩,
      restarts, _, hrestarts, (hscans _ _).2 ⟨rfl, rfl⟩⟩

end Graft
