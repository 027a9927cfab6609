import Graft.Proofs.Edits
import Graft.Proofs.Following
import Graft.Pattern.Regex

/-!
# Grammars of letters

Small grammars over single characters whose calls are followed from end to end: a root that keeps one match, and a root whose
children are matches in any order. What is claimed of all calls can be seen on them.
-/

namespace Graft

open Engine

/-! ## Patterns of one character -/

namespace Pattern

open Regex

/-- A pattern of one character of a set. -/
def ReadsOne (p : Pattern) (set : CharacterSet) : Prop :=
  p.automaton = (⟨#[.accept, .read set 0], 1⟩ : Program)

variable {p : Pattern} {set : CharacterSet}

open Program in
/-- At the end of a text there is no character. -/
theorem ReadsOne.matchFront_nil (h : p.ReadsOne set) : p.matchFront [] = ⟨none, 1⟩ := by
  rw [ReadsOne] at h
  simp [Pattern.matchFront, run, Compiler.initial, Compiler.accepts, h, initial, reach, explore, budget, Found.addPlace, accepts,
    settle, waitsFor, isAccepting]

open Program in
/-- A character of one byte is read where it belongs to the set and another one, or the end, follows. -/
theorem ReadsOne.matchFront_cons (h : p.ReadsOne set) {byte : UInt8} {rest : List UInt8} (hb : byte.toNat < 0x80)
    (hcut : isCut (byte :: rest) 1 = true) :
    p.matchFront (byte :: rest) = if set.meets byte.toNat byte.toNat then ⟨some 1, 2⟩ else ⟨none, 1⟩ := by
  rw [ReadsOne] at h
  cases hm : set.meets byte.toNat byte.toNat with
  | true =>
    cases rest with
    | nil =>
      simp [Pattern.matchFront, run, Compiler.initial, Compiler.step, Compiler.accepted, Compiler.accepts, Compiler.isDead, h,
        initial, reach, explore, budget, Found.addPlace, accepts, settle, waitsFor, isAccepting, step, feed, readByte,
        CharacterStart.extend?, CharacterStart.span, hb, hm, Configuration.isDead, hcut]
    | cons next rest =>
      simp [Pattern.matchFront, run, Compiler.initial, Compiler.step, Compiler.accepted, Compiler.accepts, Compiler.isDead, h,
        initial, reach, explore, budget, Found.addPlace, accepts, settle, waitsFor, isAccepting, step, feed, readByte,
        CharacterStart.extend?, CharacterStart.span, hb, hm, Configuration.isDead, hcut, isFinal]
  | false =>
    simp [Pattern.matchFront, run, Compiler.initial, Compiler.step, Compiler.accepted, Compiler.isDead, h, initial, reach, explore,
      budget, Found.addPlace, settle, waitsFor, isAccepting, step, feed, readByte, CharacterStart.extend?, CharacterStart.span,
      hb, hm, Configuration.isDead]

/-- The letter a. -/
def letterA : Pattern :=
  ⟨0, "a", (⟨#[.accept, .read (.single 'a') 0], 1⟩ : Program), rfl⟩

/-- The letter b. -/
def letterB : Pattern :=
  ⟨1, "b", (⟨#[.accept, .read (.single 'b') 0], 1⟩ : Program), rfl⟩

/-- Any character that does not end a line. -/
def dot : Pattern :=
  ⟨2, ".", (⟨#[.accept, .read (CharacterSet.single '\n').complement 0], 1⟩ : Program), rfl⟩

theorem letterA_reads : letterA.ReadsOne (.single 'a') := rfl

theorem letterB_reads : letterB.ReadsOne (.single 'b') := rfl

theorem dot_reads : dot.ReadsOne (CharacterSet.single '\n').complement := rfl

/-- The letter a is one match, for which its end is looked at. -/
theorem matchFront_letterA : letterA.matchFront (Text.bytes "a") = ⟨some (Text.size "a"), 2⟩ := by
  have hbytes : Text.bytes "a" = [97] := by decide +kernel
  rw [hbytes, letterA_reads.matchFront_cons (by decide) (by decide)]
  decide

/-- The letter b is one match of its pattern. -/
theorem matchFront_letterB : letterB.matchFront (Text.bytes "b") = ⟨some (Text.size "b"), Text.size "b" + 1⟩ := by
  have hbytes : Text.bytes "b" = [98] := by decide +kernel
  have hone : Text.size "b" = 1 := by decide +kernel
  rw [hone, hbytes, letterB_reads.matchFront_cons (by decide) (by decide)]
  decide

/-- The letter b is no match of the other pattern. -/
theorem matchFront_letterA_b : letterA.matchFront (Text.bytes "b") = ⟨none, 1⟩ := by
  have hbytes : Text.bytes "b" = [98] := by decide +kernel
  rw [hbytes, letterA_reads.matchFront_cons (by decide) (by decide)]
  decide

/-- The letter a, or nothing. -/
def maybeA : Pattern :=
  ⟨3, "a?", (⟨#[.accept, .read (.single 'a') 0, .branch 1 0], 2⟩ : Program), rfl⟩

open Program in
/-- At the end of a text nothing is matched. -/
theorem matchFront_maybeA_nil : maybeA.matchFront [] = ⟨some 0, 1⟩ := by
  simp [Pattern.matchFront, maybeA, run, Compiler.initial, Compiler.accepts, initial, reach, explore, budget, Found.addPlace,
    accepts, settle, waitsFor, isAccepting, isCut]

open Program in
/-- A letter a is matched where another character or the end follows. -/
theorem matchFront_maybeA {rest : List UInt8} (hcut : isCut (97 :: rest) 1 = true) :
    maybeA.matchFront (97 :: rest) = ⟨some 1, 2⟩ := by
  have hmeets : CharacterSet.meets (.single 'a') 97 97 = true := by decide
  cases rest <;>
    simp [Pattern.matchFront, maybeA, run, Compiler.initial, Compiler.step, Compiler.accepted, Compiler.accepts, Compiler.isDead,
      initial, reach, explore, budget, Found.addPlace, accepts, settle, waitsFor, isAccepting, step, feed, readByte,
      CharacterStart.extend?, CharacterStart.span, Configuration.isDead, hmeets, hcut, isFinal]

end Pattern

section

variable [Pattern.Compiler]

/-! ## One match -/

/-- The options of a call that remembers nothing and that nothing stops but the default limits. -/
def Options.plain : Options := { memoize := false }

/-- A grammar whose root keeps what a pattern matches. -/
def Grammar.ofPattern (p : Pattern) : Grammar where
  rules := #[⟨none, [], .empty, .consume .keep (.pattern p)⟩]
  root := ⟨0⟩

/-- The tree of a document that is one match. -/
def Tree.ofMatch (first : Nat) (input : String) (examined : Nat) (statistics : Statistics) : Tree :=
  ⟨.leaf ⟨first⟩ ⟨0, Text.size input⟩ input, .leaf ⟨0⟩ ⟨0, examined⟩, statistics⟩

omit [Pattern.Compiler] in
@[simp] theorem Tree.text_ofMatch (first : Nat) (input : String) (examined : Nat) (statistics : Statistics) :
    (Tree.ofMatch first input examined statistics).text = input :=
  Statement.rawText_leaf ..

section

variable {p : Pattern} {input : String} {examined : Nat}

/-- A document that is one match is parsed as that match. -/
theorem parse_ofPattern (hm : p.matchFront (Text.bytes input) = ⟨some (Text.size input), examined⟩)
    (hsize : Text.size input ≤ Options.plain.limits.maxInputSize) (first : Nat) :
    ∃ statistics, (Grammar.ofPattern p).parse input .plain ⟨first⟩ =
      .ok (.ofMatch first input examined statistics, ⟨first + 1⟩) := by
  refine parse_of_gives hsize (attempt_gives rfl rfl (Nat.succ_pos 511) ?_) (Nat.zero_add _)
  exact .lift (a := ⟨none, [], .empty, .consume .keep (.pattern p)⟩) rfl (consume_whole hm)

/-- A document that was one match and is one match after edits is repaired, with or without a memo. -/
theorem repair_ofPattern_within (options : Options) (hcancelled : options.isCancelled = false)
    (hdepth : 0 < options.limits.maxRuleDepth) (hm : p.matchFront (Text.bytes input) = ⟨some (Text.size input), examined⟩)
    {edits : List Edit} {edited : String} (he : Edit.applyAll edits input = .ok edited) {examined' : Nat}
    (hm' : p.matchFront (Text.bytes edited) = ⟨some (Text.size edited), examined'⟩)
    (hcount : edits.length ≤ options.limits.maxEdits)
    (hsize : Text.size edited ≤ options.limits.maxInputSize) (first last : Nat) (statistics : Statistics) :
    ∃ r, (Grammar.ofPattern p).repair (.ofMatch first input examined statistics) edits options ⟨last⟩ = .ok r := by
  by_cases hne : edits = []
  · subst hne
    exact ⟨_, rfl⟩
  have hlooked : Text.size input < examined := by
    have h := p.length_lt_examined (Text.bytes input) (n := Text.size input) (by rw [hm])
    rw [hm] at h
    exact h
  have hformed : Formed (Tree.ofMatch first input examined statistics).statement
      (Tree.ofMatch first input examined statistics).derivation :=
    .leaf ⟨rfl, by simp only [Region.stop]; omega, Or.inr (by simp only [Region.stop]; omega)⟩ (by simp only; omega)
  have htext := Tree.text_ofMatch first input examined statistics
  rw [← htext] at he
  have hbegin := EditedTree.Follows.begin (u := (Tree.ofMatch first input examined statistics).text) hformed
    (by rw [htext]; exact Nat.le_of_eq (Nat.zero_add _))
  obtain ⟨t, v, ht, hfollows, rfl⟩ := hbegin.edits hformed.paired he
  have happly : (Tree.ofMatch first input examined statistics).applyEdits edits = .ok t := ht
  have hid : t.statement.id = ⟨first⟩ := by rw [hfollows.statement, Statement.id_placed]; rfl
  cases hmark : t.modified.contains t.statement.id with
  | true =>
    rw [repair_eq_rederive hne hcount happly hsize hmark]
    have hrule : t.derivation.rule = ⟨0⟩ := by rw [hfollows.derivation]; rfl
    have hagain : Run.Gives 0 last (last + 1)
        ((atRoot (.make (.ofPattern p) t.text options t.modified)).again ⟨0⟩ t.statement t.derivation 0 options.context)
        (.success (.leaf ⟨last⟩ ⟨0, Text.size t.text⟩ t.text) (.leaf ⟨0⟩ ⟨0, examined'⟩)) :=
      reattempt_gives hrule hmark hcancelled hdepth
        (.lift (a := ⟨none, [], .empty, .consume .keep (.pattern p)⟩) rfl (consume_whole hm'))
    obtain ⟨_, h⟩ := rederive_of_gives hagain (Nat.zero_add _) (Statement.rawText_leaf ..)
    exact ⟨_, h⟩
  | false =>
    -- the root looked at the whole text and its end, so nothing was edited
    have hspanned : (EditedTree.ofTree (Tree.ofMatch first input examined statistics)).Spanned := by
      refine ⟨rfl, ?_⟩
      change Text.size (Tree.ofMatch first input examined statistics).text < 0 + examined
      rw [htext, Nat.zero_add]
      exact hlooked
    rw [hid] at hmark
    obtain rfl := hspanned.eq_of_edits ht hmark
    have hstop := (Nat.zero_add (Text.size input)).trans (congrArg Text.size htext.symm)
    exact ⟨_, repair_of_untouched hne hcount happly hsize (by simp [EditedTree.ofTree]) hstop _⟩

/-- A document that was one match and is one match after edits is repaired by a call that remembers nothing. -/
theorem repair_ofPattern (hm : p.matchFront (Text.bytes input) = ⟨some (Text.size input), examined⟩)
    {edits : List Edit} {edited : String} (he : Edit.applyAll edits input = .ok edited) {examined' : Nat}
    (hm' : p.matchFront (Text.bytes edited) = ⟨some (Text.size edited), examined'⟩)
    (hcount : edits.length ≤ Options.plain.limits.maxEdits)
    (hsize : Text.size edited ≤ Options.plain.limits.maxInputSize) (first last : Nat) (statistics : Statistics) :
    ∃ r, (Grammar.ofPattern p).repair (.ofMatch first input examined statistics) edits .plain ⟨last⟩ = .ok r :=
  repair_ofPattern_within .plain rfl (Nat.succ_pos 511) hm he hm' hcount hsize first last statistics

end

/-! ## Leaves below a root -/

section

variable {grammar : Grammar} {input : String} {modified : Std.HashSet NodeId} {offset examined i : Nat} {id : RuleId}
  {kind : ConsumeKind} {p : Pattern}
  (hg : grammar.getRule id = .ok ⟨none, [], .empty, .consume kind (.pattern p)⟩)
include hg

/-- A leaf where the pattern matches. -/
theorem leaf_hit (hb : Text.isBoundary input offset = true) {length : Nat} {text : String}
    (hm : p.matchFront ((Text.bytes input).drop offset) = ⟨some length, examined⟩)
    (ht : Text.slice? input offset (offset + length) = some text) :
    Run.Gives 1 i (i + 1) ((attempts (.make grammar input .plain modified) 512).fresh id offset .empty)
      (.success (.leaf ⟨i⟩ ⟨offset, length⟩ text) (.leaf id ⟨offset, examined⟩)) := by
  obtain rfl : Text.size text = length := by
    rw [Text.size_of_slice? ht, Nat.add_sub_cancel_left]
  exact attempt_gives rfl rfl (Nat.succ_lt_succ (Nat.succ_pos 510)) (.lift hg (consume_hit hb hm ht))

/-- A leaf where the pattern matches the whole text. -/
theorem leaf_whole (hm : p.matchFront (Text.bytes input) = ⟨some (Text.size input), examined⟩) :
    Run.Gives 1 i (i + 1) ((attempts (.make grammar input .plain modified) 512).fresh id 0 .empty)
      (.success (.leaf ⟨i⟩ ⟨0, Text.size input⟩ input) (.leaf id ⟨0, examined⟩)) :=
  attempt_gives rfl rfl (Nat.succ_lt_succ (Nat.succ_pos 510)) (.lift hg (consume_whole hm))

/-- No leaf where the pattern does not match. -/
theorem leaf_miss (hb : Text.isBoundary input offset = true)
    (hm : p.matchFront ((Text.bytes input).drop offset) = ⟨none, examined⟩) :
    Run.Gives 1 i i ((attempts (.make grammar input .plain modified) 512).fresh id offset .empty)
      (.failure id ⟨offset, examined⟩) :=
  attempt_gives rfl rfl (Nat.succ_lt_succ (Nat.succ_pos 510)) (.lift hg (consume_miss hb hm))

/-- No leaf at the end of the text where the pattern does not match nothing. -/
theorem leaf_miss_end (hend : p.matchFront [] = ⟨none, 1⟩) :
    Run.Gives 1 i i ((attempts (.make grammar input .plain modified) 512).fresh id (Text.size input) .empty)
      (.failure id ⟨Text.size input, 1⟩) := by
  refine leaf_miss hg (Text.isBoundary_size input) ?_
  rw [List.drop_of_length_le (Nat.le_of_eq (Text.length_bytes input))]
  exact hend

end

/-! ## No children -/

/-- A grammar whose root may not have any children. -/
def Grammar.barren (p : Pattern) : Grammar where
  rules := #[⟨none, [], .empty, .consume .keep (.pattern p)⟩,
    ⟨none, [], .empty, .container .inOrder [⟨⟨0⟩, .occurrence .zero, .empty⟩]⟩]
  root := ⟨1⟩

/-- The tree of a root without children, at an offset. -/
def Tree.barren (id : NodeId) (offset : Nat) (statistics : Statistics) : Tree :=
  ⟨.group id ⟨offset, 0⟩ [], .group ⟨1⟩ ⟨offset, 0⟩ [] [] none, statistics⟩

omit [Pattern.Compiler] in
@[simp] theorem Tree.text_barren (id : NodeId) (offset : Nat) (statistics : Statistics) :
    (Tree.barren id offset statistics).text = "" := by
  rw [Tree.text, barren, Statement.rawText_group, Statement.rawTextOfList_nil]

/-- The empty document is parsed as a root without children, and nothing is looked at for it. -/
theorem parse_barren (p : Pattern) (first : Nat) :
    ∃ statistics, (Grammar.barren p).parse "" .plain ⟨first⟩ = .ok (.barren ⟨first⟩ 0 statistics, ⟨first + 1⟩) := by
  have hsize : Text.size "" ≤ Options.plain.limits.maxInputSize := Nat.zero_le _
  have hread : Run.Gives 1 first first
      (readInOrder (.make (.barren p) "" .plain {}) (attempts (.make (.barren p) "" .plain {}) 512) ⟨1⟩ .empty {}
        [(⟨⟨0⟩, .occurrence .zero, .empty⟩, 0)] (.begin 0)) (true, .begin 0) := by
    refine .lift (a := ⟨0, ⟨⟨0⟩, .occurrence .zero, .empty⟩, .empty, .start .zero⟩) rfl ?_
    exact fun s hs => ⟨s, rfl, hs⟩
  refine parse_of_gives hsize (attempt_gives rfl rfl (Nat.succ_pos 511) ?_) rfl
  refine .lift (a := ⟨none, [], .empty, .container .inOrder [⟨⟨0⟩, .occurrence .zero, .empty⟩]⟩) rfl ?_
  exact .mark fun _ => .bind hread (.freshId (.pure _))

/-- Text that is written into an empty document is the document. -/
theorem Edit.applyTo_empty (text : String) : (⟨0, 0, text⟩ : Edit).applyTo "" = .ok text := by
  have hempty : Text.slice? "" 0 0 = some "" := by decide +kernel
  have hboundary : Text.isBoundary "" 0 = true := by decide +kernel
  simp [applyTo, apply, misfit?, stop, Text.splice?, Text.size_empty, hempty, hboundary, Except.mapError]

/-- Text is written where nothing is looked at, and the root without children is kept behind it. -/
theorem repair_barren (p : Pattern) (text : String) (hne : Text.size text ≠ 0)
    (hsize : Text.size text ≤ Options.plain.limits.maxInputSize) (id nextId : NodeId) (statistics : Statistics) :
    (Grammar.barren p).repair (.barren id 0 statistics) [⟨0, 0, text⟩] .plain nextId =
      .ok (.barren id (Text.size text) {}, nextId) := by
  have hedits : (Tree.barren id 0 statistics).applyEdits [⟨0, 0, text⟩] =
      .ok ⟨.group id ⟨Text.size text, 0⟩ [], .group ⟨1⟩ ⟨Text.size text, 0⟩ [] [] none, text, {}⟩ := by
    have htext : (EditedTree.ofTree (.barren id 0 statistics)).text = "" := Tree.text_barren id 0 statistics
    rw [Tree.applyEdits, List.foldlM_cons, EditedTree.edit, htext, Edit.applyTo_empty]
    simp [EditedTree.delete, EditedTree.insert, hne, EditedTree.markWhere, EditedTree.move, EditedTree.nodes, Tree.barren,
      EditedTree.ofTree, Statement.walk_group, Statement.walkList, Statement.walkListBefore, Region.holds, Region.stop,
      Statement.mapRegions, Statement.mapRegionsList, Derivation.children, Derivation.withChildren, Derivation.withInterest,
      Derivation.interest, Region.afterInsert, EditedTree.checkContained, Region.contains, Statement.region, Run.ok_bind]
  have hcount : [(⟨0, 0, text⟩ : Edit)].length ≤ Options.plain.limits.maxEdits := Nat.succ_pos 9999
  exact repair_of_untouched (List.cons_ne_nil _ _) hcount hedits hsize (by simp) (Nat.add_zero _) nextId

/-! ## Two matches in any order -/

/-- A grammar whose root has any number of matches of one pattern and one match of another, in any order. -/
def Grammar.anyAndOne (p q : Pattern) : Grammar where
  rules := #[⟨none, [], .empty, .consume .keep (.pattern p)⟩, ⟨none, [], .empty, .consume .keep (.pattern q)⟩,
    ⟨none, [], .empty, .container .anyOrder [⟨⟨0⟩, .occurrence .any, .empty⟩, ⟨⟨1⟩, .occurrence .once, .empty⟩]⟩]
  root := ⟨2⟩

/-- The tree of a document that is the one match, for which its end is looked at. -/
def Tree.onlyOne (leaf root : NodeId) (text : String) (statistics : Statistics) : Tree :=
  ⟨.group root ⟨0, Text.size text⟩ [.leaf leaf ⟨0, Text.size text⟩ text],
    .group ⟨2⟩ ⟨0, Text.size text + 1⟩ [.leaf ⟨1⟩ ⟨0, Text.size text + 1⟩] [1] none, statistics⟩

omit [Pattern.Compiler] in
@[simp] theorem Tree.text_onlyOne (leaf root : NodeId) (text : String) (statistics : Statistics) :
    (Tree.onlyOne leaf root text statistics).text = text := by
  rw [Tree.text, onlyOne, Statement.rawText_group, Statement.rawTextOfList_cons, Statement.rawText_leaf,
    Statement.rawTextOfList_nil, String.append_empty]

/-- The lane of the pattern that may match any number of times. -/
abbrev anyLane (count : Nat) : Lane := ⟨0, ⟨⟨0⟩, .occurrence .any, .empty⟩, .empty, ⟨.any, count⟩⟩

/-- The lane of the pattern that has to match once. -/
abbrev oneLane (count : Nat) : Lane := ⟨1, ⟨⟨1⟩, .occurrence .once, .empty⟩, .empty, ⟨.once, count⟩⟩

/-- What has been gathered once the one match is taken. -/
def onlyOneGathered (leaf : NodeId) (text : String) : Gathering :=
  ⟨0, Text.size text, ⟨0, Text.size text + 1⟩,
    #[⟨1, .leaf leaf ⟨0, Text.size text⟩ text, .leaf ⟨1⟩ ⟨0, Text.size text + 1⟩⟩]⟩

omit [Pattern.Compiler] in
theorem onlyOneGathered_look (leaf : NodeId) (text : String) :
    (onlyOneGathered leaf text).look ⟨Text.size text, 1⟩ = onlyOneGathered leaf text := by
  simp [onlyOneGathered, Gathering.look, Region.expandTo, Region.stop]

omit [Pattern.Compiler] in
theorem onlyOneGathered_push (leaf : NodeId) (text : String) :
    ((Gathering.begin 0).look ⟨0, Text.size text + 1⟩).push
      ⟨1, .leaf leaf ⟨0, Text.size text⟩ text, .leaf ⟨1⟩ ⟨0, Text.size text + 1⟩⟩ = onlyOneGathered leaf text := by
  simp [onlyOneGathered, Gathering.begin, Gathering.look, Gathering.push, Region.expandTo, Region.stop, Statement.region]

omit [Pattern.Compiler] in
theorem look_look_begin (examined : Nat) :
    ((Gathering.begin 0).look ⟨0, 1⟩).look ⟨0, examined + 1⟩ = (Gathering.begin 0).look ⟨0, examined + 1⟩ := by
  simp [Gathering.begin, Gathering.look, Region.expandTo, Region.stop]

section

variable {p q : Pattern} {input : String} {modified : Std.HashSet NodeId} {i : Nat}

/-- Behind the one match nothing more is read. -/
theorem anyAndOne_scanAll (hend : p.matchFront [] = ⟨none, 1⟩) (budget : Nat) (leaf : NodeId) :
    Run.Gives 1 i i (scanAll (attempts (.make (.anyAndOne p q) input .plain modified) 512) ⟨2⟩ (budget + 1)
      [anyLane 0, oneLane 1] (onlyOneGathered leaf input)) ([anyLane 0, oneLane 1], onlyOneGathered leaf input) := by
  have hmiss : Run.Gives 1 i i ((attempts (.make (.anyAndOne p q) input .plain modified) 512).fresh ⟨0⟩ (Text.size input)
      .empty) (.failure ⟨0⟩ ⟨Text.size input, 1⟩) := leaf_miss_end rfl hend
  refine scanAll_done (scan_failed rfl hmiss rfl (scan_full rfl ?_))
  rw [Attempt.interest, Attempt.failure, Derivation.interest, onlyOneGathered_look]
  exact .pure _

/-- The root reads a text that is the one match, and does not begin with a match of the other pattern. -/
theorem anyAndOne_read (hp : p.matchFront (Text.bytes input) = ⟨none, 1⟩) (hend : p.matchFront [] = ⟨none, 1⟩)
    (hq : q.matchFront (Text.bytes input) = ⟨some (Text.size input), Text.size input + 1⟩) (hne : Text.size input ≠ 0)
    (first : Nat) :
    Run.Gives 0 first (first + 2) ((atRoot (.make (.anyAndOne p q) input .plain {})).fresh ⟨2⟩ 0 .empty)
      (.success ((onlyOneGathered ⟨first⟩ input).statement ⟨first + 1⟩)
        ((onlyOneGathered ⟨first⟩ input).derivation ⟨2⟩ none)) := by
  have hmiss : Run.Gives 1 first first ((attempts (.make (.anyAndOne p q) input .plain {}) 512).fresh ⟨0⟩ 0 .empty)
      (.failure ⟨0⟩ ⟨0, 1⟩) := leaf_miss rfl (Text.isBoundary_zero input) hp
  have hhit : Run.Gives 1 first (first + 1) ((attempts (.make (.anyAndOne p q) input .plain {}) 512).fresh ⟨1⟩ 0 .empty)
      (.success (.leaf ⟨first⟩ ⟨0, Text.size input⟩ input) (.leaf ⟨1⟩ ⟨0, Text.size input + 1⟩)) := leaf_whole rfl hq
  have hscan : Run.Gives 1 first (first + 1)
      (scan (attempts (.make (.anyAndOne p q) input .plain {}) 512) [anyLane 0, oneLane 0] (.begin 0))
      (true, [anyLane 0, oneLane 1], onlyOneGathered ⟨first⟩ input) := by
    have htake : Run.Gives 1 first (first + 1)
        (scan (attempts (.make (.anyAndOne p q) input .plain {}) 512) [oneLane 0] ((Gathering.begin 0).look ⟨0, 1⟩))
        (true, [oneLane 1], _) := scan_consumed rfl hhit rfl (beq_false_of_ne hne)
    simp only [Attempt.interest, Attempt.success, Derivation.interest, look_look_begin, onlyOneGathered_push] at htake
    exact scan_failed rfl hmiss rfl htake
  have hbudget : (Setting.make (.anyAndOne p q) input .plain {}).remaining (Gathering.begin 0).cursor =
      Text.size input - 1 + 1 := by
    simp only [Setting.remaining, Setting.make, Gathering.begin]
    omega
  refine attempt_gives rfl rfl (Nat.succ_pos 511) ?_
  refine .lift (a := ⟨none, [], .empty, .container .anyOrder [⟨⟨0⟩, .occurrence .any, .empty⟩,
    ⟨⟨1⟩, .occurrence .once, .empty⟩]⟩) rfl ?_
  have hscanAll : Run.Gives 1 first (first + 1)
      (scanAll (attempts (.make (.anyAndOne p q) input .plain {}) 512) ⟨2⟩
        ((Setting.make (.anyAndOne p q) input .plain {}).remaining (Gathering.begin 0).cursor + 1)
        [anyLane 0, oneLane 0] (.begin 0)) ([anyLane 0, oneLane 1], onlyOneGathered ⟨first⟩ input) := by
    rw [hbudget]
    exact scanAll_again hscan (anyAndOne_scanAll hend _ _)
  exact anyOrder_valid rfl (.pure ([anyLane 0, oneLane 0], Gathering.begin 0)) hscanAll rfl

/-- A document that is the one match, and does not begin with a match of the other pattern, is parsed. -/
theorem parse_anyAndOne (hp : p.matchFront (Text.bytes input) = ⟨none, 1⟩) (hend : p.matchFront [] = ⟨none, 1⟩)
    (hq : q.matchFront (Text.bytes input) = ⟨some (Text.size input), Text.size input + 1⟩) (hne : Text.size input ≠ 0)
    (hsize : Text.size input ≤ Options.plain.limits.maxInputSize) (first : Nat) :
    ∃ statistics, (Grammar.anyAndOne p q).parse input .plain ⟨first⟩ =
      .ok (.onlyOne ⟨first⟩ ⟨first + 1⟩ input statistics, ⟨first + 2⟩) :=
  parse_of_gives hsize (anyAndOne_read hp hend hq hne first) (Nat.zero_add _)

/-- Where the text is one match of the pattern that comes first, the body of the root fails once it has read it, though the other
pattern may match it too: no match is left for that. -/
theorem readBody_anyAndOne_taken (hp : p.matchFront (Text.bytes input) = ⟨some (Text.size input), Text.size input + 1⟩)
    (hend : p.matchFront [] = ⟨none, 1⟩) (hend' : q.matchFront [] = ⟨none, 1⟩) (hne : Text.size input ≠ 0) (first : Nat) :
    ∃ g : Gathering, Run.Gives 1 first (first + 1) (readBody (.make (.anyAndOne p q) input .plain {})
      (attempts (.make (.anyAndOne p q) input .plain {}) 512) ⟨2⟩ 0 .empty) (g.fail ⟨2⟩) := by
  have hhit : Run.Gives 1 first (first + 1) ((attempts (.make (.anyAndOne p q) input .plain {}) 512).fresh ⟨0⟩ 0 .empty)
      (.success (.leaf ⟨first⟩ ⟨0, Text.size input⟩ input) (.leaf ⟨0⟩ ⟨0, Text.size input + 1⟩)) := leaf_whole rfl hp
  have hscan : ∃ g, g.cursor = Text.size input ∧ Run.Gives 1 first (first + 1)
      (scan (attempts (.make (.anyAndOne p q) input .plain {}) 512) [anyLane 0, oneLane 0] (.begin 0))
      (true, [anyLane 1, oneLane 0], g) :=
    ⟨_, Nat.zero_add _, scan_consumed rfl hhit rfl (beq_false_of_ne hne)⟩
  obtain ⟨g, hcursor, hscan⟩ := hscan
  -- at the end of the text neither edge reads anything
  have hrest : ∃ g', Run.Gives 1 (first + 1) (first + 1)
      (scan (attempts (.make (.anyAndOne p q) input .plain {}) 512) [anyLane 1, oneLane 0] g)
      (false, [anyLane 1, oneLane 0], g') := by
    refine ⟨_, scan_failed (Q := Stands (fun _ _ => True) 1 (first + 1)) rfl (a := .failure ⟨0⟩ ⟨Text.size input, 1⟩) ?_ rfl
      (scan_failed rfl (a := .failure ⟨1⟩ ⟨Text.size input, 1⟩) ?_ rfl (.pure _))⟩
    · rw [hcursor]
      exact leaf_miss_end rfl hend
    · rw [Gathering.look, hcursor]
      exact leaf_miss_end rfl hend'
  obtain ⟨g', hrest⟩ := hrest
  have hbudget : (Setting.make (.anyAndOne p q) input .plain {}).remaining (Gathering.begin 0).cursor =
      Text.size input - 1 + 1 := by
    simp only [Setting.remaining, Setting.make, Gathering.begin]
    omega
  have hscanAll : Run.Gives 1 first (first + 1)
      (scanAll (attempts (.make (.anyAndOne p q) input .plain {}) 512) ⟨2⟩
        ((Setting.make (.anyAndOne p q) input .plain {}).remaining (Gathering.begin 0).cursor + 1)
        [anyLane 0, oneLane 0] (.begin 0)) ([anyLane 1, oneLane 0], g') := by
    rw [hbudget]
    exact scanAll_again hscan (scanAll_done hrest)
  refine ⟨g', .lift (a := ⟨none, [], .empty, .container .anyOrder [⟨⟨0⟩, .occurrence .any, .empty⟩,
    ⟨⟨1⟩, .occurrence .once, .empty⟩]⟩) rfl ?_⟩
  exact anyOrder_invalid rfl (.pure ([anyLane 0, oneLane 0], Gathering.begin 0)) hscanAll rfl

/-- So does the root. -/
theorem anyAndOne_taken (hp : p.matchFront (Text.bytes input) = ⟨some (Text.size input), Text.size input + 1⟩)
    (hend : p.matchFront [] = ⟨none, 1⟩) (hend' : q.matchFront [] = ⟨none, 1⟩) (hne : Text.size input ≠ 0) (first : Nat) :
    ∃ g : Gathering, Run.Gives 0 first (first + 1) ((atRoot (.make (.anyAndOne p q) input .plain {})).fresh ⟨2⟩ 0 .empty)
      (g.fail ⟨2⟩) := by
  obtain ⟨g, hg⟩ := readBody_anyAndOne_taken hp hend hend' hne first
  exact ⟨g, attempt_gives rfl rfl (Nat.succ_pos 511) hg⟩

/-- A document that is one match of the pattern that comes first is not parsed. -/
theorem parse_anyAndOne_taken (hp : p.matchFront (Text.bytes input) = ⟨some (Text.size input), Text.size input + 1⟩)
    (hend : p.matchFront [] = ⟨none, 1⟩) (hend' : q.matchFront [] = ⟨none, 1⟩) (hne : Text.size input ≠ 0)
    (hsize : Text.size input ≤ Options.plain.limits.maxInputSize) (first : Nat) :
    ∃ fault, (Grammar.anyAndOne p q).parse input .plain ⟨first⟩ = .error fault ∧ fault.kind = .parseFailed := by
  obtain ⟨g, hg⟩ := anyAndOne_taken hp hend hend' hne first
  exact parse_of_gives_short hsize hg (by intro _ h; cases h)

/-- The nodes of the one match are touched when the match is replaced. -/
theorem edits_onlyOne {old input : String} (hold : Text.size old ≠ 0)
    (he : Edit.applyAll [⟨0, Text.size old, input⟩] old = .ok input) (leaf root : Nat) (statistics : Statistics) :
    ∃ t v, [⟨0, Text.size old, input⟩].foldlM EditedTree.edit (.ofTree (.onlyOne ⟨leaf⟩ ⟨root⟩ old statistics)) = .ok t ∧
      EditedTree.Follows (Tree.onlyOne ⟨leaf⟩ ⟨root⟩ old statistics).statement
        (Tree.onlyOne ⟨leaf⟩ ⟨root⟩ old statistics).derivation old v t ∧
      t.text = input ∧ ∀ id : NodeId, id = ⟨root⟩ ∨ id = ⟨leaf⟩ → t.modified.contains id = true := by
  have htext := Tree.text_onlyOne ⟨leaf⟩ ⟨root⟩ old statistics
  have hsits : Region.Sits ⟨0, Text.size old⟩ ⟨0, Text.size old + 1⟩ :=
    ⟨rfl, by simp only [Region.stop]; omega, Or.inr (by simp only [Region.stop]; omega)⟩
  have hformed : Formed (Tree.onlyOne ⟨leaf⟩ ⟨root⟩ old statistics).statement
      (Tree.onlyOne ⟨leaf⟩ ⟨root⟩ old statistics).derivation := by
    refine .group [⟨1, .leaf ⟨leaf⟩ ⟨0, Text.size old⟩ old, .leaf ⟨1⟩ ⟨0, Text.size old + 1⟩⟩] hsits ?_ ?_
    · simp only [List.mem_singleton, forall_eq]
      exact .leaf hsits (Nat.succ_ne_zero _)
    · simp only [List.mem_singleton, forall_eq]
      exact ⟨Nat.le_refl _, Nat.le_refl _, Nat.le_refl _⟩
  have hbegin := EditedTree.Follows.begin (u := old) hformed (Nat.le_of_eq (Nat.zero_add _))
  obtain ⟨t, v, ht, hfollows, hedited⟩ := hbegin.edits hformed.paired he
  have hof : EditedTree.ofTree (.onlyOne ⟨leaf⟩ ⟨root⟩ old statistics) =
      ⟨(Tree.onlyOne ⟨leaf⟩ ⟨root⟩ old statistics).statement, (Tree.onlyOne ⟨leaf⟩ ⟨root⟩ old statistics).derivation, old,
        {}⟩ := by
    rw [EditedTree.ofTree, htext]
  refine ⟨t, v, by rw [hof]; exact ht, hfollows, hedited, ?_⟩
  intro id hid
  rw [List.foldlM_cons] at ht
  simp only [List.foldlM_nil, bind_pure] at ht
  obtain ⟨text, _, rfl⟩ := EditedTree.edit_eq_ok ht
  refine EditedTree.contains_insert ?_ _ _
  rw [EditedTree.delete, if_neg hold, EditedTree.modified_move, EditedTree.contains_markWhere]
  have hoverlap : 0 < Region.overlap ⟨0, Text.size old + 1⟩ 0 (Text.size old) := by
    simp only [Region.overlap, Region.stop]
    omega
  rcases hid with rfl | rfl <;>
    simp [EditedTree.nodes, Tree.onlyOne, Statement.walk_group, Statement.walkList, Statement.walkListBefore,
      Statement.walkBefore, Derivation.children, Derivation.interest, Statement.id, hoverlap]

/-- A document that was the one match and is replaced by another one match is repaired, whatever the other pattern would match
of it. -/
theorem repair_anyAndOne (hend : p.matchFront [] = ⟨none, 1⟩)
    (hq : q.matchFront (Text.bytes input) = ⟨some (Text.size input), Text.size input + 1⟩) (hne : Text.size input ≠ 0)
    (hsize : Text.size input ≤ Options.plain.limits.maxInputSize) {old : String} (hold : Text.size old ≠ 0)
    (he : Edit.applyAll [⟨0, Text.size old, input⟩] old = .ok input) (leaf root first : Nat) (statistics : Statistics) :
    ∃ r, (Grammar.anyAndOne p q).repair (.onlyOne ⟨leaf⟩ ⟨root⟩ old statistics) [⟨0, Text.size old, input⟩] .plain ⟨first⟩ =
      .ok r := by
  obtain ⟨t, v, ht, hfollows, htext, hmark⟩ := edits_onlyOne hold he leaf root statistics
  have hedits : (Tree.onlyOne ⟨leaf⟩ ⟨root⟩ old statistics).applyEdits [⟨0, Text.size old, input⟩] = .ok t := ht
  subst htext
  have hroot : t.statement = .group ⟨root⟩ (v ⟨0, Text.size old⟩) [.leaf ⟨leaf⟩ (v ⟨0, Text.size old⟩) old] := by
    rw [hfollows.statement, Tree.onlyOne, Statement.placed_group, List.map_singleton, Statement.placed_leaf]
  have hderivation : t.derivation = .group ⟨2⟩ (v ⟨0, Text.size old + 1⟩) [.leaf ⟨1⟩ (v ⟨0, Text.size old + 1⟩)] [1] none := by
    rw [hfollows.derivation, Tree.onlyOne, Derivation.placed_group, List.map_singleton, Derivation.placed_leaf]
  have hid : t.modified.contains t.statement.id = true := by
    rw [hroot]
    exact hmark _ (Or.inl rfl)
  have hcount : [(⟨0, Text.size old, t.text⟩ : Edit)].length ≤ Options.plain.limits.maxEdits := Nat.succ_pos 9999
  rw [repair_eq_rederive (List.cons_ne_nil _ _) hcount hedits hsize hid]
  -- the one match is read again where it stood, before the pattern that comes first is tried
  have hagain : Run.Gives 1 first (first + 1)
      ((attempts (.make (.anyAndOne p q) t.text .plain t.modified) 512).again ⟨1⟩ (.leaf ⟨leaf⟩ (v ⟨0, Text.size old⟩) old)
        (.leaf ⟨1⟩ (v ⟨0, Text.size old + 1⟩)) 0 .empty)
      (.success (.leaf ⟨first⟩ ⟨0, Text.size t.text⟩ t.text) (.leaf ⟨1⟩ ⟨0, Text.size t.text + 1⟩)) := by
    have hlevel : ∀ setting : Setting, (attempts setting 512).again = reattempt setting (attempts setting 511) := fun _ => rfl
    rw [hlevel]
    refine reattempt_gives ?_ ?_ ?_ ?_ ?_
    · rfl
    · exact hmark _ (Or.inr rfl)
    · rfl
    · exact Nat.succ_lt_succ (Nat.succ_pos 510)
    · exact .lift (a := ⟨none, [], .empty, .consume .keep (.pattern q)⟩) rfl (consume_whole hq)
  have hreplay : Run.Gives 1 first (first + 1)
      (replay (attempts (.make (.anyAndOne p q) t.text .plain t.modified) 512)
        (earliersOf .anyOrder t.statement t.derivation).children [anyLane 0, oneLane 0] (.begin 0))
      ([anyLane 0, oneLane 1], onlyOneGathered ⟨first⟩ t.text) := by
    rw [hroot, hderivation]
    refine replay_consumed rfl rfl hagain rfl (beq_false_of_ne hne) ?_
    simp only [Attempt.interest, Attempt.success, Derivation.interest, onlyOneGathered_push]
    exact .pure _
  have hread : Run.Gives 0 first (first + 2)
      ((atRoot (.make (.anyAndOne p q) t.text .plain t.modified)).again ⟨2⟩ t.statement t.derivation 0 .empty)
      (.success ((onlyOneGathered ⟨first⟩ t.text).statement ⟨first + 1⟩)
        ((onlyOneGathered ⟨first⟩ t.text).derivation ⟨2⟩ none)) := by
    refine reattempt_gives (by rw [hderivation]; rfl) hid rfl (Nat.succ_pos 511) ?_
    refine .lift (a := ⟨none, [], .empty, .container .anyOrder [⟨⟨0⟩, .occurrence .any, .empty⟩,
      ⟨⟨1⟩, .occurrence .once, .empty⟩]⟩) rfl ?_
    exact anyOrder_valid rfl hreplay (anyAndOne_scanAll hend _ _) rfl
  obtain ⟨_, h⟩ := rederive_of_gives hread (Nat.zero_add _) (Tree.text_onlyOne ⟨first⟩ ⟨first + 1⟩ t.text {})
  exact ⟨_, h⟩

end

/-! ## A value of two matches -/

/-- A grammar whose root is a value of two matches, one behind the other. The text of the second is skipped. -/
def Grammar.keepAndSkip (p q : Pattern) : Grammar where
  rules := #[⟨none, [], .empty, .consume .keep (.pattern p)⟩, ⟨none, [], .empty, .consume .skip (.pattern q)⟩,
    ⟨some "v", [], .empty,
      .container (.value false) [⟨⟨0⟩, .occurrence .once, .empty⟩, ⟨⟨1⟩, .occurrence .once, .empty⟩]⟩]
  root := ⟨2⟩

/-- The lane of the match that is kept. -/
abbrev keepLane (count : Nat) : Lane := ⟨0, ⟨⟨0⟩, .occurrence .once, .empty⟩, .empty, ⟨.once, count⟩⟩

/-- The lane of the match that is skipped. -/
abbrev skipLane (count : Nat) : Lane := ⟨1, ⟨⟨1⟩, .occurrence .once, .empty⟩, .empty, ⟨.once, count⟩⟩

end

open Pattern.Regex

/-- The body of a value of two letters. -/
def Statement.twoLetters (first : Nat) : Statement :=
  .group ⟨first + 2⟩ ⟨0, 2⟩ [.leaf ⟨first⟩ ⟨0, 1⟩ "a", .leaf ⟨first + 1⟩ ⟨1, 1⟩ "b"]

/-- The derivation of the body. For each letter it was looked at what follows. -/
def Derivation.twoLetters : Derivation :=
  .group ⟨2⟩ ⟨0, 3⟩ [.leaf ⟨0⟩ ⟨0, 2⟩, .leaf ⟨1⟩ ⟨1, 2⟩] [0, 1] none

/-- What has been gathered when the first letter was read. -/
def firstLetterGathered (i : Nat) : Gathering :=
  ⟨0, 1, ⟨0, 2⟩, #[⟨0, .leaf ⟨i⟩ ⟨0, 1⟩ "a", .leaf ⟨0⟩ ⟨0, 2⟩⟩]⟩

section

variable {i : Nat}

/-- The body of the value is read from both letters. -/
theorem keepAndSkip_inOrder :
    Run.Gives 1 i (i + 3)
      (inOrder (.make (.keepAndSkip .letterA .letterB) "ab" .plain {})
        (attempts (.make (.keepAndSkip .letterA .letterB) "ab" .plain {}) 512) ⟨2⟩
        [⟨⟨0⟩, .occurrence .once, .empty⟩, ⟨⟨1⟩, .occurrence .once, .empty⟩] {} 0 .empty)
      (.success (.twoLetters i) .twoLetters) := by
  have hbytes : Text.bytes "ab" = [97, 98] := by decide +kernel
  have hsize : Text.size "ab" = 2 := by decide +kernel
  have hremaining : ∀ offset, (Setting.make (.keepAndSkip .letterA .letterB) "ab" .plain {}).remaining offset = 2 - offset := by
    intro offset
    simp only [Setting.remaining, Setting.make, hsize]
  have hfirst : Pattern.letterA.matchFront ((Text.bytes "ab").drop 0) = ⟨some 1, 2⟩ := by
    rw [hbytes, List.drop_zero, Pattern.letterA_reads.matchFront_cons (by decide) (by decide)]
    decide
  have hsecond : Pattern.letterB.matchFront ((Text.bytes "ab").drop 1) = ⟨some 1, 2⟩ := by
    rw [hbytes, List.drop_succ_cons, List.drop_zero, Pattern.letterB_reads.matchFront_cons (by decide) (by decide)]
    decide
  have hcut : Text.slice? "ab" 0 (0 + 1) = some "a" ∧ Text.slice? "ab" 1 (1 + 1) = some "b" := by decide +kernel
  have hboundary : Text.isBoundary "ab" 1 = true := by decide +kernel
  have hkept : Run.Gives 1 i (i + 1) ((attempts (.make (.keepAndSkip .letterA .letterB) "ab" .plain {}) 512).fresh ⟨0⟩ 0 .empty)
      (.success (.leaf ⟨i⟩ ⟨0, 1⟩ "a") (.leaf ⟨0⟩ ⟨0, 2⟩)) :=
    leaf_hit rfl (Text.isBoundary_zero "ab") hfirst hcut.1
  have hskipped : Run.Gives 1 (i + 1) (i + 2)
      ((attempts (.make (.keepAndSkip .letterA .letterB) "ab" .plain {}) 512).fresh ⟨1⟩ 1 .empty)
      (.success (.leaf ⟨i + 1⟩ ⟨1, 1⟩ "b") (.leaf ⟨1⟩ ⟨1, 2⟩)) :=
    leaf_hit rfl hboundary hsecond hcut.2
  have hkeep : Run.Gives 1 i (i + 1)
      (readLane (.make (.keepAndSkip .letterA .letterB) "ab" .plain {})
        (attempts (.make (.keepAndSkip .letterA .letterB) "ab" .plain {}) 512) ⟨2⟩ []
        { gathering := .begin 0, lane := keepLane 0 }) ⟨firstLetterGathered i, keepLane 1, true⟩ :=
    readLane_once (a := .success (.leaf ⟨i⟩ ⟨0, 1⟩ "a") (.leaf ⟨0⟩ ⟨0, 2⟩)) (hremaining 0) hkept rfl rfl
  have hskip : Run.Gives 1 (i + 1) (i + 2)
      (readLane (.make (.keepAndSkip .letterA .letterB) "ab" .plain {})
        (attempts (.make (.keepAndSkip .letterA .letterB) "ab" .plain {}) 512) ⟨2⟩ []
        { gathering := firstLetterGathered i, lane := skipLane 0 }) ⟨_, skipLane 1, true⟩ :=
    readLane_once (hremaining 1) hskipped rfl rfl
  have hread : Run.Gives 1 i (i + 2)
      (readInOrder (.make (.keepAndSkip .letterA .letterB) "ab" .plain {})
        (attempts (.make (.keepAndSkip .letterA .letterB) "ab" .plain {}) 512) ⟨2⟩ .empty {}
        [(⟨⟨0⟩, .occurrence .once, .empty⟩, 0), (⟨⟨1⟩, .occurrence .once, .empty⟩, 1)] (.begin 0)) (true, _) :=
    .lift (a := keepLane 0) rfl (.bind hkeep (.lift (a := skipLane 0) rfl (.bind hskip (.pure _))))
  exact .mark fun _ => .bind hread (.freshId (.pure _))

end

/-- Two letters are parsed as a value of some text. -/
theorem parse_keepAndSkip (first : Nat) :
    ∃ text statistics, (Grammar.keepAndSkip .letterA .letterB).parse "ab" .plain ⟨first⟩ =
      .ok (⟨.value ⟨first + 3⟩ ⟨0, 2⟩ "v" text (.twoLetters first), .around ⟨2⟩ .twoLetters, statistics⟩, ⟨first + 4⟩) := by
  have hsize : Text.size "ab" = 2 := by decide +kernel
  obtain ⟨text, t, ht, hstands⟩ :=
    value_run keepAndSkip_inOrder "v" (s := State.entered { nextId := ⟨first⟩ }) ⟨rfl, rfl, trivial⟩
  obtain ⟨u, hu, hi, _⟩ : ∃ u, (atRoot (.make (.keepAndSkip .letterA .letterB) "ab" .plain {})).fresh ⟨2⟩ 0 .empty
      { nextId := ⟨first⟩ } = .ok (_, u) ∧ u.nextId = t.nextId ∧ u.statistics.hits = t.statistics.hits :=
    attempt_run rfl (Nat.succ_pos 511) (fun hon => absurd hon Bool.false_ne_true) ht
  refine ⟨text, u.statistics, ?_⟩
  rw [← hstands.nextId, ← hi]
  exact parse_of_run (by rw [hsize]; decide) hu hsize.symm

end Graft
