import Graft.Proofs.Formed

/-!
# Readings cover their text

What a reading has read is the slice of the text from its offset to its end, and it keeps no more of it than it has read.
All of its nodes come from rules of the grammar.
-/

namespace Graft

open Engine

namespace Statement

/-- The raw text of two lists of statements is that of one after the other. -/
theorem rawTextOfList_append (ss ts : List Statement) :
    rawTextOfList (ss ++ ts) = rawTextOfList ss ++ rawTextOfList ts := by
  induction ss with
  | nil => rw [List.nil_append, rawTextOfList_nil, String.empty_append]
  | cons s ss ih => rw [List.cons_append, rawTextOfList_cons, rawTextOfList_cons, ih, String.append_assoc]

/-- A name changes nothing about the raw text. -/
theorem rawText_renamed (name : String) (s : Statement) : (s.renamed name).rawText = s.rawText := by
  cases s with
  | leaf => rfl
  | group => rfl
  | value id region own text body => rw [renamed, rawText_value, rawText_value]

/-- A statement has the same raw text under any name that it is shown under. -/
theorem rawText_shown (name : Option String) (s : Statement) : (Reading.shown name s).rawText = s.rawText := by
  cases name with
  | none => rfl
  | some name => exact rawText_renamed name s

end Statement

variable [Pattern.Compiler]

/-- An attempt that, where it succeeded, read the slice from its offset to its end. -/
structure Attempt.CoversAs (grammar : Grammar) (input : String) (offset : Nat) (s : Statement) (d : Derivation) :
    Prop where
  start : s.region.offset = offset
  text : Text.slice? input offset s.region.stop = some s.rawText
  kept : Text.size (s.kept grammar d) ≤ s.region.length
  known : s.Known grammar d

/-- An attempt at a boundary that, where it succeeded, read the slice from its offset to its end. -/
def Covers (grammar : Grammar) (input : String) : Claim := fun _ offset _ a =>
  Text.isBoundary input offset = true →
    ∀ s, a.statement = some s → Attempt.CoversAs grammar input offset s a.derivation

namespace Statement

/-- A statement keeps the same text under any name that it is shown under. -/
theorem kept_shown (g : Grammar) (name : Option String) (s : Statement) (d : Derivation) :
    kept g (Reading.shown name s) d = kept g s d := by
  cases name with
  | none => rfl
  | some name => exact kept_renamed g name s d

/-- The rules of a statement are known under any name that it is shown under. -/
theorem known_shown (g : Grammar) (name : Option String) (s : Statement) (d : Derivation) :
    Known g (Reading.shown name s) d ↔ Known g s d := by
  cases name with
  | none => exact Iff.rfl
  | some name => exact known_renamed g name s d

end Statement

/-- What has been gathered from an offset on is the text up to the cursor. -/
structure Engine.Gathering.Covers (grammar : Grammar) (input : String) (offset : Nat) (g : Gathering) : Prop where
  start : g.start = offset
  cursor : offset ≤ g.cursor
  text : Text.slice? input offset g.cursor = some (Statement.rawTextOfList (g.children.toList.map (·.statement)))
  kept : Text.size (g.kept grammar) ≤ g.cursor - offset
  known : ∀ child ∈ g.children, child.statement.Known grammar child.derivation

namespace Engine.Gathering.Covers

variable {grammar : Grammar} {input : String} {offset : Nat} {g : Gathering}

/-- At a boundary nothing has been read yet. -/
theorem begin (h : Text.isBoundary input offset = true) : Gathering.Covers grammar input offset (.begin offset) where
  start := rfl
  cursor := Nat.le_refl _
  text := by
    rw [Gathering.begin, Text.slice?_empty h]
    exact congrArg some Statement.rawTextOfList_nil.symm
  kept := by
    rw [Gathering.kept_begin, Text.size_empty]
    exact Nat.zero_le _
  known := by simp [Gathering.begin]

/-- A child that covers what follows the cursor is covered with what comes before it. -/
theorem push (h : g.Covers grammar input offset) {child : Taken}
    (hc : Attempt.CoversAs grammar input g.cursor child.statement child.derivation) :
    (g.push child).Covers grammar input offset := by
  have h1 := h.cursor
  have h2 := hc.start
  have h3 := h.kept
  have h4 := hc.kept
  refine ⟨h.start, ?_, ?_, ?_, ?_⟩
  · simp only [Gathering.push, Region.stop]
    omega
  · have := Text.slice?_append h.text hc.text
    simp only [Gathering.push, Array.toList_push, List.map_append, List.map_cons, List.map_nil]
    rw [this, Statement.rawTextOfList_append, Statement.rawTextOfList_cons, Statement.rawTextOfList_nil,
      String.append_empty]
  · rw [Gathering.kept_push, Text.size_append]
    simp only [Gathering.push, Taken.kept, Region.stop]
    omega
  · intro other hm
    rcases Array.mem_push.1 hm with hm | rfl
    · exact h.known other hm
    · exact hc.known

/-- Copies of an empty child cover nothing more. -/
theorem pushMany (h : g.Covers grammar input offset) {child : Taken}
    (hc : Attempt.CoversAs grammar input g.cursor child.statement child.derivation)
    (he : child.statement.region.isEmpty = true) (count : Nat) :
    (g.pushMany child count).Covers grammar input offset := by
  induction count generalizing g with
  | zero => exact h
  | succ count ih =>
    have hcursor : (g.push child).cursor = g.cursor := by
      rw [Region.isEmpty, beq_iff_eq] at he
      simp only [Gathering.push, Region.stop, hc.start, he, Nat.add_zero]
    exact ih (h.push hc) (by rw [hcursor]; exact hc)

end Engine.Gathering.Covers

/-- What is gathered from attempts that read the text is the text up to the cursor. -/
theorem Gathered.covers {grammar : Grammar} {input : String} {P : Claim}
    (hP : ∀ r o c a, P r o c a → Covers grammar input r o c a) {edges : List Edge} {live : Context} {offset : Nat}
    (hb : Text.isBoundary input offset = true) {g : Gathering} (h : Gathered P edges live offset g) :
    g.Covers grammar input offset := by
  induction h with
  | begin => exact .begin hb
  | @accept p a _ _ ha ih =>
    obtain ⟨_, hcursor, _, _⟩ := Text.slice?_eq_some_iff.1 ih.text
    have hlook : (p.gathering.look a.interest).Covers grammar input offset :=
      ⟨ih.start, ih.cursor, ih.text, ih.kept, ih.known⟩
    cases hs : a.statement with
    | none =>
      rw [Progress.accept_failure hs]
      exact hlook
    | some s =>
      have hc := hP _ _ _ _ ha hcursor s hs
      cases he : s.region.isEmpty with
      | true =>
        rw [Progress.accept_empty hs he]
        exact @Engine.Gathering.Covers.pushMany _ _ _ _ _ hlook ⟨p.lane.index, s, a.derivation⟩ hc he _
      | false =>
        rw [Progress.accept_consumed hs he]
        exact @Engine.Gathering.Covers.push _ _ _ _ _ hlook ⟨p.lane.index, s, a.derivation⟩ hc

/-- What has been gathered covers its text as a group. -/
theorem Engine.Gathering.Covers.group {grammar : Grammar} {input : String} {offset : Nat} {g : Gathering}
    (h : g.Covers grammar input offset) (id : NodeId) {rule : RuleId} (chosen : Option Nat)
    (hr : (grammar.body? rule).isSome) :
    Text.slice? input offset (g.statement id).region.stop = some (g.statement id).rawText ∧
      (g.statement id).Known grammar (g.derivation rule chosen) := by
  have h1 := h.start
  have h2 := h.cursor
  have hstop : (g.statement id).region.stop = g.cursor := by
    simp only [Gathering.statement, Statement.region, Region.stop]
    omega
  rw [hstop]
  refine ⟨?_, ?_⟩
  · rw [h.text, Gathering.statement, Statement.rawText_group]
  · rw [Gathering.statement, Statement.Known]
    refine ⟨hr, Statement.knownOfList_map grammar _ ?_⟩
    intro child hm
    exact h.known child (Array.mem_toList_iff.1 hm)

/-- Attempts that read the text make up rules that do. -/
theorem Body.covers {grammar : Grammar} {input : String} {P : Claim}
    (hP : ∀ r o c a, P r o c a → Covers grammar input r o c a) {rule : RuleId} {offset : Nat} {context : Context}
    {a : Attempt} (h : Body grammar input P rule offset context a) : Covers grammar input rule offset context a := by
  intro hb s hs
  cases h with
  | unmatched rules boundary => cases hs
  | @matched kind binding pattern length text id rules found cut =>
    cases hs
    have hsize := Text.size_of_slice? cut
    have hstop : offset + length = offset + Text.size text := by omega
    refine ⟨rfl, ?_, ?_, ?_⟩
    · rw [Statement.rawText_leaf, ← cut, hstop]
      rfl
    · simp only [Attempt.success, Statement.kept, Statement.region]
      split
      · exact Nat.le_refl _
      · exact Nat.le_trans (Nat.le_of_eq Text.size_empty) (Nat.zero_le _)
    · simp only [Attempt.success, Statement.Known, Derivation.rule, rules, Option.isSome_some]
  | @full kind edges g id chosen rules plain gathered =>
    cases hs
    have hg := gathered.covers hP hb
    have hrule : (grammar.body? rule).isSome := by rw [rules]; rfl
    have hgroup := hg.group id chosen hrule
    refine ⟨hg.start, hgroup.1, ?_, hgroup.2⟩
    have h1 := hg.start
    have h2 := hg.kept
    have hkept : (g.statement id).kept grammar (g.derivation rule chosen) = g.kept grammar := by
      rw [Gathering.statement, Statement.kept]
      simp only [Gathering.derivation, Derivation.rule, rules]
      cases kind with
      | value nonEmpty => exact absurd rfl (plain nonEmpty)
      | inOrder => rfl
      | anyOrder => rfl
      | firstOrder => rfl
    simp only [Reading.succeed, Attempt.success]
    rw [hkept]
    simp only [Gathering.statement, Statement.region]
    omega
  | short rules gathered => cases hs
  | @valued nonEmpty edges g id inner name text rules gathered =>
    cases hs
    have hg := gathered.covers hP hb
    have hrule : (grammar.body? rule).isSome := by rw [rules]; rfl
    have hgroup := hg.group inner none hrule
    refine ⟨hg.start, ?_, ?_, ?_⟩
    · rw [Statement.rawText_value]
      exact hgroup.1
    · simp only [Attempt.success, Statement.kept, Derivation.around, Derivation.rule, rules]
      exact Nat.le_trans (Nat.le_of_eq Text.size_empty) (Nat.zero_le _)
    · simp only [Attempt.success, Statement.Known, Derivation.around, Derivation.rule, rules, Derivation.children]
      exact ⟨rfl, hgroup.2⟩
  | @called call target inside a id rules resolved attempted =>
    obtain ⟨t, ha, rfl, hwrap⟩ := Reading.wrap_eq_success hs
    have hc := hP _ _ _ _ attempted hb t ha
    rw [hwrap]
    refine ⟨hc.start, ?_, ?_, ?_⟩
    · rw [Statement.rawText_group, Statement.rawTextOfList_cons, Statement.rawTextOfList_nil, String.append_empty,
        Statement.rawText_shown]
      exact hc.text
    · simp only [Attempt.success, Statement.kept, Derivation.around, Derivation.rule, rules, Derivation.children]
      rw [Statement.keptOfList_cons, Statement.keptOfList_nil, String.append_empty, Statement.kept_shown]
      exact hc.kept
    · simp only [Attempt.success, Statement.Known, Derivation.around, Derivation.rule, rules, Derivation.children,
        Statement.KnownOfList, Statement.known_shown]
      exact ⟨rfl, hc.known, trivial⟩

/-- Every reading covers its text. -/
theorem Reading.covers {grammar : Grammar} {input : String} {levels : Nat} {r : RuleId} {o : Nat} {c : Context}
    {a : Attempt} (h : within grammar input levels r o c = some a) : Covers grammar input r o c a :=
  within_of_closed (fun _ _ _ _ hb => hb.covers fun _ _ _ _ hc => hc) levels r o c a h

end Graft
