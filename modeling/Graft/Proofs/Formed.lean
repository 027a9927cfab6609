import Graft.Proofs.Gathered
import Graft.Proofs.Matching

/-!
# Well-formed trees

In a tree that the engine builds every node starts where its rule began to look, and its rule looked at least one byte past
its end, unless it looked at nothing at all. Children stand inside their parents, and so do the regions where their rules
looked.
-/

namespace Graft

open Engine

/-- A node sits in its region of interest: it starts with it, and ends before it unless that is empty. -/
structure Region.Sits (region interest : Region) : Prop where
  offset : region.offset = interest.offset
  stop : region.stop ≤ interest.stop
  seen : interest.length = 0 ∨ region.stop < interest.stop

/-- A statement with the derivation that belongs to it. -/
inductive Formed : Statement → Derivation → Prop where
  | leaf {id : NodeId} {region : Region} {text : String} {rule : RuleId} {interest : Region} :
      region.Sits interest → interest.length ≠ 0 → Formed (.leaf id region text) (.leaf rule interest)
  | group {id : NodeId} {region : Region} {rule : RuleId} {interest : Region} {chosen : Option Nat}
      (children : List Taken) : region.Sits interest →
      (∀ child ∈ children, Formed child.statement child.derivation) →
      (∀ child ∈ children, region.offset ≤ child.statement.region.offset ∧
        child.statement.region.stop ≤ region.stop ∧ child.derivation.interest.stop ≤ interest.stop) →
      Formed (.group id region (children.map (·.statement)))
        (.group rule interest (children.map (·.derivation)) (children.map (·.edge)) chosen)
  | value {id : NodeId} {name text : String} {rule : RuleId} {body : Statement} {inner : Derivation} :
      Formed body inner → Formed (.value id body.region name text body) (.wrap rule inner.interest inner)
  | call {id : NodeId} {rule : RuleId} {body : Statement} {inner : Derivation} :
      Formed body inner → Formed (.group id body.region [body]) (.wrap rule inner.interest inner)

/-- Statements without text have no text together. -/
theorem Statement.rawTextOfList_eq_empty {statements : List Statement} (h : ∀ s ∈ statements, s.rawText = "") :
    rawTextOfList statements = "" := by
  induction statements with
  | nil => exact rawTextOfList_nil
  | cons s rest ih =>
    rw [rawTextOfList_cons, h s (List.mem_cons_self ..), ih fun t hm => h t (List.mem_cons_of_mem _ hm),
      String.empty_append]

namespace Formed

theorem sits {s : Statement} {d : Derivation} (h : Formed s d) : s.region.Sits d.interest := by
  induction h with
  | leaf hs _ => exact hs
  | group _ hs _ _ _ => exact hs
  | value _ ih => exact ih
  | call _ ih => exact ih

theorem renamed {s : Statement} {d : Derivation} (h : Formed s d) (name : String) : Formed (s.renamed name) d := by
  cases h with
  | leaf hs hn => exact .leaf hs hn
  | group children hs hf hi => exact .group children hs hf hi
  | value hf => exact .value hf
  | call hf => exact .call hf

theorem shown {s : Statement} {d : Derivation} (h : Formed s d) (name : Option String) :
    Formed (Reading.shown name s) d := by
  cases name with
  | none => exact h
  | some name => exact h.renamed name

/-- A tree whose rules looked at nothing has no text. -/
theorem rawText_eq_empty {s : Statement} {d : Derivation} (h : Formed s d) (hd : d.interest.length = 0) :
    s.rawText = "" := by
  induction h with
  | leaf _ hn => exact absurd hd hn
  | @group id region rule interest chosen children hs hf hi ih =>
    rw [Statement.rawText_group]
    apply Statement.rawTextOfList_eq_empty
    intro s hm
    obtain ⟨child, hc, rfl⟩ := List.mem_map.1 hm
    -- every child lies inside the empty region of interest
    apply ih child hc
    obtain ⟨h1, h2, h3⟩ := hi child hc
    have h4 := (hf child hc).sits.offset
    have h5 := hs.offset
    change interest.length = 0 at hd
    simp only [Region.stop] at h2 h3
    omega
  | value _ ih =>
    rw [Statement.rawText_value]
    exact ih hd
  | call _ ih =>
    rw [Statement.rawText_group, Statement.rawTextOfList_cons, Statement.rawTextOfList_nil, String.append_empty]
    exact ih hd

end Formed

/-! ## Gathering -/

/-- What has been gathered from an offset on: well-formed children, none of which reaches past the cursor. -/
structure Engine.Gathering.Laid (offset : Nat) (g : Gathering) : Prop where
  start : g.start = offset
  interest : g.interest.offset = offset
  cursor : offset ≤ g.cursor
  reached : g.cursor ≤ g.interest.stop
  seen : g.interest.length = 0 ∨ g.cursor < g.interest.stop
  formed : ∀ child ∈ g.children, Formed child.statement child.derivation
  inside : ∀ child ∈ g.children, offset ≤ child.statement.region.offset ∧
    child.statement.region.stop ≤ g.cursor ∧ child.derivation.interest.stop ≤ g.interest.stop

namespace Engine.Gathering.Laid

variable {offset : Nat} {g : Gathering}

theorem begin : Gathering.Laid offset (.begin offset) where
  start := rfl
  interest := rfl
  cursor := Nat.le_refl _
  reached := Nat.le_refl _
  seen := Or.inl rfl
  formed := by simp [Gathering.begin]
  inside := by simp [Gathering.begin]

/-- A look at something from the cursor on. -/
theorem look (h : g.Laid offset) {interest : Region} (hi : interest.offset = g.cursor) : (g.look interest).Laid offset := by
  have h1 := h.interest
  have h2 := h.cursor
  have h3 := h.reached
  have h4 := h.seen
  refine ⟨h.start, ?_, h2, ?_, ?_, h.formed, ?_⟩
  · simp only [Gathering.look, Region.expandTo]
    omega
  · simp only [Gathering.look, Region.expandTo, Region.stop] at h3 ⊢
    omega
  · simp only [Gathering.look, Region.expandTo, Region.stop] at h3 h4 ⊢
    omega
  · intro child hm
    obtain ⟨h5, h6, h7⟩ := h.inside child hm
    refine ⟨h5, h6, ?_⟩
    simp only [Gathering.look, Region.expandTo, Region.stop] at h7 ⊢
    omega

/-- A child that starts at the cursor and was looked at. -/
theorem push (h : g.Laid offset) {child : Taken} (hf : Formed child.statement child.derivation)
    (ho : child.statement.region.offset = g.cursor) (hs : child.derivation.interest.stop ≤ g.interest.stop)
    (hseen : child.statement.region.isEmpty = true ∨ child.statement.region.stop < g.interest.stop) :
    (g.push child).Laid offset := by
  have hc := h.cursor
  have hstop : g.cursor ≤ child.statement.region.stop := by
    rw [Region.stop, ho]
    omega
  refine ⟨h.start, h.interest, Nat.le_trans hc hstop, Nat.le_trans hf.sits.stop hs, ?_, ?_, ?_⟩
  · rcases hseen with he | hlt
    · have : child.statement.region.stop = g.cursor := by
        rw [Region.isEmpty, beq_iff_eq] at he
        rw [Region.stop, ho, he, Nat.add_zero]
      simp only [Gathering.push, this]
      exact h.seen
    · exact Or.inr hlt
  · intro other hm
    rcases Array.mem_push.1 hm with hm | rfl
    · exact h.formed other hm
    · exact hf
  · intro other hm
    rcases Array.mem_push.1 hm with hm | rfl
    · obtain ⟨h5, h6, h7⟩ := h.inside other hm
      exact ⟨h5, Nat.le_trans h6 hstop, h7⟩
    · exact ⟨by omega, Nat.le_refl _, hs⟩

theorem pushMany (h : g.Laid offset) {child : Taken} (hf : Formed child.statement child.derivation)
    (ho : child.statement.region.offset = g.cursor) (hs : child.derivation.interest.stop ≤ g.interest.stop)
    (he : child.statement.region.isEmpty = true) (count : Nat) : (g.pushMany child count).Laid offset := by
  induction count generalizing g with
  | zero => exact h
  | succ count ih =>
    refine ih (h.push hf ho hs (Or.inl he)) ?_ hs
    rw [Region.isEmpty, beq_iff_eq] at he
    simp only [Gathering.push, Region.stop, he, Nat.add_zero]

end Engine.Gathering.Laid

/-- A container of what has been gathered is well-formed. -/
theorem Engine.Gathering.Laid.group {offset : Nat} {g : Gathering} (h : g.Laid offset) (id : NodeId) (rule : RuleId)
    (chosen : Option Nat) : Formed (g.statement id) (g.derivation rule chosen) := by
  have h1 := h.start
  have h2 := h.cursor
  have hstop : (⟨g.start, g.cursor - g.start⟩ : Region).stop = g.cursor := by
    simp only [Region.stop]
    omega
  refine .group g.children.toList ⟨?_, ?_, ?_⟩ ?_ ?_
  · rw [h1, h.interest]
  · rw [hstop]
    exact h.reached
  · rw [hstop]
    exact h.seen
  · intro child hm
    exact h.formed child (Array.mem_toList_iff.1 hm)
  · intro child hm
    rw [hstop]
    obtain ⟨h3, h4, h5⟩ := h.inside child (Array.mem_toList_iff.1 hm)
    exact ⟨by rw [h1]; exact h3, h4, h5⟩

variable [Pattern.Compiler]

/-! ## Attempts -/

/-- An attempt that looked from its offset on and, where it succeeded, read a well-formed tree from there. -/
def Laid : Claim := fun _ offset _ a =>
  a.interest.offset = offset ∧ ∀ s, a.statement = some s → s.region.offset = offset ∧ Formed s a.derivation

/-- Whatever an attempt has read starts at an offset. -/
def Attempt.Starts (offset : Nat) (a : Attempt) : Prop :=
  ∀ s, a.statement = some s → s.region.offset = offset

theorem Laid.starts {rule : RuleId} {offset : Nat} {context : Context} {a : Attempt} (h : Laid rule offset context a) :
    a.Starts offset :=
  fun s hs => (h.2 s hs).1

/-- What was read starts where it was looked for, and is well-formed. -/
theorem Laid.success {rule : RuleId} {offset : Nat} {context : Context} {s : Statement} {d : Derivation}
    (h : Laid rule offset context (.success s d)) : d.interest.offset = offset ∧ s.region.offset = offset ∧ Formed s d :=
  ⟨h.1, h.2 s rfl⟩

/-- What is gathered from attempts of well-formed trees is well-formed. -/
theorem Gathered.laid {P : Claim} (hP : ∀ r o c a, P r o c a → Laid r o c a) {edges : List Edge} {live : Context}
    {offset : Nat} {g : Gathering} (h : Gathered P edges live offset g) : g.Laid offset := by
  induction h with
  | begin => exact .begin
  | @accept p a _ _ ha ih =>
    obtain ⟨h1, h2⟩ := hP _ _ _ _ ha
    have hlook := ih.look h1
    have hreach : a.derivation.interest.stop ≤ (p.gathering.look a.interest).interest.stop := by
      simp only [Gathering.look, Region.expandTo, Region.stop, Attempt.interest]
      omega
    cases hs : a.statement with
    | none =>
      rw [Progress.accept_failure hs]
      exact hlook
    | some s =>
      obtain ⟨h3, h4⟩ := h2 s hs
      cases he : s.region.isEmpty with
      | true =>
        rw [Progress.accept_empty hs he]
        exact hlook.pushMany h4 h3 hreach he _
      | false =>
        rw [Progress.accept_consumed hs he]
        refine hlook.push h4 h3 hreach (Or.inr ?_)
        -- a child that reads something was looked at past its end
        have h5 := h4.sits.offset
        have h6 := h4.sits.stop
        have h7 := h4.sits.seen
        rw [Region.isEmpty, beq_eq_false_iff_ne] at he
        simp only [Region.stop] at h5 h6 h7 hreach ⊢
        omega

/-- Attempts that read well-formed trees make up rules that do. -/
theorem Body.laid {grammar : Grammar} {input : String} {P : Claim} (hP : ∀ r o c a, P r o c a → Laid r o c a)
    {rule : RuleId} {offset : Nat} {context : Context} {a : Attempt} (h : Body grammar input P rule offset context a) :
    Laid rule offset context a := by
  cases h with
  | unmatched rules boundary =>
    refine ⟨rfl, ?_⟩
    intro s hs
    cases hs
  | @matched kind binding pattern length text id rules found cut =>
    refine ⟨rfl, ?_⟩
    intro s hs
    cases hs
    have h1 := pattern.length_lt_examined _ found
    have h2 := Text.size_of_slice? cut
    refine ⟨rfl, .leaf ⟨rfl, ?_, Or.inr ?_⟩ ?_⟩
    · simp only [Region.stop]
      omega
    · simp only [Region.stop]
      omega
    · simp only
      omega
  | full id chosen rules plain gathered =>
    have hg := gathered.laid hP
    refine ⟨hg.interest, ?_⟩
    intro s hs
    cases hs
    exact ⟨hg.start, hg.group id rule chosen⟩
  | short rules gathered =>
    refine ⟨(gathered.laid hP).interest, ?_⟩
    intro s hs
    cases hs
  | valued id inner name text rules gathered =>
    have hg := gathered.laid hP
    refine ⟨hg.interest, ?_⟩
    intro s hs
    cases hs
    exact ⟨hg.start, .value (hg.group inner rule none)⟩
  | @called call target inside a id rules resolved attempted =>
    obtain ⟨h1, h2⟩ := hP _ _ _ _ attempted
    refine ⟨by rw [Reading.interest_wrap, h1], ?_⟩
    intro s hs
    obtain ⟨t, ha, rfl, hwrap⟩ := Reading.wrap_eq_success hs
    obtain ⟨h3, h4⟩ := h2 t ha
    have hf := @Formed.call id rule _ _ (h4.shown call.shownAs)
    rw [Reading.region_shown] at hf
    rw [hwrap]
    exact ⟨h3, hf⟩

theorem Laid.closed {grammar : Grammar} {input : String} : Claim.Closed grammar input Laid :=
  fun _ _ _ _ hb => hb.laid fun _ _ _ _ h => h

/-- Every reading is well-formed. -/
theorem Reading.laid {grammar : Grammar} {input : String} {levels : Nat} {r : RuleId} {o : Nat} {c : Context}
    {a : Attempt} (h : within grammar input levels r o c = some a) : Laid r o c a :=
  within_of_closed Laid.closed levels r o c a h

end Graft
