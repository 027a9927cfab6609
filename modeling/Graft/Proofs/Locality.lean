import Graft.Proofs.Covered

/-!
# Readings depend on what was looked at

What a rule comes to at an offset depends only on the bytes of its region of interest: on another text that shows the same
bytes at another offset the rule comes to the same there, moved by the distance. Every attempt made on the way, also one that
failed, widened the region, so each of them is known to come to the same.
-/

namespace Graft

open Engine

namespace Engine

/-- What has been gathered at `p` is what has been gathered at `o`, moved. -/
def Gathering.Shifted (o p : Nat) (g g' : Gathering) : Prop :=
  g.recast (.moved p) = g'.recast (.moved o)

namespace Gathering.Shifted

variable {o p : Nat} {g g' : Gathering}

/-- What begins at `p` is what begins at `o`, moved. -/
theorem begin (o p : Nat) : Gathering.Shifted o p (.begin o) (.begin p) := by
  simp [Gathering.Shifted, Gathering.begin, Gathering.recast, Recasting.moved, Region.movedBy, Nat.add_comm]

/-- The cursors of what has been gathered differ by the distance. -/
theorem cursor (h : g.Shifted o p g') : g.cursor + p = g'.cursor + o :=
  congrArg Gathering.cursor h

end Gathering.Shifted

end Engine

variable [Pattern.Compiler]

namespace Engine

/-- Progress at `p` is progress at `o`, moved. -/
def Progress.Shifted (o p : Nat) (q q' : Progress) : Prop :=
  q.recast (.moved p) = q'.recast (.moved o)

namespace Progress.Shifted

variable {o p : Nat} {q q' : Progress}

theorem gathering (h : q.Shifted o p q') : q.gathering.Shifted o p q'.gathering :=
  congrArg Progress.gathering h

theorem lane (h : q.Shifted o p q') : q.lane = q'.lane :=
  show (q.recast (.moved p)).lane = (q'.recast (.moved o)).lane from congrArg Progress.lane h

theorem matched (h : q.Shifted o p q') : q.matched = q'.matched :=
  show (q.recast (.moved p)).matched = (q'.recast (.moved o)).matched from congrArg Progress.matched h

/-- Moved gatherings make moved progress on the same lane. -/
theorem of_gathering {g g' : Gathering} (h : g.Shifted o p g') (lane : Lane) (matched : Bool) :
    Progress.Shifted o p ⟨g, lane, matched⟩ ⟨g', lane, matched⟩ :=
  congrArg (fun g => (⟨g, lane, matched⟩ : Progress)) h

end Progress.Shifted

end Engine

namespace Reading

/-- Rules come to the same on `v` as on `u`, wherever the texts look the same as far as was looked. -/
def Local (u v : String) (R S : Oracle) : Prop :=
  ∀ r o p c a, Text.isBoundary u o = true → R r o c = some a → Text.Alike u v o p a.interest.length →
    ∃ b, S r p c = some b ∧ a.Shifted o p b

/-- An attempt that brought something moved the cursor on. -/
theorem cursor_lt_of_consumed {q : Progress} {a : Attempt} (ha : a.Starts q.gathering.cursor)
    (h : (q.accept a).1 = .consumed) : q.gathering.cursor < (q.accept a).2.gathering.cursor := by
  obtain ⟨s, hs, he⟩ := Progress.statement_of_consumed h
  rw [Progress.accept_consumed hs he]
  have ho := ha s hs
  rw [Region.isEmpty, beq_eq_false_iff_ne] at he
  simp only [Gathering.push, Region.stop]
  omega

/-- An attempt that brought nothing new leaves the cursor where it was. -/
theorem cursor_of_not_consumed {q : Progress} {a : Attempt} (ha : a.Starts q.gathering.cursor)
    (h : (q.accept a).1 ≠ .consumed) : (q.accept a).2.gathering.cursor = q.gathering.cursor := by
  cases hs : a.statement with
  | none =>
    rw [Progress.accept_failure hs]
    rfl
  | some s =>
    cases he : s.region.isEmpty with
    | false => exact absurd (by rw [Progress.accept_consumed hs he]) h
    | true =>
      have ho := ha s hs
      rw [Region.isEmpty, beq_iff_eq] at he
      rw [Progress.accept_empty hs (by rw [Region.isEmpty, he]; rfl)]
      simp only
      cases q.lane.counter.missing with
      | zero => rfl
      | succ count =>
        rw [Gathering.pushMany, Gathering.cursor_pushMany_self]
        simp only [Gathering.push, Region.stop]
        omega

/-- An attempt that brought something leaves the cursor at a boundary. -/
theorem boundary_of_consumed {grammar : Grammar} {u : String} {q : Progress} {a : Attempt} {r : RuleId} {c : Context}
    (ha : Covers grammar u r q.gathering.cursor c a) (hb : Text.isBoundary u q.gathering.cursor = true)
    (h : (q.accept a).1 = .consumed) : Text.isBoundary u (q.accept a).2.gathering.cursor = true := by
  obtain ⟨s, hs, he⟩ := Progress.statement_of_consumed h
  rw [Progress.accept_consumed hs he]
  exact (Text.slice?_eq_some_iff.1 (ha hb s hs).text).2.1

/-- No attempt moves the cursor back. -/
theorem cursor_le_accept {q : Progress} {a : Attempt} (ha : a.Starts q.gathering.cursor) :
    q.gathering.cursor ≤ (q.accept a).2.gathering.cursor := by
  by_cases h : (q.accept a).1 = .consumed
  · exact Nat.le_of_lt (cursor_lt_of_consumed ha h)
  · exact Nat.le_of_eq (cursor_of_not_consumed ha h).symm

/-- Whatever is attempted, what was looked at stays looked at. -/
theorem interest_stop_le_accept (q : Progress) (a : Attempt) :
    q.gathering.interest.stop ≤ (q.accept a).2.gathering.interest.stop := by
  rw [Progress.interest_accept]
  simp only [Region.expandTo, Region.stop]
  omega

section

variable {grammar : Grammar} {u v : String} {R S : Oracle} {edges : List Edge} {live : Context} {o : Nat}

/-- What has been gathered by readings. -/
abbrev GatheredBy (R : Oracle) (edges : List Edge) (live : Context) (o : Nat) : Gathering → Prop :=
  Gathered (fun r o c a => R r o c = some a) edges live o

/-- What readings are known to satisfy. -/
structure Sound (grammar : Grammar) (u : String) (R : Oracle) : Prop where
  laid : ∀ r o c a, R r o c = some a → Laid r o c a
  covers : ∀ r o c a, R r o c = some a → Covers grammar u r o c a

/-- Readings by a grammar are laid out in order and cover what they have read. -/
theorem sound_within (grammar : Grammar) (u : String) (levels : Nat) : Sound grammar u (within grammar u levels) :=
  ⟨fun _ _ _ _ h => Reading.laid h, fun _ _ _ _ h => Reading.covers h⟩

variable (hsound : Sound grammar u R) (hlocal : Local u v R S) (hb : Text.isBoundary u o = true)
include hsound hlocal hb

/-- One more attempt comes to the same, and is taken in alike, where all that was looked at in the end lies in sight. -/
theorem attempt_local {q q' : Progress} {a : Attempt} {p n : Nat} (hg : GatheredBy R edges live o q.gathering)
    (ha : R q.lane.edge.rule q.gathering.cursor q.lane.context = some a) (hw : Text.Alike u v o p n)
    (hn : (q.accept a).2.gathering.interest.stop ≤ o + n) (hq : q.Shifted o p q') :
    ∃ b, S q'.lane.edge.rule q'.gathering.cursor q'.lane.context = some b ∧
      (q.accept a).1 = (q'.accept b).1 ∧ (q.accept a).2.Shifted o p (q'.accept b).2 := by
  have hlaid := hg.laid hsound.laid
  obtain ⟨_, hcursor, hle, _⟩ := Text.slice?_eq_some_iff.1 (hg.covers hsound.covers hb).text
  have ho := (hsound.laid _ _ _ _ ha).1
  have hshift := hq.gathering.cursor
  have hstart := hlaid.interest
  -- the window of this attempt, told from the start of the container
  obtain ⟨k, hk⟩ : ∃ k, q.gathering.cursor = o + k := ⟨q.gathering.cursor - o, by omega⟩
  have hk' : q'.gathering.cursor = p + k := by omega
  have hsize := Text.le_size_of_isBoundary hcursor
  have hinside : k + a.interest.length ≤ n := by
    rw [Progress.interest_accept] at hn
    simp only [Region.expandTo, Region.stop] at hn
    omega
  have hwindow := hw.within hinside (by omega)
  rw [← hk, ← hk'] at hwindow
  obtain ⟨b, hS, hab⟩ := hlocal _ _ _ _ _ hcursor ha hwindow
  rw [hq.lane] at hS
  exact ⟨b, hS, Progress.accept_congr hq (hab.of_distance (by omega))⟩

omit hlocal in
/-- A cursor in sight stays inside the other text. -/
theorem cursor_le_size {g g' : Gathering} {p n : Nat} (hg : GatheredBy R edges live o g) (hw : Text.Alike u v o p n)
    (hn : g.interest.stop ≤ o + n) (hs : g.Shifted o p g') : g'.cursor ≤ Text.size v := by
  have hlaid := hg.laid hsound.laid
  obtain ⟨_, hcursor, hle, _⟩ := Text.slice?_eq_some_iff.1 (hg.covers hsound.covers hb).text
  have h1 := hs.cursor
  have h2 := hlaid.reached
  have h3 := Text.le_size_of_isBoundary hcursor
  have h4 := (hw.within (k := g.cursor - o) (m := 0) (by omega) (by omega)).right
  omega

/-- An edge is read alike wherever the bytes that were looked at stand. -/
theorem readLane_local {budget : Nat} {q q1 : Progress} (h : readLane R budget q = some q1)
    (hg : GatheredBy R edges live o q.gathering) (hl : q.lane.Opens edges live) :
    q.gathering.interest.stop ≤ q1.gathering.interest.stop ∧
      ∀ p n q' budget', Text.Alike u v o p n → q1.gathering.interest.stop ≤ o + n → q.Shifted o p q' →
        Text.size v - q'.gathering.cursor < budget' →
        ∃ q1', readLane S budget' q' = some q1' ∧ q1.Shifted o p q1' := by
  induction budget generalizing q with
  | zero => cases h
  | succ budget ih =>
    obtain ⟨hm, rfl⟩ | ⟨a, hm, ha, hrest⟩ := readLane_cases h
    · refine ⟨Nat.le_refl _, ?_⟩
      intro p n q' budget' _ _ hq hbudget
      obtain ⟨budget', rfl⟩ : ∃ m, budget' = m + 1 := ⟨budget' - 1, by omega⟩
      refine ⟨q', ?_, hq⟩
      rw [readLane, ← hq.lane, hm]
      rfl
    · have hg1 := Gathered.accept hg hl ha
      have hwiden := interest_stop_le_accept q a
      -- the other side makes the same attempt and takes it in
      have hstep : ∀ p n q' budget', Text.Alike u v o p n → (q.accept a).2.gathering.interest.stop ≤ o + n →
          q.Shifted o p q' → ∃ b, (q.accept a).1 = (q'.accept b).1 ∧ (q.accept a).2.Shifted o p (q'.accept b).2 ∧
            readLane S (budget' + 1) q' =
              if (q'.accept b).1 = .consumed then readLane S budget' (q'.accept b).2 else some (q'.accept b).2 := by
        intro p n q' budget' hw hn hq
        obtain ⟨b, hS, h1, h2⟩ := attempt_local hsound hlocal hb hg ha hw hn hq
        rw [hq.lane] at hm
        exact ⟨b, h1, h2, readLane_succ hm hS⟩
      obtain ⟨hconsumed, hread⟩ | ⟨hlast, rfl⟩ := hrest
      · obtain ⟨hmono, hsim⟩ := ih hread hg1 (hl.accept a)
        refine ⟨Nat.le_trans hwiden hmono, ?_⟩
        intro p n q' budget' hw hn hq hbudget
        obtain ⟨budget', rfl⟩ : ∃ m, budget' = m + 1 := ⟨budget' - 1, by omega⟩
        obtain ⟨b, h1, h2, h3⟩ := hstep p n q' budget' hw (Nat.le_trans hmono hn) hq
        have h4 := cursor_le_size hsound hb hg1 hw (Nat.le_trans hmono hn) h2.gathering
        have h5 := h2.gathering.cursor
        have h6 := hq.gathering.cursor
        have h7 := cursor_lt_of_consumed (hsound.laid _ _ _ _ ha).starts hconsumed
        rw [← h1, if_pos hconsumed] at h3
        rw [h3]
        exact hsim p n _ budget' hw hn h2 (by omega)
      · refine ⟨hwiden, ?_⟩
        intro p n q' budget' hw hn hq hbudget
        obtain ⟨budget', rfl⟩ : ∃ m, budget' = m + 1 := ⟨budget' - 1, by omega⟩
        obtain ⟨b, h1, h2, h3⟩ := hstep p n q' budget' hw hn hq
        rw [← h1, if_neg hlast] at h3
        exact ⟨_, h3, h2⟩

/-- Edges in order are read alike wherever the bytes that were looked at stand. -/
theorem readInOrder_local {entries : List (Edge × Nat)} {g g1 : Gathering} {complete : Bool}
    (he : ∀ entry ∈ entries, edges[entry.2]? = some entry.1)
    (h : readInOrder R u live entries g = some (complete, g1)) (hg : GatheredBy R edges live o g) :
    g.interest.stop ≤ g1.interest.stop ∧
      ∀ p n g', Text.Alike u v o p n → g1.interest.stop ≤ o + n → g.Shifted o p g' →
        ∃ g1', readInOrder S v live entries g' = some (complete, g1') ∧ g1.Shifted o p g1' := by
  induction entries generalizing g with
  | nil =>
    cases h
    exact ⟨Nat.le_refl _, fun p n g' _ _ hs => ⟨g', rfl, hs⟩⟩
  | cons entry entries ih =>
    obtain ⟨hedge, hedges⟩ := List.forall_mem_cons.1 he
    obtain ⟨lane, q, hl, hq, hrest⟩ := readInOrder_cases h
    have hlane := Lane.opens_of_open hedge hl
    have hg1 := readLane_gathered (fun _ _ _ _ h => h) hq hg hlane
    obtain ⟨hmono, hsim⟩ := readLane_local hsound hlocal hb hq hg hlane
    obtain ⟨hv, hread⟩ | ⟨hv, rfl, rfl⟩ := hrest
    · obtain ⟨hmono', hsim'⟩ := ih hedges hread hg1
      refine ⟨Nat.le_trans hmono hmono', ?_⟩
      intro p n g' hw hn hs
      obtain ⟨q', hq', hs'⟩ := hsim p n _ _ hw (Nat.le_trans hmono' hn) (.of_gathering hs lane false) (Nat.lt_add_one _)
      obtain ⟨g1', hg1', hs1'⟩ := hsim' p n _ hw hn hs'.gathering
      refine ⟨g1', ?_, hs1'⟩
      rw [readInOrder_cons hl hq', ← hs'.lane, hv]
      exact hg1'
    · refine ⟨hmono, ?_⟩
      intro p n g' hw hn hs
      obtain ⟨q', hq', hs'⟩ := hsim p n _ _ hw hn (.of_gathering hs lane false) (Nat.lt_add_one _)
      refine ⟨q'.gathering, ?_, hs'.gathering⟩
      rw [readInOrder_cons hl hq', ← hs'.lane, hv]
      rfl

/-- Edges of a choice are tried alike wherever the bytes that were looked at stand. -/
theorem readFirst_local {entries : List (Edge × Nat)} {g g1 : Gathering} {choice : Choice}
    (he : ∀ entry ∈ entries, edges[entry.2]? = some entry.1)
    (h : readFirst R u live entries g = some (choice, g1)) (hg : GatheredBy R edges live o g) :
    g.interest.stop ≤ g1.interest.stop ∧
      ∀ p n g', Text.Alike u v o p n → g1.interest.stop ≤ o + n → g.Shifted o p g' →
        ∃ g1', readFirst S v live entries g' = some (choice, g1') ∧ g1.Shifted o p g1' := by
  induction entries generalizing g with
  | nil =>
    cases h
    exact ⟨Nat.le_refl _, fun p n g' _ _ hs => ⟨g', rfl, hs⟩⟩
  | cons entry entries ih =>
    obtain ⟨hedge, hedges⟩ := List.forall_mem_cons.1 he
    obtain ⟨lane, q, hl, hq, hrest⟩ := readFirst_cases h
    have hlane := Lane.opens_of_open hedge hl
    have hg1 := readLane_gathered (fun _ _ _ _ h => h) hq hg hlane
    obtain ⟨hmono, hsim⟩ := readLane_local hsound hlocal hb hq hg hlane
    obtain ⟨hv, rfl, rfl⟩ | ⟨hv, hm, rfl, rfl⟩ | ⟨hv, hm, hread⟩ := hrest
    · refine ⟨hmono, ?_⟩
      intro p n g' hw hn hs
      obtain ⟨q', hq', hs'⟩ := hsim p n _ _ hw hn (.of_gathering hs lane false) (Nat.lt_add_one _)
      refine ⟨q'.gathering, ?_, hs'.gathering⟩
      rw [readFirst_cons hl hq', ← hs'.lane, hv]
      rfl
    · refine ⟨hmono, ?_⟩
      intro p n g' hw hn hs
      obtain ⟨q', hq', hs'⟩ := hsim p n _ _ hw hn (.of_gathering hs lane false) (Nat.lt_add_one _)
      refine ⟨q'.gathering, ?_, hs'.gathering⟩
      rw [readFirst_cons hl hq', ← hs'.lane, ← hs'.matched, hv, hm]
      rfl
    · obtain ⟨hmono', hsim'⟩ := ih hedges hread hg1
      refine ⟨Nat.le_trans hmono hmono', ?_⟩
      intro p n g' hw hn hs
      obtain ⟨q', hq', hs'⟩ := hsim p n _ _ hw (Nat.le_trans hmono' hn) (.of_gathering hs lane false) (Nat.lt_add_one _)
      obtain ⟨g1', hg1', hs1'⟩ := hsim' p n _ hw hn hs'.gathering
      refine ⟨g1', ?_, hs1'⟩
      rw [readFirst_cons hl hq', ← hs'.lane, ← hs'.matched, hv, hm]
      exact hg1'

/-- A pass over open edges goes alike, and moves the cursor on if it found something. -/
theorem scan_local {lanes lanes1 : List Lane} {g g1 : Gathering} {found : Bool}
    (hl : ∀ lane ∈ lanes, lane.Opens edges live) (h : scan R lanes g = some (found, lanes1, g1))
    (hg : GatheredBy R edges live o g) :
    g.interest.stop ≤ g1.interest.stop ∧ (found = true → g.cursor < g1.cursor) ∧
      ∀ p n g', Text.Alike u v o p n → g1.interest.stop ≤ o + n → g.Shifted o p g' →
        ∃ g1', scan S lanes g' = some (found, lanes1, g1') ∧ g1.Shifted o p g1' := by
  induction lanes generalizing g found lanes1 with
  | nil =>
    cases h
    exact ⟨Nat.le_refl _, by simp, fun p n g' _ _ hs => ⟨g', rfl, hs⟩⟩
  | cons lane lanes ih =>
    obtain ⟨hlane, hlanes⟩ := List.forall_mem_cons.1 hl
    obtain ⟨hm, rest, hscan, rfl⟩ | ⟨q, a, rfl, hm, ha, hrest⟩ := scan_cases h
    · obtain ⟨hmono, hfaster, hsim⟩ := ih hlanes hscan hg
      refine ⟨hmono, hfaster, ?_⟩
      intro p n g' hw hn hs
      obtain ⟨g1', hg1', hs'⟩ := hsim p n g' hw hn hs
      exact ⟨g1', by rw [scan_skip hm, hg1', Option.map_some], hs'⟩
    · have hg1 := Gathered.accept (p := { gathering := g, lane }) hg hlane ha
      have hwiden := interest_stop_le_accept { gathering := g, lane } a
      have hfast := cursor_lt_of_consumed (q := { gathering := g, lane }) (hsound.laid _ _ _ _ ha).starts
      obtain ⟨hc, rfl, rfl, rfl⟩ | ⟨hc, rest, hscan, rfl⟩ := hrest
      · refine ⟨hwiden, fun _ => hfast hc, ?_⟩
        intro p n g' hw hn hs
        have hq := Progress.Shifted.of_gathering hs lane false
        obtain ⟨b, hS, h1, h2⟩ := attempt_local hsound hlocal hb (q := { gathering := g, lane }) hg ha hw hn hq
        refine ⟨_, ?_, h2.gathering⟩
        rw [scan_consumed hm hS (h1 ▸ hc), Progress.Shifted.lane h2]
      · obtain ⟨hmono, hfaster, hsim⟩ := ih hlanes hscan hg1
        refine ⟨Nat.le_trans hwiden hmono, ?_, ?_⟩
        · intro hf
          have := cursor_le_accept (q := { gathering := g, lane }) (hsound.laid _ _ _ _ ha).starts
          exact Nat.lt_of_le_of_lt this (hfaster hf)
        · intro p n g' hw hn hs
          have hq := Progress.Shifted.of_gathering hs lane false
          obtain ⟨b, hS, h1, h2⟩ :=
            attempt_local hsound hlocal hb (q := { gathering := g, lane }) hg ha hw (Nat.le_trans hmono hn) hq
          obtain ⟨g1', hg1', hs'⟩ := hsim p n _ hw hn h2.gathering
          refine ⟨g1', ?_, hs'⟩
          rw [scan_passed hm hS (h1 ▸ hc), hg1', Progress.Shifted.lane h2, Option.map_some]

/-- Passes over open edges go alike, however large their budgets. -/
theorem scanAll_local {budget : Nat} {lanes lanes1 : List Lane} {g g1 : Gathering}
    (hl : ∀ lane ∈ lanes, lane.Opens edges live) (h : scanAll R budget lanes g = some (lanes1, g1))
    (hg : GatheredBy R edges live o g) :
    g.interest.stop ≤ g1.interest.stop ∧
      ∀ p n g' budget', Text.Alike u v o p n → g1.interest.stop ≤ o + n → g.Shifted o p g' →
        Text.size v - g'.cursor < budget' → ∃ g1', scanAll S budget' lanes g' = some (lanes1, g1') ∧ g1.Shifted o p g1' := by
  induction budget generalizing lanes g with
  | zero => cases h
  | succ budget ih =>
    obtain ⟨found, lanes2, g2, hr, hrest⟩ := scanAll_cases h
    obtain ⟨hg2, hl2⟩ := scan_gathered (fun _ _ _ _ h => h) hr hg hl
    obtain ⟨hmono, hfaster, hsim⟩ := scan_local hsound hlocal hb hl hr hg
    obtain ⟨rfl, hscan⟩ | ⟨rfl, rfl, rfl⟩ := hrest
    · obtain ⟨hmono', hsim'⟩ := ih hl2 hscan hg2
      refine ⟨Nat.le_trans hmono hmono', ?_⟩
      intro p n g' budget' hw hn hs hbudget
      obtain ⟨budget', rfl⟩ : ∃ m, budget' = m + 1 := ⟨budget' - 1, by omega⟩
      obtain ⟨g2', hg2', hs2⟩ := hsim p n g' hw (Nat.le_trans hmono' hn) hs
      have h1 := cursor_le_size hsound hb hg2 hw (Nat.le_trans hmono' hn) hs2
      have h2 := hs.cursor
      have h3 := hs2.cursor
      have h4 := hfaster rfl
      obtain ⟨g1', hg1', hs1⟩ := hsim' p n g2' budget' hw hn hs2 (by omega)
      exact ⟨g1', by rw [scanAll_succ hg2']; exact hg1', hs1⟩
    · refine ⟨hmono, ?_⟩
      intro p n g' budget' hw hn hs hbudget
      obtain ⟨budget', rfl⟩ : ∃ m, budget' = m + 1 := ⟨budget' - 1, by omega⟩
      obtain ⟨g1', hg1', hs'⟩ := hsim p n g' hw hn hs
      exact ⟨g1', by rw [scanAll_succ hg1']; rfl, hs'⟩

omit hlocal hb in
/-- A budget larger than what is left of the text is as good as any other. -/
theorem readLane_budget {budget budget' : Nat} {q : Progress}
    (hcursor : Text.isBoundary u q.gathering.cursor = true) (h : Text.size u - q.gathering.cursor < budget)
    (h' : Text.size u - q.gathering.cursor < budget') : readLane R budget q = readLane R budget' q := by
  induction budget generalizing q budget' with
  | zero => omega
  | succ budget ih =>
    obtain ⟨budget', rfl⟩ : ∃ m, budget' = m + 1 := ⟨budget' - 1, by omega⟩
    rw [readLane_turn, readLane_turn]
    split
    · cases ha : R q.lane.edge.rule q.gathering.cursor q.lane.context with
      | none => rfl
      | some a =>
        rw [Option.bind_some, Option.bind_some]
        split
        · rename_i hstep
          have hlt := cursor_lt_of_consumed (hsound.laid _ _ _ _ ha).starts hstep
          have hnext := boundary_of_consumed (hsound.covers _ _ _ _ ha) hcursor hstep
          have hle := Text.le_size_of_isBoundary hnext
          exact ih hnext (by omega) (by omega)
        · rfl
    · rfl

/-! ## Rules -/

omit [Pattern.Compiler] in
omit hsound hlocal hb in
/-- Successes of moved gatherings are moved. -/
theorem shifted_succeed {g g' : Gathering} {p : Nat} (h : g.Shifted o p g') (rule : RuleId) (chosen : Option Nat) :
    (succeed noId g rule chosen).Shifted o p (succeed noId g' rule chosen) := by
  rw [Attempt.Shifted, succeed_recast, succeed_recast, h]
  rfl

omit [Pattern.Compiler] in
omit hsound hlocal hb in
/-- Failures of moved gatherings are moved. -/
theorem shifted_fail {g g' : Gathering} {p : Nat} (h : g.Shifted o p g') (rule : RuleId) :
    (g.fail rule).Shifted o p (g'.fail rule) := by
  rw [Attempt.Shifted, fail_recast, fail_recast, h]

/-- A container in order comes to the same wherever the bytes that it looked at stand. -/
theorem inOrder_local {rule : RuleId} {a : Attempt} {p : Nat} (h : inOrder R u rule edges o live = some a)
    (hw : Text.Alike u v o p a.interest.length) :
    ∃ b, inOrder S v rule edges p live = some b ∧ a.Shifted o p b := by
  obtain ⟨⟨complete, g⟩, hr, h⟩ := Option.bind_eq_some_iff.1 h
  have hg := readInOrder_gathered (fun _ _ _ _ h => h) getElem?_of_mem_zipIdx hr .begin
  have hstart := (hg.laid hsound.laid).interest
  obtain ⟨-, hsim⟩ := readInOrder_local hsound hlocal hb getElem?_of_mem_zipIdx hr .begin
  have hinterest : a.interest = g.interest := by
    cases complete with
    | true => rw [← Option.some.inj h]; rfl
    | false => rw [← Option.some.inj h]; rfl
  rw [hinterest] at hw
  obtain ⟨g', hg', hs⟩ := hsim p _ _ hw (Nat.le_of_eq (by rw [Region.stop, hstart])) (.begin o p)
  rw [inOrder, hg']
  cases complete with
  | true => exact ⟨_, rfl, Option.some.inj h ▸ shifted_succeed hs rule none⟩
  | false => exact ⟨_, rfl, Option.some.inj h ▸ shifted_fail hs rule⟩

/-- A container of any kind comes to the same wherever the bytes that it looked at stand. -/
theorem container_local {rule : RuleId} {known : Rule} {kind : ContainerKind} {a : Attempt} {p : Nat}
    (h : container R grammar u rule known kind edges o live = some a) (hw : Text.Alike u v o p a.interest.length) :
    ∃ b, container S grammar v rule known kind edges p live = some b ∧ a.Shifted o p b := by
  cases kind with
  | inOrder => exact inOrder_local hsound hlocal hb h hw
  | anyOrder =>
    obtain ⟨lanes, hl, h⟩ := Option.bind_eq_some_iff.1 h
    obtain ⟨⟨lanes1, g⟩, hr, h⟩ := Option.bind_eq_some_iff.1 h
    have hopens := openAll_opens getElem?_of_mem_zipIdx hl
    have hg := scanAll_gathered (fun _ _ _ _ h => h) hr .begin hopens
    have hstart := (hg.laid hsound.laid).interest
    obtain ⟨-, hsim⟩ := scanAll_local hsound hlocal hb hopens hr .begin
    have hinterest : a.interest = g.interest := by
      simp only at h
      split at h
      · rw [← Option.some.inj h]; rfl
      · rw [← Option.some.inj h]; rfl
    rw [hinterest] at hw
    obtain ⟨g', hg', hs⟩ :=
      hsim p _ _ (Text.size v - p + 1) hw (Nat.le_of_eq (by rw [Region.stop, hstart])) (.begin o p) (Nat.lt_add_one _)
    simp only [container, anyOrder, hl, Option.bind_eq_bind, Option.bind_some, hg']
    simp only at h
    split at h
    · rename_i hall
      exact ⟨_, if_pos hall, Option.some.inj h ▸ shifted_succeed hs rule none⟩
    · rename_i hall
      exact ⟨_, if_neg hall, Option.some.inj h ▸ shifted_fail hs rule⟩
  | firstOrder =>
    obtain ⟨⟨choice, g⟩, hr, h⟩ := Option.bind_eq_some_iff.1 h
    have hg := readFirst_gathered (fun _ _ _ _ h => h) getElem?_of_mem_zipIdx hr .begin
    have hstart := (hg.laid hsound.laid).interest
    obtain ⟨-, hsim⟩ := readFirst_local hsound hlocal hb getElem?_of_mem_zipIdx hr .begin
    have hinterest : a.interest = g.interest := by
      cases choice with
      | chosen index => rw [← Option.some.inj h]; rfl
      | broken => rw [← Option.some.inj h]; rfl
      | none => rw [← Option.some.inj h]; rfl
    rw [hinterest] at hw
    obtain ⟨g', hg', hs⟩ := hsim p _ _ hw (Nat.le_of_eq (by rw [Region.stop, hstart])) (.begin o p)
    rw [container, firstOrder, hg']
    cases choice with
    | chosen index => exact ⟨_, rfl, Option.some.inj h ▸ shifted_succeed hs rule (some index)⟩
    | broken => exact ⟨_, rfl, Option.some.inj h ▸ shifted_fail hs rule⟩
    | none => exact ⟨_, rfl, Option.some.inj h ▸ shifted_fail hs rule⟩
  | value nonEmpty =>
    obtain ⟨inner, hi, rfl⟩ := Option.map_eq_some_iff.1 h
    rw [interest_valueOf] at hw
    obtain ⟨b, hb', hs⟩ := inOrder_local hsound hlocal hb hi hw
    refine ⟨_, by rw [container, hb', Option.map_some], ?_⟩
    rw [Attempt.Shifted, valueOf_recast _ rfl, valueOf_recast _ rfl, hs]

omit [Pattern.Compiler] in
omit hsound hlocal hb in
/-- A match in sight comes to the same. -/
theorem matched_local {rule : RuleId} {outcome : Pattern.Outcome} {a : Attempt} {p : Nat}
    (hlength : ∀ length, outcome.length = some length → length < outcome.examined)
    (h : matched u rule o outcome = some a) (hw : Text.Alike u v o p outcome.examined) :
    ∃ b, matched v rule p outcome = some b ∧ a.Shifted o p b := by
  rw [matched] at h ⊢
  cases hl : outcome.length with
  | none =>
    simp only [hl] at h ⊢
    cases h
    refine ⟨_, rfl, ?_⟩
    simp [Attempt.Shifted, Recasting.moved, Region.movedBy, Nat.add_comm]
  | some length =>
    simp only [hl] at h ⊢
    obtain ⟨text, ht, rfl⟩ := Option.map_eq_some_iff.1 h
    refine ⟨_, by rw [hw.slice?_eq (hlength length hl) ht, Option.map_some], ?_⟩
    simp [Attempt.Shifted, Recasting.moved, Region.movedBy, Nat.add_comm]

omit hsound hlocal hb in
/-- A pattern matches the same wherever the bytes that it looked at stand. -/
theorem consume_local {rule : RuleId} {binding : Binding} {context : Context} {a : Attempt} {p : Nat}
    (h : consume u rule binding o context = some a) (hw : Text.Alike u v o p a.interest.length) :
    ∃ b, consume v rule binding p context = some b ∧ a.Shifted o p b := by
  obtain ⟨pattern, hp, h⟩ := Option.bind_eq_some_iff.1 h
  split at h
  case isFalse => cases h
  case isTrue hb =>
    rw [interest_matched h] at hw
    -- the same bytes are in sight, so the match is the same
    have hmatch := pattern.matchFront_eq_of_take_eq hw.window
    have hb' := hw.isBoundary_eq (k := 0) (pattern.examined_pos _)
    rw [Nat.add_zero, Nat.add_zero, hb] at hb'
    obtain ⟨b, hv, hs⟩ := matched_local (fun _ hl => pattern.length_lt_examined _ hl) h hw
    refine ⟨b, ?_, hs⟩
    rw [consume, hp]
    simp only [Option.bind_eq_bind, Option.bind_some, ← hb', if_true, hmatch]
    exact hv

/-- Where rules come to the same, so do the rules that attempt them. -/
theorem body_local {rule : RuleId} {context : Context} {a : Attempt} {p : Nat}
    (h : body R grammar u rule o context = some a) (hw : Text.Alike u v o p a.interest.length) :
    ∃ b, body S grammar v rule p context = some b ∧ a.Shifted o p b := by
  obtain ⟨known, hk, h⟩ := Option.bind_eq_some_iff.1 h
  rw [body, hk]
  simp only [Option.bind_eq_bind, Option.bind_some]
  cases hbody : known.body with
  | consume kind binding =>
    simp only [hbody] at h
    exact consume_local h hw
  | container kind edges =>
    simp only [hbody] at h
    exact container_local hsound hlocal hb h hw
  | invoke call =>
    simp only [hbody] at h
    obtain ⟨⟨target, inside⟩, hr, h⟩ := Option.bind_eq_some_iff.1 h
    obtain ⟨inner, hi, h⟩ := Option.bind_eq_some_iff.1 h
    cases h
    rw [interest_wrap] at hw
    obtain ⟨b, hb', hs⟩ := hlocal _ _ _ _ _ hb hi hw
    simp only [hr, Option.bind_some, hb']
    refine ⟨_, rfl, ?_⟩
    rw [Attempt.Shifted, wrap_recast, wrap_recast, hs]
    rfl

end

/-- **Readings are local.** A reading depends only on the text in its region of interest. -/
theorem within_local (grammar : Grammar) (u v : String) {levels more : Nat} (hle : levels ≤ more) :
    Local u v (within grammar u levels) (within grammar v more) := by
  induction levels generalizing more with
  | zero =>
    intro r o p c a _ h
    cases h
  | succ levels ih =>
    intro r o p c a hb h hw
    obtain ⟨more, rfl⟩ : ∃ m, more = m + 1 := ⟨more - 1, by omega⟩
    exact body_local (sound_within grammar u levels) (ih (by omega)) hb h hw

/-- More levels change no reading. -/
theorem within_mono {grammar : Grammar} {u : String} {levels more : Nat} (hle : levels ≤ more) {r : RuleId} {o : Nat}
    {c : Context} {a : Attempt} (hb : Text.isBoundary u o = true) (h : within grammar u levels r o c = some a) :
    within grammar u more r o c = some a := by
  obtain ⟨b, h1, h2⟩ := within_local grammar u u hle r o o c a hb h (.refl (Text.le_size_of_isBoundary hb))
  rw [h1, Attempt.recast_moved_inj h2]

end Reading

end Graft
