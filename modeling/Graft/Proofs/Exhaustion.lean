import Graft.Proofs.Scanning
import Graft.Proofs.Tallies

/-!
# Exhausted edges

A container leaves an edge, and comes to its end, only where the edge brings nothing more: its occurrence is used up, or its rule
fails there or reads nothing. While a container in any order is scanned counts change and edges are passed over, but the scan
that ends it has tried every edge that accepts more at one offset. Here this is shown of readings.
-/

namespace Graft

open Engine

/-- An attempt fails or reads nothing. -/
def Attempt.Fruitless (a : Attempt) : Prop :=
  ∀ s, a.statement = some s → s.region.isEmpty = true

/-- Where the children of an edge end that stand between those of earlier and those of later edges. Children are marked with
the place of their edge and with their end. -/
def endOfRun (start : Nat) (marks : List (Nat × Nat)) (index : Nat) : Nat :=
  ((marks.filter (·.1 ≤ index)).getLast?.map (·.2)).getD start

/-! ## Marks -/

theorem endOfRun_append {start index : Nat} {marks later : List (Nat × Nat)} (h : ∀ mark ∈ marks, mark.1 ≤ index)
    (hl : ∀ mark ∈ later, index < mark.1) :
    endOfRun start (marks ++ later) index = (marks.getLast?.map (·.2)).getD start := by
  have hmarks : marks.filter (·.1 ≤ index) = marks := List.filter_eq_self.2 fun mark hm => decide_eq_true (h mark hm)
  have hlater : later.filter (·.1 ≤ index) = [] :=
    List.filter_eq_nil_iff.2 fun mark hm => by simpa using hl mark hm
  rw [endOfRun, List.filter_append, hmarks, hlater, List.append_nil]

theorem count_marks {index : Nat} {before own later : List (Nat × Nat)} (hb : ∀ mark ∈ before, mark.1 < index)
    (ho : ∀ mark ∈ own, mark.1 = index) (hl : ∀ mark ∈ later, index < mark.1) :
    ((before ++ own ++ later).map (·.1)).count index = own.length := by
  have hown : own.map (·.1) = List.replicate own.length index := by
    rw [List.eq_replicate_iff]
    exact ⟨List.length_map _, List.forall_mem_map.2 ho⟩
  have hbefore : index ∉ before.map (·.1) := fun hm => by
    obtain ⟨mark, hmark, rfl⟩ := List.mem_map.1 hm
    exact Nat.lt_irrefl _ (hb mark hmark)
  have hlater : index ∉ later.map (·.1) := fun hm => by
    obtain ⟨mark, hmark, rfl⟩ := List.mem_map.1 hm
    exact Nat.lt_irrefl _ (hl mark hmark)
  rw [List.map_append, List.map_append, List.count_append, List.count_append, List.count_eq_zero.2 hbefore,
    List.count_eq_zero.2 hlater, hown, List.count_replicate_self, Nat.zero_add, Nat.add_zero]

namespace Engine.Gathering

/-- The children gathered so far, marked. -/
def marks (g : Gathering) : List (Nat × Nat) :=
  g.children.toList.map fun child => (child.edge, child.statement.region.stop)

theorem map_marks (g : Gathering) : g.marks.map (·.1) = g.tags := by
  rw [marks, List.map_map]
  rfl

theorem marks_push (g : Gathering) (child : Taken) :
    (g.push child).marks = g.marks ++ [(child.edge, child.statement.region.stop)] := by
  simp [marks, push]

theorem marks_pushMany (g : Gathering) (child : Taken) (count : Nat) :
    (g.pushMany child count).marks = g.marks ++ List.replicate count (child.edge, child.statement.region.stop) := by
  rw [marks, children_pushMany, List.map_append, List.map_replicate, marks]

/-- The cursor stands where the last child ends. -/
def AtEnd (g : Gathering) : Prop :=
  g.cursor = (g.marks.getLast?.map (·.2)).getD g.start

theorem atEnd_push (g : Gathering) (child : Taken) : (g.push child).AtEnd := by
  rw [AtEnd, marks_push, List.getLast?_concat]
  rfl

theorem AtEnd.pushMany {g : Gathering} (h : g.AtEnd) (child : Taken) (count : Nat) : (g.pushMany child count).AtEnd := by
  induction count generalizing g with
  | zero => exact h
  | succ count ih => exact ih (g.atEnd_push child)

end Engine.Gathering

variable [Pattern.Compiler]

/-! ## Edges and attempts -/

/-- Where rules bring no text: at which offsets and in which contexts. -/
abbrev Places := RuleId → Nat → Context → Prop

/-- An edge with so many children brings nothing more at an offset: its occurrence accepts no more, or its rule brings no text
there. As for what is fulfilled, this is said of occurrences whose numbers are sizes. -/
def Edge.Exhausted (F : Places) (edge : Edge) (live : Context) (count offset : Nat) : Prop :=
  ∃ occurrence, (edge.context live).resolveOccurrence edge.occurrence = .ok occurrence ∧
    ((occurrence.Sized → occurrence.acceptsMore count = false) ∨ F edge.rule offset (edge.context live))

/-- An edge was not read as often as its occurrence wants. -/
def Edge.Lacking (edge : Edge) (live : Context) (count : Nat) : Prop :=
  ∃ occurrence, (edge.context live).resolveOccurrence edge.occurrence = .ok occurrence ∧
    (occurrence.Sized → occurrence.isValid count = false)

/-- A container with marked children leaves nothing to its edges. An edge that was read in its turn brings nothing more where its
children end, and neither does the edge that was chosen. Where edges are read in any order, none of them brings more at the
end. -/
def ContainerKind.Exhausts (F : Places) (kind : ContainerKind) (edges : List Edge) (live : Context) (start stop : Nat)
    (marks : List (Nat × Nat)) (chosen : Option Nat) : Prop :=
  match kind with
  | .inOrder | .value _ =>
    ∀ (index : Nat) (edge : Edge), edges[index]? = some edge →
      edge.Exhausted F live ((marks.map (·.1)).count index) (endOfRun start marks index)
  | .firstOrder =>
    ∃ index edge, chosen = some index ∧ edges[index]? = some edge ∧
      edge.Exhausted F live ((marks.map (·.1)).count index) (endOfRun start marks index)
  | .anyOrder =>
    ∀ (index : Nat) (edge : Edge), edges[index]? = some edge →
      edge.Exhausted F live ((marks.map (·.1)).count index) stop

/-- What is gathered ends with its last child. -/
theorem Gathered.atEnd {P : Claim} {edges : List Edge} {live : Context} {offset : Nat} {g : Gathering}
    (h : Gathered P edges live offset g) : g.AtEnd := by
  induction h with
  | begin => rfl
  | @accept p a _ _ _ ih =>
    cases hs : a.statement with
    | none =>
      rw [Progress.accept_failure hs]
      exact ih
    | some s =>
      cases he : s.region.isEmpty with
      | true =>
        rw [Progress.accept_empty hs he]
        exact Gathering.AtEnd.pushMany (g := p.gathering.look a.interest) ih _ _
      | false =>
        rw [Progress.accept_consumed hs he]
        exact Gathering.atEnd_push _ _

theorem Engine.Progress.accept_marks (p : Progress) (a : Attempt) :
    ∃ added, (p.accept a).2.gathering.marks = p.gathering.marks ++ added := by
  cases hs : a.statement with
  | none =>
    rw [accept_failure hs]
    exact ⟨[], (List.append_nil _).symm⟩
  | some s =>
    cases he : s.region.isEmpty with
    | true =>
      rw [accept_empty hs he]
      exact ⟨_, Gathering.marks_pushMany _ _ _⟩
    | false =>
      rw [accept_consumed hs he]
      exact ⟨_, Gathering.marks_push _ _⟩

/-- Taking in attempts keeps the children that are there. -/
theorem Taking.marks {lanes lanes' : List Lane} {g g' : Gathering} (h : Taking lanes g lanes' g') :
    ∃ added, g'.marks = g.marks ++ added := by
  induction h with
  | refl => exact ⟨[], (List.append_nil _).symm⟩
  | @step lanes lanes' g' i p a _ _ _ ih =>
    obtain ⟨added, h1⟩ := p.accept_marks a
    obtain ⟨later, h2⟩ := ih
    exact ⟨added ++ later, by rw [h2, h1, List.append_assoc]⟩

theorem Taking.length_eq {lanes lanes' : List Lane} {g g' : Gathering} (h : Taking lanes g lanes' g') :
    lanes'.length = lanes.length := by
  induction h with
  | refl => rfl
  | step _ _ _ _ ih => rw [ih, List.length_set]

/-- An attempt that is not consumed is fruitless. -/
theorem Engine.Progress.fruitless_of_not_consumed {p : Progress} {a : Attempt} (h : (p.accept a).1 ≠ .consumed) :
    a.Fruitless := by
  intro s hs
  cases he : s.region.isEmpty with
  | true => rfl
  | false => exact absurd (by rw [accept_consumed hs he]) h

namespace Reading

/-! ## Attempts that are taken in -/

/-- A lane is spent at a place: it accepts no more, or its attempt is fruitless. -/
def Spent (O : Oracle) (place : Nat) (lane : Lane) : Prop :=
  lane.counter.acceptsMore = false ∨ ∃ a, O lane.edge.rule place lane.context = some a ∧ a.Fruitless

section

variable {R : Oracle}

theorem readLane_leads {budget : Nat} {p q : Progress} (h : readLane R budget p = some q) : p.Leads q := by
  induction budget generalizing p with
  | zero => cases h
  | succ budget ih =>
    obtain ⟨_, rfl⟩ | ⟨a, hm, _, ⟨_, hrest⟩ | ⟨_, rfl⟩⟩ := readLane_cases h
    · exact .refl _
    · exact (Progress.Leads.accept a hm).trans (ih hrest)
    · exact .accept a hm

theorem scan_taking {lanes lanes' : List Lane} {g g' : Gathering} {found : Bool}
    (h : scan R lanes g = some (found, lanes', g')) : Taking lanes g lanes' g' := by
  induction lanes generalizing g lanes' with
  | nil =>
    cases h
    exact .refl _ _
  | cons lane lanes ih =>
    obtain ⟨_, rest, hrest, rfl⟩ | ⟨p, a, rfl, hm, _, ⟨_, _, rfl, rfl⟩ | ⟨_, rest, hrest, rfl⟩⟩ := scan_cases h
    · exact (ih hrest).cons lane
    · exact .step (p := { gathering := g, lane }) (i := 0) a rfl hm (.refl _ _)
    · exact .step (p := { gathering := g, lane }) (i := 0) a rfl hm ((ih hrest).cons _)

theorem scanAll_taking {budget : Nat} {lanes lanes' : List Lane} {g g' : Gathering}
    (h : scanAll R budget lanes g = some (lanes', g')) : Taking lanes g lanes' g' := by
  induction budget generalizing lanes g with
  | zero => cases h
  | succ budget ih =>
    obtain ⟨found, lanes1, g1, hs, ⟨_, hrest⟩ | ⟨_, rfl, rfl⟩⟩ := scanAll_cases h
    · exact (scan_taking hs).trans (ih hrest)
    · exact scan_taking hs

/-! ## Edges that are left -/

variable (hR : ∀ r o c a, R r o c = some a → a.Starts o)
include hR

/-- Where an edge is left, its lane is spent. -/
theorem readLane_spent {budget : Nat} {p q : Progress} (h : readLane R budget p = some q) :
    Spent R q.gathering.cursor q.lane := by
  induction budget generalizing p with
  | zero => cases h
  | succ budget ih =>
    obtain ⟨hm, rfl⟩ | ⟨a, _, ha, ⟨_, hrest⟩ | ⟨hc, rfl⟩⟩ := readLane_cases h
    · exact Or.inl hm
    · exact ih hrest
    · obtain ⟨_, hedge, hcontext⟩ := p.lane_accept a
      refine Or.inr ⟨a, ?_, Progress.fruitless_of_not_consumed hc⟩
      rw [cursor_of_not_consumed (hR _ _ _ _ ha) hc, hedge, hcontext]
      exact ha

/-- A scan that finds nothing stays where it is, and leaves all lanes spent there. What an edge without text is taken for changes
counts only. -/
theorem scan_spent {lanes lanes' : List Lane} {g g' : Gathering} (h : scan R lanes g = some (false, lanes', g')) :
    g'.cursor = g.cursor ∧ ∀ lane ∈ lanes', Spent R g.cursor lane := by
  induction lanes generalizing g lanes' with
  | nil =>
    cases h
    exact ⟨rfl, fun lane hm => absurd hm List.not_mem_nil⟩
  | cons lane lanes ih =>
    obtain ⟨hm, rest, hrest, rfl⟩ | ⟨p, a, rfl, _, ha, ⟨_, hfound, _⟩ | ⟨hc, rest, hrest, rfl⟩⟩ := scan_cases h
    · obtain ⟨hcursor, hspent⟩ := ih hrest
      exact ⟨hcursor, List.forall_mem_cons.2 ⟨Or.inl hm, hspent⟩⟩
    · cases hfound
    · obtain ⟨hcursor, hspent⟩ := ih hrest
      obtain ⟨_, hedge, hcontext⟩ := Progress.lane_accept { gathering := g, lane } a
      rw [cursor_of_not_consumed (q := { gathering := g, lane }) (hR _ _ _ _ ha) hc] at hcursor hspent
      refine ⟨hcursor, List.forall_mem_cons.2 ⟨Or.inr ⟨a, ?_, Progress.fruitless_of_not_consumed hc⟩, hspent⟩⟩
      rw [hedge, hcontext]
      exact ha

/-- **Scanning ends where no edge brings more**: all lanes are spent at one place, where the last child ends. -/
theorem scanAll_spent {budget : Nat} {lanes lanes' : List Lane} {g g' : Gathering}
    (h : scanAll R budget lanes g = some (lanes', g')) : ∀ lane ∈ lanes', Spent R g'.cursor lane := by
  induction budget generalizing lanes g with
  | zero => cases h
  | succ budget ih =>
    obtain ⟨found, lanes1, g1, hs, ⟨_, hrest⟩ | ⟨rfl, rfl, rfl⟩⟩ := scanAll_cases h
    · exact ih hrest
    · obtain ⟨hcursor, hspent⟩ := scan_spent hR hs
      rw [hcursor]
      exact hspent

end

end Reading

namespace Engine.Lane.Tallies

variable {edge : Edge} {live : Context} {count : Nat} {lane : Lane}

/-- An edge whose lane is spent is exhausted. -/
theorem exhausted {O : Reading.Oracle} {F : Places} {offset : Nat} (h : lane.Tallies edge live count)
    (hs : Reading.Spent O offset lane)
    (hF : ∀ a, O edge.rule offset (edge.context live) = some a → a.Fruitless → F edge.rule offset (edge.context live)) :
    edge.Exhausted F live count offset := by
  refine ⟨_, h.occurrence, ?_⟩
  rcases hs with hm | ⟨a, ha, hfruitless⟩
  · refine Or.inl fun hsized => ?_
    rw [← h.count hsized]
    exact hm
  · rw [h.reads, h.context] at ha
    exact Or.inr (hF a ha hfruitless)

/-- An edge whose count is not valid is lacking. -/
theorem lacking (h : lane.Tallies edge live count) (hv : lane.counter.isValid = false) : edge.Lacking live count := by
  refine ⟨_, h.occurrence, fun hsized => ?_⟩
  rw [← h.count hsized]
  exact hv

end Engine.Lane.Tallies

namespace Reading

/-! ## Containers -/

/-- The lanes of a container in any order, and what it has gathered, when scanning has come to its end. -/
def scanned (R : Oracle) (input : String) (edges : List Edge) (offset : Nat) (live : Context) :
    Option (List Lane × Gathering) := do
  let lanes ← openAll live edges.zipIdx
  scanAll R (Text.size input - offset + 1) lanes (.begin offset)

/-- A container in any order succeeds where all counts are valid when scanning has come to its end. -/
theorem anyOrder_eq (R : Oracle) (input : String) (rule : RuleId) (edges : List Edge) (offset : Nat) (live : Context) :
    anyOrder R input rule edges offset live = (scanned R input edges offset live).map fun r =>
      if r.1.all (·.counter.isValid) then succeed noId r.2 rule none else r.2.fail rule := by
  rw [anyOrder, scanned]
  cases openAll live edges.zipIdx with
  | none => rfl
  | some lanes =>
    simp only [Option.bind_eq_bind, Option.bind_some]
    cases scanAll R (Text.size input - offset + 1) lanes (.begin offset) with
    | none => rfl
    | some r =>
      simp only [Option.bind_some, Option.map_some]
      split <;> rfl

section

variable {grammar : Grammar} {input : String} {R : Oracle} {F : Places} {edges : List Edge} {live : Context} {offset : Nat}
  (hO : Sound grammar input R)
  (hF : ∀ r o c a, R r o c = some a → Text.isBoundary input o = true → a.Fruitless → F r o c)
  (hb : Text.isBoundary input offset = true)
include hO hF hb

/-- Where an edge is left that was read in its turn, it has added its own children and is exhausted behind them. -/
theorem readLane_exhausts {g : Gathering} (hg : GatheredBy R edges live offset g) {index : Nat} {edge : Edge}
    (he : edges[index]? = some edge) {lane : Lane} (hl : Lane.open index edge live = .ok lane) {budget : Nat}
    {q : Progress} (h : readLane R budget { gathering := g, lane } = some q) :
    GatheredBy R edges live offset q.gathering ∧ ∃ own, q.gathering.marks = g.marks ++ own ∧
      (∀ mark ∈ own, mark.1 = index) ∧ (q.matched = false → own = []) ∧
      edge.Exhausted F live own.length q.gathering.cursor := by
  have hq := readLane_gathered (fun _ _ _ _ h => h) h hg (Lane.opens_of_open he hl)
  have hleads := readLane_leads h
  obtain ⟨own, hmarks⟩ := hleads.taking.marks
  obtain ⟨count, htags, htally, hunmatched⟩ := hleads.tally hl
  have hown : own.map (·.1) = List.replicate count index := by
    rw [← Gathering.map_marks, ← Gathering.map_marks, hmarks, List.map_append] at htags
    exact List.append_cancel_left htags
  have hlength : own.length = count := by simpa using congrArg List.length hown
  have hcursor := (Text.slice?_eq_some_iff.1 (hq.covers hO.covers hb).text).2.1
  refine ⟨hq, own, hmarks, fun mark hm => ?_, fun hm => ?_, ?_⟩
  · exact List.eq_of_mem_replicate (hown ▸ List.mem_map_of_mem hm)
  · exact List.length_eq_zero_iff.1 (hlength.trans (hunmatched hm))
  · rw [hlength]
    exact htally.exhausted (readLane_spent (fun _ _ _ _ ha => (hO.laid _ _ _ _ ha).starts) h) fun a ha hf =>
      hF _ _ _ a ha hcursor hf

/-- Edges that were read one after the other are exhausted, each where its children end. -/
theorem readInOrder_exhausts {entries : List Edge} {start : Nat}
    (he : ∀ (i : Nat) (edge : Edge), entries[i]? = some edge → edges[start + i]? = some edge) {g g' : Gathering}
    (hg : GatheredBy R edges live offset g) (hbefore : ∀ mark ∈ g.marks, mark.1 < start)
    (h : readInOrder R input live (entries.zipIdx start) g = some (true, g')) :
    GatheredBy R edges live offset g' ∧ ∃ added, g'.marks = g.marks ++ added ∧ (∀ mark ∈ added, start ≤ mark.1) ∧
      ∀ (i : Nat) (edge : Edge), entries[i]? = some edge →
        edge.Exhausted F live (g'.tags.count (start + i)) (endOfRun offset g'.marks (start + i)) := by
  induction entries generalizing start g with
  | nil =>
    cases h
    exact ⟨hg, [], (List.append_nil _).symm, by simp, by simp⟩
  | cons edge entries ih =>
    rw [List.zipIdx_cons] at h
    obtain ⟨lane, q, hl, hq, hafter⟩ := readInOrder_cases h
    obtain ⟨hgathered, own, hmarks, hown, _, hexhausted⟩ := readLane_exhausts hO hF hb hg (he 0 edge rfl) hl hq
    obtain ⟨_, h⟩ | ⟨_, hincomplete, _⟩ := hafter
    · have hupto : ∀ mark ∈ q.gathering.marks, mark.1 < start + 1 := by
        rw [hmarks]
        refine List.forall_mem_append.2 ⟨fun mark hm => ?_, fun mark hm => ?_⟩
        · exact Nat.lt_succ_of_lt (hbefore mark hm)
        · exact Nat.lt_succ_of_le (Nat.le_of_eq (hown mark hm))
      obtain ⟨hfinal, later, hlater, hbehind, hrest⟩ := ih (fun i other hi => by
          rw [Nat.add_assoc, Nat.add_comm 1]
          exact he (i + 1) other hi) hgathered hupto h
      refine ⟨hfinal, own ++ later, by rw [hlater, hmarks, List.append_assoc], ?_, ?_⟩
      · refine List.forall_mem_append.2 ⟨fun mark hm => Nat.le_of_eq (hown mark hm).symm, fun mark hm => ?_⟩
        exact Nat.le_of_succ_le (hbehind mark hm)
      · intro i other hi
        cases i with
        | zero =>
          cases hi
          -- later edges add no children to the run of this one
          have hcount : g'.tags.count start = own.length := by
            rw [← Gathering.map_marks, hlater, hmarks]
            exact count_marks hbefore hown hbehind
          have hend : endOfRun offset g'.marks start = q.gathering.cursor := by
            rw [hlater, endOfRun_append (fun mark hm => Nat.le_of_lt_succ (hupto mark hm)) hbehind, hgathered.atEnd,
              (hgathered.laid hO.laid).start]
          rw [Nat.add_zero, hcount, hend]
          exact hexhausted
        | succ i =>
          rw [← Nat.add_assoc, Nat.add_right_comm]
          exact hrest i other hi
    · cases hincomplete

/-- The edge that was chosen is exhausted where its children end. -/
theorem readFirst_exhausts {entries : List (Edge × Nat)} (he : ∀ entry ∈ entries, edges[entry.2]? = some entry.1)
    {g g' : Gathering} (hg : GatheredBy R edges live offset g) (hnone : g.marks = []) {index : Nat}
    (h : readFirst R input live entries g = some (.chosen index, g')) :
    GatheredBy R edges live offset g' ∧ ∃ edge, edges[index]? = some edge ∧
      edge.Exhausted F live (g'.tags.count index) (endOfRun offset g'.marks index) := by
  induction entries generalizing g with
  | nil => cases h
  | cons entry entries ih =>
    obtain ⟨edge, place⟩ := entry
    obtain ⟨hedge, hedges⟩ := List.forall_mem_cons.1 he
    obtain ⟨lane, q, hl, hq, hrest⟩ := readFirst_cases h
    obtain ⟨hgathered, own, hmarks, hown, hunmatched, hexhausted⟩ := readLane_exhausts hO hF hb hg hedge hl hq
    rw [hnone, List.nil_append] at hmarks
    obtain ⟨_, hchosen, rfl⟩ | ⟨_, _, hbroken, _⟩ | ⟨_, hm, h⟩ := hrest
    · obtain rfl : index = place := Choice.chosen.inj hchosen
      have hcount : q.gathering.tags.count index = own.length := by
        rw [← Gathering.map_marks, hmarks]
        simpa using @count_marks index [] own [] (by simp) hown (by simp)
      have hend : endOfRun offset q.gathering.marks index = q.gathering.cursor := by
        rw [← List.append_nil q.gathering.marks, endOfRun_append (by rw [hmarks]; exact fun mark hm => Nat.le_of_eq (hown mark hm))
          (by simp), hgathered.atEnd, (hgathered.laid hO.laid).start]
      refine ⟨hgathered, edge, hedge, ?_⟩
      rw [hcount, hend]
      exact hexhausted
    · cases hbroken
    · rw [hunmatched hm] at hmarks
      exact ih hedges hgathered hmarks h

/-- A container in order that succeeds has exhausted its edges. -/
theorem inOrder_exhausts {rule : RuleId} {a : Attempt} (h : inOrder R input rule edges offset live = some a) {s : Statement}
    (hs : a.statement = some s) : ∃ g, GatheredBy R edges live offset g ∧ a = succeed noId g rule none ∧
      ∀ (index : Nat) (edge : Edge), edges[index]? = some edge →
        edge.Exhausted F live (g.tags.count index) (endOfRun offset g.marks index) := by
  obtain ⟨⟨complete, g⟩, hr, h⟩ := Option.bind_eq_some_iff.1 h
  cases complete with
  | true =>
    obtain ⟨hg, _, _, _, hexhausted⟩ := readInOrder_exhausts hO hF hb
      (fun i edge hi => by rw [Nat.zero_add]; exact hi) .begin (by simp [Gathering.marks, Gathering.begin]) hr
    refine ⟨g, hg, (Option.some.inj h).symm, fun index edge he => ?_⟩
    have hindex := hexhausted index edge he
    rw [Nat.zero_add] at hindex
    exact hindex
  | false =>
    cases h
    cases hs

/-- When scanning has come to its end all edges are exhausted there. -/
theorem scanned_exhausts {lanes : List Lane} {g : Gathering} (h : scanned R input edges offset live = some (lanes, g)) :
    GatheredBy R edges live offset g ∧ ∀ (index : Nat) (edge : Edge), edges[index]? = some edge →
      edge.Exhausted F live (g.tags.count index) g.cursor := by
  obtain ⟨opened, hl, h⟩ := Option.bind_eq_some_iff.1 h
  have hg := scanAll_gathered (fun _ _ _ _ h => h) h (.begin (P := fun r o c a => R r o c = some a))
    (openAll_opens getElem?_of_mem_zipIdx hl)
  have hcursor := (Text.slice?_eq_some_iff.1 (hg.covers hO.covers hb).text).2.1
  refine ⟨hg, fun index edge he => ?_⟩
  obtain ⟨lane, hi, htally⟩ := (scanAll_taking h).tally hl he
  have hspent := scanAll_spent (fun _ _ _ _ ha => (hO.laid _ _ _ _ ha).starts) h lane (List.mem_of_getElem? hi)
  exact htally.exhausted hspent fun a ha hf => hF _ _ _ a ha hcursor hf

omit hO hF hb in
/-- If not all counts are valid then, some edge is lacking. -/
theorem scanned_lacking {lanes : List Lane} {g : Gathering} (h : scanned R input edges offset live = some (lanes, g))
    (hv : lanes.all (·.counter.isValid) = false) :
    ∃ (index : Nat) (edge : Edge), edges[index]? = some edge ∧ edge.Lacking live (g.tags.count index) := by
  obtain ⟨opened, hl, h⟩ := Option.bind_eq_some_iff.1 h
  obtain ⟨lane, hm, hinvalid⟩ := List.all_eq_false.1 hv
  obtain ⟨index, hi⟩ := List.mem_iff_getElem?.1 hm
  have htaking := scanAll_taking h
  -- the lane stands at the place of an edge
  obtain ⟨hlt, _⟩ := List.getElem?_eq_some_iff.1 hi
  rw [htaking.length_eq] at hlt
  have he := ((ReadAll.of_edges hl) index _ (List.getElem?_eq_getElem hlt)).edge
  obtain ⟨lane', hi', htally⟩ := htaking.tally hl he
  obtain rfl : lane = lane' := Option.some.inj (hi.symm.trans hi')
  exact ⟨index, _, he, htally.lacking (Bool.not_eq_true _ ▸ hinvalid)⟩

end

end Reading

end Graft
