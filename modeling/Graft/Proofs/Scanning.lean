import Graft.Proofs.Counting
import Graft.Proofs.Locality

/-!
# Scanning in any order

A container in any order tries its edges in turn. An edge is idle at a place where it can neither bring a child nor has to.
Trying idle edges changes nothing but where was looked, so a scan comes to the same, up to that, as one that starts behind
the child of an edge, when all edges before that one are idle.
-/

namespace Graft

open Engine

variable [Pattern.Compiler]

namespace Reading

/-- An edge is idle at a place: it accepts no more, or its attempt fails, or it reads nothing and nothing is missing. -/
def Idle (O : Oracle) (place : Nat) (lane : Lane) : Prop :=
  lane.counter.acceptsMore = true → ∃ a, O lane.edge.rule place lane.context = some a ∧
    ∀ s, a.statement = some s → s.region.isEmpty = true ∧ lane.counter.missing = 0

/-- Lanes and what has been gathered, up to where was looked. -/
def faintly (r : List Lane × Gathering) : List Lane × Gathering :=
  (r.1, r.2.recast .faint)

/-- What scanning on comes to, up to where was looked. -/
def settled (O : Oracle) (input : String) (lanes : List Lane) (g : Gathering) : Option (List Lane × Gathering) :=
  (scanAll O (Text.size input - g.cursor + 1) lanes g).map faintly

/-- Taking in what an idle edge comes to changes nothing but where was looked. -/
theorem accept_idle {p : Progress} {a : Attempt} (hf : p.lane.counter.Fits)
    (h : ∀ s, a.statement = some s → s.region.isEmpty = true ∧ p.lane.counter.missing = 0) :
    (p.accept a).1 ≠ .consumed ∧ (p.accept a).2.lane = p.lane ∧
      (p.accept a).2.gathering.recast .faint = p.gathering.recast .faint := by
  have hlook : ∀ region, (p.gathering.look region).recast .faint = p.gathering.recast .faint := by
    intro region
    simp [Gathering.look, Gathering.recast, Recasting.faint]
  cases hs : a.statement with
  | none =>
    rw [Progress.accept_failure hs]
    exact ⟨by simp, rfl, hlook _⟩
  | some s =>
    obtain ⟨he, hm⟩ := h s hs
    rw [Progress.accept_empty hs he, Counter.addMissing_of_missing hf hm, hm]
    exact ⟨by simp, rfl, hlook _⟩

section

variable {O : Oracle} {m : Recasting} {lanes : List Lane} {g g' : Gathering}

omit [Pattern.Compiler] in
theorem cursor_eq_of_recast (h : g.recast m = g'.recast m) : g.cursor = g'.cursor :=
  Nat.add_right_cancel (congrArg Gathering.cursor h)

/-- What a scan comes to depends on what was gathered only up to identities, places and regions of interest. -/
theorem scan_congr (h : g.recast m = g'.recast m) :
    (scan O lanes g).map (fun r => (r.1, r.2.1, r.2.2.recast m)) =
      (scan O lanes g').map fun r => (r.1, r.2.1, r.2.2.recast m) := by
  induction lanes generalizing g g' with
  | nil => simp [scan, h]
  | cons lane lanes ih =>
    cases hm : lane.counter.acceptsMore with
    | false =>
      have h1 := congrArg (Option.map fun r => (r.1, lane :: r.2.1, r.2.2)) (ih h)
      rw [Option.map_map, Option.map_map] at h1
      rw [scan_skip hm, scan_skip hm, Option.map_map, Option.map_map]
      exact h1
    | true =>
      have hcursor := cursor_eq_of_recast h
      cases ha : O lane.edge.rule g.cursor lane.context with
      | none =>
        have ha' := ha
        rw [hcursor] at ha'
        simp [scan, hm, ha, ha']
      | some a =>
        have ha' := ha
        rw [hcursor] at ha'
        have hp : Progress.recast m { gathering := g, lane } = Progress.recast m { gathering := g', lane } := by
          simp only [Progress.recast, h]
        obtain ⟨h1, h2⟩ := Progress.accept_congr hp (rfl : a.recast m = a.recast m)
        have hlane := congrArg Progress.lane h2
        have hgathering := congrArg Progress.gathering h2
        simp only [Progress.recast] at hlane hgathering
        by_cases hc : (Progress.accept { gathering := g, lane } a).1 = .consumed
        · rw [scan_consumed hm ha hc, scan_consumed hm ha' (h1 ▸ hc)]
          simp only [Option.map_some, hlane, hgathering]
        · have h3 := congrArg (Option.map fun r => (r.1, (Progress.accept { gathering := g', lane } a).2.lane :: r.2.1, r.2.2))
            (ih hgathering)
          rw [Option.map_map, Option.map_map] at h3
          rw [scan_passed hm ha hc, scan_passed hm ha' (h1 ▸ hc), Option.map_map, Option.map_map, hlane]
          exact h3

theorem scanAll_congr {budget : Nat} (h : g.recast m = g'.recast m) :
    (scanAll O budget lanes g).map (fun r => (r.1, r.2.recast m)) =
      (scanAll O budget lanes g').map fun r => (r.1, r.2.recast m) := by
  induction budget generalizing lanes g g' with
  | zero => rfl
  | succ budget ih =>
    have hscan := @scan_congr _ O m lanes g g' h
    cases hs : scan O lanes g with
    | none =>
      rw [hs, Option.map_none] at hscan
      have hs' := Option.map_eq_none_iff.1 hscan.symm
      simp [scanAll, hs, hs']
    | some r =>
      obtain ⟨found, lanes1, g1⟩ := r
      rw [hs, Option.map_some] at hscan
      obtain ⟨⟨found', lanes1', g1'⟩, hs', heq⟩ := Option.map_eq_some_iff.1 hscan.symm
      simp only [Prod.mk.injEq] at heq
      obtain ⟨rfl, rfl, h1⟩ := heq
      rw [scanAll_succ hs, scanAll_succ hs']
      cases found' with
      | true => exact ih h1.symm
      | false => simp [h1]

/-- Trying an idle edge first changes nothing but where was looked. -/
theorem scan_idle {lane : Lane} (hf : lane.counter.Fits) (hi : Idle O g.cursor lane) :
    (scan O (lane :: lanes) g).map (fun r => (r.1, faintly r.2)) =
      (scan O lanes g).map fun r => (r.1, faintly (lane :: r.2.1, r.2.2)) := by
  cases hm : lane.counter.acceptsMore with
  | false =>
    rw [scan_skip hm, Option.map_map]
    rfl
  | true =>
    obtain ⟨a, ha, hnothing⟩ := hi hm
    obtain ⟨h1, h2, h3⟩ := accept_idle (p := { gathering := g, lane }) hf hnothing
    have h4 := congrArg (Option.map fun r => (r.1, lane :: r.2.1, r.2.2)) (@scan_congr _ O _ lanes _ _ h3)
    rw [Option.map_map, Option.map_map] at h4
    rw [scan_passed hm ha h1, Option.map_map, h2]
    exact h4

/-- Trying idle edges first changes nothing but where was looked. -/
theorem scan_idle_append {front : List Lane} (hf : ∀ lane ∈ front, lane.counter.Fits)
    (hi : ∀ lane ∈ front, Idle O g.cursor lane) :
    (scan O (front ++ lanes) g).map (fun r => (r.1, faintly r.2)) =
      (scan O lanes g).map fun r => (r.1, faintly (front ++ r.2.1, r.2.2)) := by
  induction front with
  | nil => rfl
  | cons lane front ih =>
    have h1 := congrArg (Option.map fun r => (r.1, lane :: r.2.1, r.2.2))
      (ih (fun other hm => hf other (List.mem_cons_of_mem _ hm)) fun other hm => hi other (List.mem_cons_of_mem _ hm))
    rw [Option.map_map, Option.map_map] at h1
    rw [List.cons_append, scan_idle (hf lane (List.mem_cons_self ..)) (hi lane (List.mem_cons_self ..))]
    exact h1

/-- Where all edges are idle a scan finds nothing. -/
theorem scan_all_idle (hf : ∀ lane ∈ lanes, lane.counter.Fits) (hi : ∀ lane ∈ lanes, Idle O g.cursor lane) :
    (scan O lanes g).map (fun r => (r.1, faintly r.2)) = some (false, faintly (lanes, g)) := by
  have h := @scan_idle_append _ O [] g lanes hf hi
  rw [List.append_nil] at h
  rw [h, scan, Option.map_some, List.append_nil]

end

/-! ## Scanning on -/

section

variable {grammar : Grammar} {input : String} {O : Oracle} (hO : Sound grammar input O)
include hO

/-- A scan goes on to a boundary, and further on when it finds something. -/
theorem scan_forward {lanes lanes1 : List Lane} {g g1 : Gathering} {found : Bool}
    (hb : Text.isBoundary input g.cursor = true) (h : scan O lanes g = some (found, lanes1, g1)) :
    Text.isBoundary input g1.cursor = true ∧ (found = true → g.cursor < g1.cursor) := by
  induction lanes generalizing g found lanes1 with
  | nil =>
    cases h
    exact ⟨hb, by simp⟩
  | cons lane lanes ih =>
    cases hm : lane.counter.acceptsMore with
    | false =>
      rw [scan_skip hm] at h
      obtain ⟨⟨found', rest, g2⟩, h1, h2⟩ := Option.map_eq_some_iff.1 h
      cases h2
      exact ih hb h1
    | true =>
      cases ha : O lane.edge.rule g.cursor lane.context with
      | none => simp [scan, hm, ha] at h
      | some a =>
        by_cases hc : (Progress.accept { gathering := g, lane } a).1 = .consumed
        · rw [scan_consumed hm ha hc] at h
          cases h
          exact ⟨boundary_of_consumed (q := { gathering := g, lane }) (hO.covers _ _ _ _ ha) hb hc,
            fun _ => cursor_lt_of_consumed (q := { gathering := g, lane }) (hO.laid _ _ _ _ ha).starts hc⟩
        · have hcursor := cursor_of_not_consumed (q := { gathering := g, lane }) (hO.laid _ _ _ _ ha).starts hc
          rw [scan_passed hm ha hc] at h
          obtain ⟨⟨found', rest, g2⟩, h1, h2⟩ := Option.map_eq_some_iff.1 h
          cases h2
          have h3 := ih (by rw [hcursor]; exact hb) h1
          rw [hcursor] at h3
          exact h3

/-- A budget larger than what is left of the text is as good as any other. -/
theorem scanAll_budget {budget budget' : Nat} {lanes : List Lane} {g : Gathering}
    (hb : Text.isBoundary input g.cursor = true) (h : Text.size input - g.cursor < budget)
    (h' : Text.size input - g.cursor < budget') : scanAll O budget lanes g = scanAll O budget' lanes g := by
  induction budget generalizing lanes g budget' with
  | zero => omega
  | succ budget ih =>
    obtain ⟨budget', rfl⟩ : ∃ k, budget' = k + 1 := ⟨budget' - 1, by omega⟩
    cases hs : scan O lanes g with
    | none => simp [scanAll, hs]
    | some r =>
      obtain ⟨found, lanes1, g1⟩ := r
      rw [scanAll_succ hs, scanAll_succ hs]
      cases found with
      | false => rfl
      | true =>
        obtain ⟨h1, h2⟩ := scan_forward hO hb hs
        have h3 := h2 rfl
        have h4 := Text.le_size_of_isBoundary h1
        exact ih h1 (by omega) (by omega)

end

section

variable {grammar : Grammar} {input : String} {O : Oracle} {lanes : List Lane} {g g' : Gathering}

/-- What scanning on comes to does not depend on where was looked before. -/
theorem settled_congr (h : g.recast .faint = g'.recast .faint) : settled O input lanes g = settled O input lanes g' := by
  rw [settled, settled, cursor_eq_of_recast h]
  exact scanAll_congr h

/-- Scanning on ends where a scan finds nothing. -/
theorem settled_of_not_found {r : List Lane × Gathering}
    (h : (scan O lanes g).map (fun r => (r.1, faintly r.2)) = some (false, r)) : settled O input lanes g = some r := by
  obtain ⟨⟨found, lanes1, g1⟩, hs, heq⟩ := Option.map_eq_some_iff.1 h
  cases heq
  rw [settled, scanAll_succ hs]
  rfl

/-- Scanning on goes on from what a scan finds. -/
theorem settled_of_found (hO : Sound grammar input O) (hb : Text.isBoundary input g.cursor = true) {lanes1 : List Lane}
    {g1 : Gathering} (h : (scan O lanes g).map (fun r => (r.1, faintly r.2)) = some (true, faintly (lanes1, g1))) :
    settled O input lanes g = settled O input lanes1 g1 := by
  obtain ⟨⟨found, lanes2, g2⟩, hs, heq⟩ := Option.map_eq_some_iff.1 h
  simp only [faintly, Prod.mk.injEq] at heq
  obtain ⟨rfl, rfl, h1⟩ := heq
  obtain ⟨h2, h3⟩ := scan_forward hO hb hs
  have h4 := h3 rfl
  have h5 := Text.le_size_of_isBoundary h2
  rw [← settled_congr h1, settled, settled, scanAll_succ hs, if_pos rfl]
  exact congrArg _ (scanAll_budget hO h2 (by omega) (Nat.lt_add_one _))

/-- Whether an attempt of an edge brings a child, or has to. -/
def Counts (lane : Lane) (a : Attempt) : Prop :=
  ∃ s, a.statement = some s ∧ (s.region.isEmpty = true → lane.counter.missing ≠ 0)

/-- What does not count is nothing. -/
theorem nothing_of_not_counts {lane : Lane} {a : Attempt} (h : ¬Counts lane a) :
    ∀ s, a.statement = some s → s.region.isEmpty = true ∧ lane.counter.missing = 0 := by
  intro s hs
  constructor
  · cases he : s.region.isEmpty with
    | true => rfl
    | false => exact absurd ⟨s, hs, by simp [he]⟩ h
  · by_cases hm : lane.counter.missing = 0
    · exact hm
    · exact absurd ⟨s, hs, fun _ => hm⟩ h

/-- The edges before a place and those behind it. -/
theorem exists_append_of_getElem? {lanes : List Lane} {index : Nat} {lane : Lane} (h : lanes[index]? = some lane) :
    ∃ front back, lanes = front ++ lane :: back ∧ (∀ other, lanes.set index other = front ++ other :: back) ∧
      ∀ other, other ∈ front ∨ other ∈ back → ∃ j, j ≠ index ∧ lanes[j]? = some other := by
  obtain ⟨hlt, rfl⟩ := List.getElem?_eq_some_iff.1 h
  have hlength : (lanes.take index).length = index := by
    rw [List.length_take, Nat.min_eq_left (Nat.le_of_lt hlt)]
  refine ⟨lanes.take index, lanes.drop (index + 1), ?_, ?_, ?_⟩
  · rw [← List.drop_eq_getElem_cons hlt, List.take_append_drop]
  · intro other
    exact List.set_eq_take_append_cons_drop.trans (if_pos hlt)
  · intro other hmem
    rcases hmem with hmem | hmem
    · obtain ⟨j, hj, rfl⟩ := List.mem_iff_getElem.1 hmem
      rw [List.length_take] at hj
      refine ⟨j, by omega, ?_⟩
      rw [List.getElem_take, List.getElem?_eq_getElem]
    · obtain ⟨j, hj, rfl⟩ := List.mem_iff_getElem.1 hmem
      refine ⟨index + 1 + j, by omega, ?_⟩
      rw [List.getElem_drop, List.getElem?_eq_getElem]

section

variable {front back : List Lane} {lane : Lane} {a : Attempt} (hO : Sound grammar input O)
  (hm : lane.counter.acceptsMore = true) (ha : O lane.edge.rule g.cursor lane.context = some a)
  (hfront : ∀ other ∈ front, other.counter.Fits ∧ Idle O g.cursor other)
include hO hm ha hfront

/-- Behind idle edges, a child that reads something is the first that a scan finds. -/
theorem settled_consumed (hb : Text.isBoundary input g.cursor = true)
    (hc : (Progress.accept { gathering := g, lane } a).1 = .consumed) :
    settled O input (front ++ lane :: back) g =
      settled O input (front ++ (Progress.accept { gathering := g, lane } a).2.lane :: back)
        (Progress.accept { gathering := g, lane } a).2.gathering := by
  refine settled_of_found hO hb ?_
  rw [scan_idle_append (fun other h => (hfront other h).1) (fun other h => (hfront other h).2), scan_consumed hm ha hc]
  rfl

/-- Between idle edges, a child that reads nothing is taken as often as it is missing, and then its edge is idle too. -/
theorem settled_missing (hback : ∀ other ∈ back, other.counter.Fits ∧ Idle O g.cursor other) (hfits : lane.counter.Fits)
    {s : Statement} (hs : a.statement = some s) (he : s.region.isEmpty = true) :
    settled O input (front ++ lane :: back) g =
      settled O input (front ++ (Progress.accept { gathering := g, lane } a).2.lane :: back)
        (Progress.accept { gathering := g, lane } a).2.gathering := by
  have hstep : (Progress.accept { gathering := g, lane } a).1 ≠ .consumed := by
    rw [Progress.accept_empty hs he]
    simp
  have hcursor := cursor_of_not_consumed (q := { gathering := g, lane }) (hO.laid _ _ _ _ ha).starts hstep
  have hlane : (Progress.accept { gathering := g, lane } a).2.lane = { lane with counter := lane.counter.addMissing } := by
    rw [Progress.accept_empty hs he]
  -- before, a scan takes the missing children and finds nothing
  have hbefore : settled O input (front ++ lane :: back) g =
      some (faintly (front ++ (Progress.accept { gathering := g, lane } a).2.lane :: back,
        (Progress.accept { gathering := g, lane } a).2.gathering)) := by
    have h1 := @scan_all_idle _ O back (Progress.accept { gathering := g, lane } a).2.gathering
      (fun other h => (hback other h).1) (by rw [hcursor]; exact fun other h => (hback other h).2)
    obtain ⟨⟨found, rest, g1⟩, h2, h3⟩ := Option.map_eq_some_iff.1 h1
    simp only [faintly, Prod.mk.injEq] at h3
    obtain ⟨rfl, rfl, h4⟩ := h3
    refine settled_of_not_found ?_
    rw [scan_idle_append (fun other h => (hfront other h).1) (fun other h => (hfront other h).2),
      scan_passed hm ha hstep, h2]
    simp only [Option.map_some, faintly, h4]
  -- behind it all edges are idle
  have hidle : Idle O g.cursor (Progress.accept { gathering := g, lane } a).2.lane := by
    intro _
    rw [hlane]
    refine ⟨a, ha, ?_⟩
    intro t ht
    rw [hs] at ht
    cases ht
    exact ⟨he, Counter.missing_addMissing hfits⟩
  have hall : ∀ other ∈ front ++ (Progress.accept { gathering := g, lane } a).2.lane :: back,
      other.counter.Fits ∧ Idle O g.cursor other := by
    intro other hmem
    rcases List.mem_append.1 hmem with h | h
    · exact hfront other h
    · rcases List.mem_cons.1 h with rfl | h
      · exact ⟨by rw [hlane]; exact hfits.add _, hidle⟩
      · exact hback other h
  rw [hbefore]
  refine (settled_of_not_found (scan_all_idle (fun other h => (hall other h).1) ?_)).symm
  rw [hcursor]
  exact fun other h => (hall other h).2

end

variable (hO : Sound grammar input O) (hb : Text.isBoundary input g.cursor = true)
  (hf : ∀ lane ∈ lanes, lane.counter.Fits) {index : Nat} {lane : Lane} (hi : lanes[index]? = some lane)
  (hm : lane.counter.acceptsMore = true)

include hO hb hf hi hm in
/-- **Scanning on comes to the same** when an attempt of any edge has been taken in, unless other edges compete with it. -/
theorem settled_accept {a : Attempt} (ha : O lane.edge.rule g.cursor lane.context = some a)
    (hothers : Counts lane a → ∀ j other, j ≠ index → lanes[j]? = some other → Idle O g.cursor other) :
    settled O input lanes g =
      settled O input (lanes.set index (Progress.accept { gathering := g, lane } a).2.lane)
        (Progress.accept { gathering := g, lane } a).2.gathering := by
  by_cases hc : Counts lane a
  · obtain ⟨front, back, hlanes, hset, hplace⟩ := exists_append_of_getElem? hi
    have hidle : ∀ other, other ∈ front ∨ other ∈ back → other.counter.Fits ∧ Idle O g.cursor other := by
      intro other hmem
      obtain ⟨j, hj, hother⟩ := hplace other hmem
      exact ⟨hf other (List.mem_of_getElem? hother), hothers hc j other hj hother⟩
    obtain ⟨s, hs, _⟩ := hc
    rw [hset, hlanes]
    cases he : s.region.isEmpty with
    | false =>
      exact settled_consumed hO hm ha (fun other h => hidle other (Or.inl h)) hb
        (by rw [Progress.accept_consumed hs he])
    | true =>
      exact settled_missing hO hm ha (fun other h => hidle other (Or.inl h)) (fun other h => hidle other (Or.inr h))
        (hf lane (List.mem_of_getElem? hi)) hs he
  · obtain ⟨_, h2, h3⟩ :=
      accept_idle (p := { gathering := g, lane }) (hf lane (List.mem_of_getElem? hi)) (nothing_of_not_counts hc)
    obtain ⟨hlt, rfl⟩ := List.getElem?_eq_some_iff.1 hi
    rw [h2, settled_congr h3, List.set_getElem_self]

include hf hi hm in
/-- Scanning on comes to nothing where an edge has no reading, unless another edge comes before it. -/
theorem settled_eq_none (ha : O lane.edge.rule g.cursor lane.context = none)
    (hothers : ∀ j other a, j ≠ index → lanes[j]? = some other →
      O other.edge.rule g.cursor other.context = some a → ¬Counts other a) : settled O input lanes g = none := by
  obtain ⟨front, back, hlanes, _, hplace⟩ := exists_append_of_getElem? hi
  have hnone : ∀ {before : List Lane} {g1 : Gathering}, (∀ other ∈ before, other ∈ front) →
      g1.recast .faint = g.recast .faint → scan O (before ++ lane :: back) g1 = none := by
    intro before g1 hbefore hg
    have hcursor := cursor_eq_of_recast hg
    induction before generalizing g1 with
    | nil => simp [scan, hm, hcursor, ha]
    | cons other before ih =>
      have ih' := fun {g1 : Gathering} => @ih g1 fun o h => hbefore o (List.mem_cons_of_mem _ h)
      obtain ⟨j, hj, hother⟩ := hplace other (Or.inl (hbefore other (List.mem_cons_self ..)))
      rw [List.cons_append]
      cases hmore : other.counter.acceptsMore with
      | false => rw [scan_skip hmore, ih' hg hcursor, Option.map_none]
      | true =>
        cases ho : O other.edge.rule g1.cursor other.context with
        | none => simp [scan, hmore, ho]
        | some a =>
          have hnothing := nothing_of_not_counts (hothers j other a hj hother (by rw [← hcursor]; exact ho))
          obtain ⟨h1, _, h3⟩ :=
            accept_idle (p := { gathering := g1, lane := other }) (hf other (List.mem_of_getElem? hother)) hnothing
          rw [scan_passed hmore ho h1, ih' (h3.trans hg) (cursor_eq_of_recast (h3.trans hg)), Option.map_none]
  rw [settled, scanAll, hlanes, hnone (fun _ h => h) rfl]
  rfl

end

end Reading

end Graft
