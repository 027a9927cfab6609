import Graft.Proofs.Counting
import Graft.Proofs.Gathered

/-!
# Lanes at their places

A container in any order opens one lane for each of its edges and keeps them in the order of the edges. Taking in attempts
changes nothing of that: a lane goes on to read the edge at its place, with the occurrence that it was opened with.
-/

namespace Graft

open Engine

/-! ## Earlier children -/

theorem Engine.Earliers.ofEdge_empty (index : Nat) : Earliers.ofEdge {} index = [] := rfl

/-- An edge read the earlier children that are told with its place. -/
theorem Engine.Earliers.mem_ofEdge {earliers : Earliers} {index : Nat} {e : Earlier} :
    e ∈ earliers.ofEdge index ↔ (index, e) ∈ earliers.children := by
  rw [ofEdge, List.mem_map]
  constructor
  · rintro ⟨⟨place, child⟩, hm, rfl⟩
    obtain ⟨hchild, hplace⟩ := List.mem_filter.1 hm
    obtain rfl : place = index := of_decide_eq_true hplace
    exact hchild
  · exact fun hm => ⟨(index, e), List.mem_filter.2 ⟨hm, decide_eq_true rfl⟩, rfl⟩

/-- What holds of the earlier children that an edge read holds of those that it is given, where an edge that was not chosen is
given none. -/
theorem Engine.Earliers.forall_mem_chosen {earliers : Earliers} {index : Nat} {K : Earlier → Prop}
    (h : ∀ e ∈ earliers.ofEdge index, K e) :
    ∀ e ∈ (if earliers.chosen = some index then earliers.ofEdge index else []), K e := by
  intro e hm
  split at hm
  · exact h e hm
  · cases hm

variable [Pattern.Compiler]

/-! ## Lanes -/

/-- Whether an edge must have a child, in the context of its container. -/
def Edge.Requires (edge : Edge) (live : Context) : Prop :=
  ∃ occurrence, (edge.context live).resolveOccurrence edge.occurrence = .ok occurrence ∧ occurrence.leastMore 0 ≠ 0

/-- Edges whose occurrences require no more children than can be counted. -/
def Countable (edges : List Edge) (live : Context) : Prop :=
  ∀ edge ∈ edges, ∀ occurrence, (edge.context live).resolveOccurrence edge.occurrence = .ok occurrence →
    occurrence.leastMore 0 ≤ largestSize

/-- A lane that reads the edge at a place. -/
structure Engine.Lane.Reads (edges : List Edge) (live : Context) (index : Nat) (lane : Lane) : Prop where
  place : lane.index = index
  opens : lane.Opens edges live
  occurrence : lane.context.resolveOccurrence lane.edge.occurrence = .ok lane.counter.occurrence
  count : lane.counter.count ≤ largestSize

/-- Lanes that read edges, each the one at its place. -/
def ReadAll (edges : List Edge) (live : Context) (lanes : List Lane) : Prop :=
  ∀ (index : Nat) (lane : Lane), lanes[index]? = some lane → lane.Reads edges live index

namespace Engine.Lane.Reads

variable {edges : List Edge} {live : Context} {index : Nat} {lane : Lane}

theorem edge (h : lane.Reads edges live index) : edges[index]? = some lane.edge := by
  rw [← h.place]
  exact h.opens.edge

/-- A count is one of those that its lane can hold. -/
theorem fits (h : lane.Reads edges live index) (hc : Countable edges live) : lane.counter.Fits := by
  refine ⟨h.count, hc lane.edge (List.mem_of_getElem? h.edge) _ ?_⟩
  rw [← h.opens.context]
  exact h.occurrence

/-- An edge that still wants children when it is opened must have one. -/
theorem requires (h : lane.Reads edges live index) (hm : lane.counter.missing ≠ 0) : lane.edge.Requires live :=
  ⟨lane.counter.occurrence, by rw [← h.opens.context]; exact h.occurrence, Counter.required_of_missing hm⟩

/-- A lane still reads its edge when an attempt has been taken in. -/
theorem accept {p : Progress} (h : p.lane.Reads edges live index) (a : Attempt) :
    (p.accept a).2.lane.Reads edges live index := by
  obtain ⟨h1, h2, h3⟩ := p.lane_accept a
  have hcounter : (p.accept a).2.lane.counter.occurrence = p.lane.counter.occurrence ∧
      (p.accept a).2.lane.counter.count ≤ largestSize := by
    cases hs : a.statement with
    | none =>
      rw [Progress.accept_failure hs]
      exact ⟨rfl, h.count⟩
    | some s =>
      cases he : s.region.isEmpty with
      | true =>
        rw [Progress.accept_empty hs he]
        exact ⟨rfl, Nat.min_le_right _ _⟩
      | false =>
        rw [Progress.accept_consumed hs he]
        exact ⟨rfl, Nat.min_le_right _ _⟩
  exact ⟨by rw [h1]; exact h.place, h.opens.accept a, by rw [h2, h3, hcounter.1]; exact h.occurrence, hcounter.2⟩

end Engine.Lane.Reads

namespace ReadAll

variable {edges : List Edge} {live : Context} {lanes : List Lane}

/-- Lanes at their places each read an edge of the container. -/
theorem opens (h : ReadAll edges live lanes) : ∀ lane ∈ lanes, lane.Opens edges live := by
  intro lane hm
  obtain ⟨index, hi⟩ := List.mem_iff_getElem?.1 hm
  exact (h index lane hi).opens

/-- The counts of lanes at their places are those that they can hold. -/
theorem fits (h : ReadAll edges live lanes) (hc : Countable edges live) : ∀ lane ∈ lanes, lane.counter.Fits := by
  intro lane hm
  obtain ⟨index, hi⟩ := List.mem_iff_getElem?.1 hm
  exact (h index lane hi).fits hc

/-- A lane may take the place of another one that reads the same edge. -/
theorem set (h : ReadAll edges live lanes) {index : Nat} {lane : Lane} (hl : lane.Reads edges live index) :
    ReadAll edges live (lanes.set index lane) := by
  intro j other hj
  by_cases hi : index = j
  · subst hi
    obtain ⟨hlt, _⟩ := List.getElem?_eq_some_iff.1 hj
    rw [List.length_set] at hlt
    rw [List.getElem?_set_self hlt] at hj
    cases hj
    exact hl
  · rw [List.getElem?_set_ne hi] at hj
    exact h j other hj

/-- A container begins to read each edge at its place. -/
theorem of_openAll {entries : List (Edge × Nat)} {start : Nat}
    (he : ∀ (i : Nat) (entry : Edge × Nat), entries[i]? = some entry → entry.2 = start + i ∧ edges[start + i]? = some entry.1)
    (h : Reading.openAll live entries = some lanes) :
    ∀ (index : Nat) (lane : Lane), lanes[index]? = some lane → lane.Reads edges live (start + index) := by
  induction entries generalizing lanes start with
  | nil =>
    cases h
    intro index lane hi
    simp at hi
  | cons entry entries ih =>
    obtain ⟨first, rest, hopen, hr, rfl⟩ := Reading.openAll_cases h
    obtain ⟨hplace, hedge⟩ := he 0 entry rfl
    intro index lane hi
    cases index with
    | zero =>
      cases hi
      rw [hplace] at hopen
      obtain ⟨occurrence, hres, rfl⟩ := Lane.eq_of_open hopen
      exact ⟨rfl, Lane.opens_of_open hedge hopen, hres, Nat.zero_le _⟩
    | succ index =>
      have h1 := @ih rest (start + 1) ?_ hr index lane hi
      · rw [Nat.add_assoc, Nat.add_comm 1 index] at h1
        exact h1
      · intro i entry hi
        have h2 := he (i + 1) entry hi
        rw [Nat.add_assoc, Nat.add_comm 1 i]
        exact h2

/-- The lanes that a container opens stand at the places of its edges. -/
theorem of_edges (h : Reading.openAll live edges.zipIdx = some lanes) : ReadAll edges live lanes := by
  intro index lane hi
  have h1 := @of_openAll _ edges live _ _ 0 ?_ h index lane hi
  · rw [Nat.zero_add] at h1
    exact h1
  · intro i entry hi
    rw [List.getElem?_zipIdx] at hi
    obtain ⟨edge, hedge, rfl⟩ := Option.map_eq_some_iff.1 hi
    exact ⟨rfl, by rw [Nat.zero_add]; exact hedge⟩

end ReadAll

/-- A container opens a lane for each of its edges, which has counted nothing yet. -/
theorem Reading.exists_of_openAll {live : Context} {entries : List (Edge × Nat)} {lanes : List Lane}
    (h : openAll live entries = some lanes) {index : Nat} {entry : Edge × Nat} (he : entries[index]? = some entry) :
    ∃ lane, lanes[index]? = some lane ∧ lane.counter.count = 0 := by
  induction entries generalizing lanes index with
  | nil => cases he
  | cons first entries ih =>
    obtain ⟨lane, rest, hl, hr, rfl⟩ := openAll_cases h
    cases index with
    | zero =>
      obtain ⟨occurrence, _, rfl⟩ := Lane.eq_of_open hl
      exact ⟨_, rfl, rfl⟩
    | succ index => exact ih hr he

end Graft
