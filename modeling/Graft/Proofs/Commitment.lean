import Graft.Proofs.Halting
import Graft.Proofs.Tallies

/-!
# Commitment

A first-order container passes over the edges that have to be read and whose first attempt fails, and commits to the first edge
that fits. What is read by that edge alone decides how the container ends, even if a later edge would have done better.
-/

namespace Graft

open Engine

namespace Region

theorem contains_refl (r : Region) : r.contains r = true := by
  simp [contains]

theorem contains_expandTo_left (r other : Region) : (r.expandTo other).contains r = true := by
  rw [contains, Bool.and_eq_true, decide_eq_true_iff, decide_eq_true_iff]
  simp only [expandTo, stop]
  omega

theorem contains_expandTo_right (r other : Region) : (r.expandTo other).contains other = true := by
  rw [contains, Bool.and_eq_true, decide_eq_true_iff, decide_eq_true_iff]
  simp only [expandTo, stop]
  omega

theorem contains_trans {r inner innermost : Region} (h : r.contains inner = true) (h' : inner.contains innermost = true) :
    r.contains innermost = true := by
  simp only [contains, Bool.and_eq_true, decide_eq_true_eq] at h h' ⊢
  omega

end Region

/-! ## Regions of interest -/

namespace Engine

/-- What has been gathered, once it was looked where some attempts looked. -/
def Gathering.lookAll (g : Gathering) (made : List Attempt) : Gathering :=
  made.foldl (fun g a => g.look a.interest) g

namespace Gathering

@[simp] theorem cursor_lookAll (g : Gathering) (made : List Attempt) : (g.lookAll made).cursor = g.cursor := by
  induction made generalizing g with
  | nil => rfl
  | cons a made ih => exact ih _

@[simp] theorem tags_lookAll (g : Gathering) (made : List Attempt) : (g.lookAll made).tags = g.tags := by
  induction made generalizing g with
  | nil => rfl
  | cons a made ih => exact ih _

/-- It was looked at where some attempts looked, and where it had been looked at before. -/
theorem contains_lookAll (g : Gathering) (made : List Attempt) :
    (g.lookAll made).interest.contains g.interest = true ∧
      ∀ a ∈ made, (g.lookAll made).interest.contains a.interest = true := by
  induction made generalizing g with
  | nil => exact ⟨Region.contains_refl _, fun a hm => absurd hm List.not_mem_nil⟩
  | cons a made ih =>
    obtain ⟨hbefore, hmade⟩ := ih (g.look a.interest)
    refine ⟨Region.contains_trans hbefore (Region.contains_expandTo_left ..), List.forall_mem_cons.2 ⟨?_, hmade⟩⟩
    exact Region.contains_trans hbefore (Region.contains_expandTo_right ..)

end Gathering

end Engine

section

variable [Pattern.Compiler]

namespace Engine

/-- The attempts of an edge from scratch widen the region of interest by theirs. -/
theorem FreshLoop.contains_interest {A : Attempts} {p q : Progress} {s t : State} {made : List (Except Fault Attempt)}
    (h : FreshLoop A p s made (.ok (q, t))) :
    q.gathering.interest.contains p.gathering.interest = true ∧
      ∀ a, .ok a ∈ made → q.gathering.interest.contains a.interest = true := by
  generalize hr : (Except.ok (q, t) : Except Fault (Progress × State)) = r at h
  induction h with
  | full =>
    cases hr
    exact ⟨Region.contains_refl _, fun a hm => absurd hm List.not_mem_nil⟩
  | fault => cases hr
  | last =>
    cases hr
    rw [Progress.interest_accept]
    refine ⟨Region.contains_expandTo_left .., fun a hm => ?_⟩
    cases List.mem_singleton.1 hm
    exact Region.contains_expandTo_right ..
  | @turn p s u a made r more run consumed rest ih =>
    obtain ⟨hbefore, hmade⟩ := ih hr
    rw [Progress.interest_accept] at hbefore
    refine ⟨Region.contains_trans hbefore (Region.contains_expandTo_left ..), fun b hm => ?_⟩
    rcases List.mem_cons.1 hm with heq | hm
    · cases heq
      exact Region.contains_trans hbefore (Region.contains_expandTo_right ..)
    · exact hmade b hm

/-- Attempts of an edge from scratch bring children of that edge only. -/
theorem FreshLoop.leads {A : Attempts} {p q : Progress} {s t : State} {made : List (Except Fault Attempt)}
    (h : FreshLoop A p s made (.ok (q, t))) : p.Leads q := by
  generalize hr : (Except.ok (q, t) : Except Fault (Progress × State)) = r at h
  induction h with
  | full =>
    cases hr
    exact .refl _
  | fault => cases hr
  | last more =>
    cases hr
    exact .accept _ more
  | turn more _ _ _ ih => exact (Progress.Leads.accept _ more).trans (ih hr)

/-- An edge that none of its attempts matched has counted nothing: it accepts no child, or its first attempt failed. -/
theorem FreshLoop.unmatched {A : Attempts} {p q : Progress} {s t : State} {made : List (Except Fault Attempt)}
    (h : FreshLoop A p s made (.ok (q, t))) (hq : q.matched = false) :
    q.lane = p.lane ∧ (p.lane.counter.acceptsMore = true → ∃ a, p.next A s = .ok (a, t) ∧ a.statement = none) := by
  generalize hr : (Except.ok (q, t) : Except Fault (Progress × State)) = r at h
  cases h with
  | full full =>
    cases hr
    exact ⟨rfl, fun more => by simp [full] at more⟩
  | fault => cases hr
  | last _ run =>
    cases hr
    have hfailed := ((Progress.matched_accept _ _).1 hq).2
    rw [Progress.accept_failure hfailed]
    exact ⟨rfl, fun _ => ⟨_, run, hfailed⟩⟩
  | turn _ _ consumed rest =>
    cases hr
    obtain ⟨child, hchild, _⟩ := Progress.statement_of_consumed consumed
    have hfailed := ((Progress.matched_accept _ _).1 (rest.leads.unmatched hq).1).2
    rw [hchild] at hfailed
    cases hfailed

/-! ## Edges that do not fit, and the first that does -/

section

variable (A : Attempts) (live : Context) (offset : Nat)

/-- Edges of a first-order container that do not fit, one after the other: each has to be read, and accepts no child or fails at
its first attempt. What these attempts come to is told. -/
inductive PassedOver : List (Edge × Nat) → State → List Attempt → State → Prop where
  | nil {s : State} : PassedOver [] s [] s
  | full {edge : Edge} {index : Nat} {lane : Lane} {edges : List (Edge × Nat)} {s t : State} {made : List Attempt}
      (opened : Lane.open index edge live = .ok lane) (required : lane.counter.isValid = false)
      (full : lane.counter.acceptsMore = false) (rest : PassedOver edges s made t) : PassedOver ((edge, index) :: edges) s made t
  | failed {edge : Edge} {index : Nat} {lane : Lane} {edges : List (Edge × Nat)} {s t u : State} {a : Attempt}
      {made : List Attempt} (opened : Lane.open index edge live = .ok lane) (required : lane.counter.isValid = false)
      (more : lane.counter.acceptsMore = true) (run : A.fresh edge.rule offset lane.context s = .ok (a, t))
      (failed : a.statement = none) (rest : PassedOver edges t made u) : PassedOver ((edge, index) :: edges) s (a :: made) u

/-- An edge fits: it may be left out, or it accepts a child and succeeds at its first attempt. -/
def Lane.Fits (lane : Lane) (s : State) : Prop :=
  lane.counter.isValid = true ∨
    lane.counter.acceptsMore = true ∧ ∃ a t, A.fresh lane.edge.rule offset lane.context s = .ok (a, t) ∧ a.statement ≠ none

/-- The first edge that fits, after those before it were passed over, and how far it was read from scratch. The attempts of all
these edges are told. -/
inductive Committed (edges : List Edge) (s : State) (index : Nat) : List Attempt → Progress → State → Prop where
  | mk {edge : Edge} {lane : Lane} {before own : List Attempt} {t u : State} {q : Progress} (place : edges[index]? = some edge)
      (passed : PassedOver A live offset (edges.take index).zipIdx s before t) (opened : Lane.open index edge live = .ok lane)
      (fits : lane.Fits A offset t)
      (run : FreshLoop A { gathering := (Gathering.begin offset).lookAll before, lane } t (own.map .ok) (.ok (q, u))) :
      Committed edges s index (before ++ own) q u

/-- The first edge at which there is a fault, after those before it were passed over: its occurrence cannot be resolved, or one of
its attempts raises the fault. -/
inductive Faulted (edges : List Edge) (s : State) : Fault → Prop where
  | unresolved {index : Nat} {edge : Edge} {before : List Attempt} {t : State} {fault : Fault} (place : edges[index]? = some edge)
      (passed : PassedOver A live offset (edges.take index).zipIdx s before t)
      (unresolved : Lane.open index edge live = .error fault) : Faulted edges s fault
  | attempt {index : Nat} {edge : Edge} {lane : Lane} {before : List Attempt} {made : List (Except Fault Attempt)} {t : State}
      {fault : Fault} (place : edges[index]? = some edge)
      (passed : PassedOver A live offset (edges.take index).zipIdx s before t) (opened : Lane.open index edge live = .ok lane)
      (run : FreshLoop A { gathering := (Gathering.begin offset).lookAll before, lane } t made (.error fault)) :
      Faulted edges s fault

end

variable {A : Attempts} {live : Context} {offset : Nat}

/-- What an edge comes to is decided by the edges before it and by itself. -/
theorem Committed.of_take {edges others : List Edge} {s u : State} {index : Nat} {made : List Attempt} {q : Progress}
    (h : Committed A live offset edges s index made q u) (ht : others.take (index + 1) = edges.take (index + 1)) :
    Committed A live offset others s index made q u := by
  obtain ⟨place, passed, opened, fits, run⟩ := h
  refine .mk ?_ ?_ opened fits run
  · rw [← List.getElem?_take_of_succ, ht, List.getElem?_take_of_succ, place]
  · have hbefore := congrArg (List.take index) ht
    rw [List.take_take, List.take_take, Nat.min_eq_left (Nat.le_succ index)] at hbefore
    rw [hbefore]
    exact passed

theorem PassedOver.append {passed rest : List (Edge × Nat)} {s t u : State} {before made : List Attempt}
    (h : PassedOver A live offset passed s before t) (h' : PassedOver A live offset rest t made u) :
    PassedOver A live offset (passed ++ rest) s (before ++ made) u := by
  induction h with
  | nil => exact h'
  | full opened required full _ ih => exact .full opened required full (ih h')
  | failed opened required more run failed _ ih => exact .failed opened required more run failed (ih h')

/-- Attempts of an edge that come to a result are all without fault. -/
theorem FreshLoop.eq_map_ok {p : Progress} {s : State} {made : List (Except Fault Attempt)} {r : Progress × State}
    (h : FreshLoop A p s made (.ok r)) : ∃ own : List Attempt, made = own.map .ok := by
  generalize hr : (Except.ok r : Except Fault (Progress × State)) = result at h
  induction h with
  | full => exact ⟨[], rfl⟩
  | fault => cases hr
  | @last _ _ _ a => exact ⟨[a], rfl⟩
  | @turn _ _ _ a _ _ _ _ _ _ ih =>
    obtain ⟨own, rfl⟩ := ih hr
    exact ⟨a :: own, rfl⟩

/-! ## Every edge is passed over, committed to or at fault -/

/-- Where an edge stops a first-order container: it fits, or it cannot be told whether it does. -/
def Stops (A : Attempts) (live : Context) (offset : Nat) (edge : Edge) (index : Nat) (s : State) : Prop :=
  (∃ fault, Lane.open index edge live = .error fault) ∨
    ∃ lane, Lane.open index edge live = .ok lane ∧ (lane.Fits A offset s ∨
      lane.counter.acceptsMore = true ∧ ∃ fault, A.fresh lane.edge.rule offset lane.context s = .error fault)

theorem passedOver_or_stops (edge : Edge) (index : Nat) (s : State) :
    (∃ made t, PassedOver A live offset [(edge, index)] s made t) ∨ Stops A live offset edge index s := by
  cases hopen : Lane.open index edge live with
  | error fault => exact Or.inr (Or.inl ⟨fault, hopen⟩)
  | ok lane =>
    obtain ⟨occurrence, _, hlane⟩ := Lane.eq_of_open hopen
    have hrule : lane.edge.rule = edge.rule := by rw [hlane]
    cases hvalid : lane.counter.isValid with
    | true => exact Or.inr (Or.inr ⟨lane, hopen, Or.inl (Or.inl hvalid)⟩)
    | false =>
      cases hmore : lane.counter.acceptsMore with
      | false => exact Or.inl ⟨[], s, .full hopen hvalid hmore .nil⟩
      | true =>
        cases hrun : A.fresh lane.edge.rule offset lane.context s with
        | error fault => exact Or.inr (Or.inr ⟨lane, hopen, Or.inr ⟨hmore, fault, hrun⟩⟩)
        | ok result =>
          obtain ⟨a, t⟩ := result
          by_cases hfailed : a.statement = none
          · rw [hrule] at hrun
            exact Or.inl ⟨[a], t, .failed hopen hvalid hmore hrun hfailed .nil⟩
          · exact Or.inr (Or.inr ⟨lane, hopen, Or.inl (Or.inr ⟨hmore, a, t, hrun, hfailed⟩)⟩)

/-- Edges are passed over up to the first that stops the container, if there is one. -/
theorem passedOver_or_exists_stops (edges : List Edge) (start : Nat) (s : State) :
    (∃ made t, PassedOver A live offset (edges.zipIdx start) s made t) ∨
      ∃ index edge made t, edges[index]? = some edge ∧ PassedOver A live offset ((edges.take index).zipIdx start) s made t ∧
        Stops A live offset edge (start + index) t := by
  induction edges generalizing start s with
  | nil => exact Or.inl ⟨[], s, .nil⟩
  | cons edge rest ih =>
    rcases passedOver_or_stops edge start s with ⟨before, t, hpassed⟩ | hstops
    · rcases ih (start + 1) t with ⟨made, u, hrest⟩ | ⟨index, other, made, u, hplace, hrest, hstops⟩
      · exact Or.inl ⟨before ++ made, u, hpassed.append hrest⟩
      · refine Or.inr ⟨index + 1, other, before ++ made, u, hplace, hpassed.append hrest, ?_⟩
        rw [Nat.add_assoc, Nat.add_comm 1] at hstops
        exact hstops
    · exact Or.inr ⟨0, edge, [], s, rfl, .nil, hstops⟩

/-! ## Reading edges -/

theorem zipIdx_eq_of_getElem? {edges : List Edge} {index : Nat} {edge : Edge} (h : edges[index]? = some edge) :
    edges.zipIdx = (edges.take index).zipIdx ++ (edge, index) :: (edges.drop (index + 1)).zipIdx (index + 1) := by
  obtain ⟨hlt, rfl⟩ := List.getElem?_eq_some_iff.1 h
  conv_lhs => rw [← List.take_append_drop index edges, List.drop_eq_getElem_cons hlt]
  rw [List.zipIdx_append, List.length_take, Nat.min_eq_left (Nat.le_of_lt hlt), Nat.zero_add, List.zipIdx_cons]

/-- An edge of a first-order container is read from scratch, and what it comes to says whether the next one is. -/
theorem readFirst_cons {setting : Setting} {owner : RuleId} {edge : Edge} {index : Nat} {lane : Lane}
    (hopen : Lane.open index edge live = .ok lane) (rest : List (Edge × Nat)) (g : Gathering) (s : State) :
    readFirst setting A owner live {} ((edge, index) :: rest) g s =
      (readFresh A owner (setting.remaining g.cursor + 1) { gathering := g, lane } s >>= fun r =>
        if r.1.lane.counter.isValid then .ok ((.chosen index, r.1.gathering), r.2)
        else if r.1.matched then .ok ((.broken, r.1.gathering), r.2)
        else readFirst setting A owner live {} rest r.1.gathering r.2) := by
  rw [readFirst, Run.lift_bind, hopen, Run.ok_bind]
  change (readFresh A owner (setting.remaining g.cursor + 1) { gathering := g, lane } s >>= _) = _
  refine congrArg _ (funext fun r => ?_)
  obtain ⟨q, t⟩ := r
  simp only
  split
  · rfl
  · split <;> rfl

end Engine

/-! ## What calls do with first-order containers -/

namespace Grammar.Calls

variable {grammar : Grammar} {setting : Setting} {nodes : List Earlier} {levels : Nat} {live : Context} {offset : Nat}
  {owner : RuleId} {edges : List Edge} {s t u : State} {made : List Attempt}

/-- The edges that are passed over fill the memo by attempts of the call. -/
theorem fills_of_passedOver {entries : List (Edge × Nat)} (hs : Fills setting nodes s.memo)
    (h : PassedOver (attempts setting levels) live offset entries s made t) : Fills setting nodes t.memo := by
  induction h with
  | nil => exact hs
  | full _ _ _ _ ih => exact ih hs
  | failed _ _ _ run _ _ ih => exact ih (.attempt hs (.fresh ..) run)

variable (hcall : grammar.Calls setting nodes) (ho : offset ≤ Text.size setting.input)
include hcall ho

/-- A container whose edges are not all passed over is committed to the first that fits, or one of them is at fault. -/
theorem walk (edges : List Edge) (hs : Fills setting nodes s.memo) :
    (∃ made t, PassedOver (attempts setting levels) live offset edges.zipIdx s made t) ∨
      (∃ index made q u, Committed (attempts setting levels) live offset edges s index made q u) ∨
        ∃ fault, Faulted (attempts setting levels) live offset edges s fault := by
  rcases passedOver_or_exists_stops edges 0 s with hall | ⟨index, edge, before, t, hplace, hpassed, hstops⟩
  · exact Or.inl hall
  rw [Nat.zero_add] at hstops
  right
  rcases hstops with ⟨fault, hopen⟩ | ⟨lane, hopen, hstops⟩
  · exact Or.inr ⟨fault, .unresolved hplace hpassed hopen⟩
  · have hcursor : ((Gathering.begin offset).lookAll before).cursor = offset := Gathering.cursor_lookAll ..
    rcases hstops with hfits | ⟨hmore, fault, hrun⟩
    · obtain ⟨tries, hloop, _⟩ := hcall.readFresh_loop (p := { gathering := (Gathering.begin offset).lookAll before, lane })
        levels ⟨0⟩ (by rw [hcursor]; exact ho) (fills_of_passedOver hs hpassed)
      generalize readFresh (attempts setting levels) _ _ _ _ = r at hloop
      cases r with
      | error fault => exact Or.inr ⟨fault, .attempt hplace hpassed hopen hloop⟩
      | ok r =>
        obtain ⟨own, rfl⟩ := hloop.eq_map_ok
        exact Or.inl ⟨index, before ++ own, r.1, r.2, .mk hplace hpassed hopen hfits hloop⟩
    · refine Or.inr ⟨fault, .attempt hplace hpassed hopen (.fault hmore ?_)⟩
      rw [Progress.next, hcursor]
      exact hrun

variable (hs : Fills setting nodes s.memo)
include hs

theorem readFirst_passedOver {passed : List (Edge × Nat)}
    (h : PassedOver (attempts setting levels) live offset passed s made t) (rest : List (Edge × Nat)) {g : Gathering}
    (hg : g.cursor = offset) :
    readFirst setting (attempts setting levels) owner live {} (passed ++ rest) g s =
      readFirst setting (attempts setting levels) owner live {} rest (g.lookAll made) t := by
  induction h generalizing g with
  | nil => rfl
  | @full edge index lane edges s t made opened required full passed ih =>
    have hread : readFresh (attempts setting levels) owner (setting.remaining g.cursor + 1) { gathering := g, lane } s = _ :=
      hcall.readFresh_eq (by rw [hg]; exact ho) hs (.full full)
    rw [List.cons_append, readFirst_cons opened, hread, Run.ok_bind]
    simp only [required, Bool.false_eq_true, if_false]
    exact ih hs hg
  | @failed edge index lane edges s t u a made opened required more run failed passed ih =>
    obtain ⟨occurrence, _, hlane⟩ := Lane.eq_of_open opened
    have haccept := Progress.accept_failure (p := { gathering := g, lane }) failed
    have hnext : Progress.next (attempts setting levels) { gathering := g, lane } s = .ok (a, t) := by
      rw [Progress.next, hg, hlane]
      rw [hlane] at run
      exact run
    have hread : readFresh (attempts setting levels) owner (setting.remaining g.cursor + 1) { gathering := g, lane } s = _ :=
      hcall.readFresh_eq (by rw [hg]; exact ho) hs (.last more hnext (by rw [haccept]; simp))
    rw [List.cons_append, readFirst_cons opened, hread, Run.ok_bind, haccept]
    simp only [required, Bool.false_eq_true, if_false]
    exact ih (.attempt hs (.fresh ..) run) hg

/-- A container whose edges are all passed over fails, and has looked where they did. -/
theorem firstOrder_passedOver (id : RuleId) (h : PassedOver (attempts setting levels) live offset edges.zipIdx s made t) :
    firstOrder setting (attempts setting levels) id edges {} offset live s =
      .ok (((Gathering.begin offset).lookAll made).fail id, t) := by
  have hread : readFirst setting (attempts setting levels) id live {} (edges.zipIdx ++ []) (.begin offset) s = _ :=
    hcall.readFirst_passedOver ho hs h [] rfl
  rw [List.append_nil] at hread
  rw [firstOrder, Run.mark_bind, Run.bind_apply, hread]
  rfl

/-- Behind the edges that are passed over an edge is read from scratch. -/
theorem readFirst_reached {index : Nat} {edge : Edge} {lane : Lane} {before : List Attempt}
    {tries : List (Except Fault Attempt)} {r : Except Fault (Progress × State)} (place : edges[index]? = some edge)
    (passed : PassedOver (attempts setting levels) live offset (edges.take index).zipIdx s before t)
    (opened : Lane.open index edge live = .ok lane)
    (run : FreshLoop (attempts setting levels) { gathering := (Gathering.begin offset).lookAll before, lane } t tries r) :
    readFirst setting (attempts setting levels) owner live {} edges.zipIdx (.begin offset) s =
      (r >>= fun r =>
        if r.1.lane.counter.isValid then .ok ((.chosen index, r.1.gathering), r.2)
        else if r.1.matched then .ok ((.broken, r.1.gathering), r.2)
        else readFirst setting (attempts setting levels) owner live {} ((edges.drop (index + 1)).zipIdx (index + 1))
          r.1.gathering r.2) := by
  have hcursor : ((Gathering.begin offset).lookAll before).cursor = offset := Gathering.cursor_lookAll ..
  have hread : readFresh (attempts setting levels) owner
      (setting.remaining ((Gathering.begin offset).lookAll before).cursor + 1)
      { gathering := (Gathering.begin offset).lookAll before, lane } t = r :=
    hcall.readFresh_eq (by rw [hcursor]; exact ho) (fills_of_passedOver hs passed) run
  rw [zipIdx_eq_of_getElem? place, hcall.readFirst_passedOver ho hs passed _ rfl, readFirst_cons opened, hread]

/-- A container that is committed to an edge succeeds if that edge ends with a count that satisfies its occurrence, and fails
otherwise. -/
theorem firstOrder_committed (id : RuleId) {index : Nat} {q : Progress}
    (h : Committed (attempts setting levels) live offset edges s index made q u) :
    firstOrder setting (attempts setting levels) id edges {} offset live s =
      .ok (if q.lane.counter.isValid then (Reading.succeed u.nextId q.gathering id (some index), u.issued)
        else (q.gathering.fail id, s.restored u)) := by
  obtain ⟨place, passed, opened, fits, run⟩ := h
  rw [firstOrder, Run.mark_bind, Run.bind_apply, hcall.readFirst_reached ho hs place passed opened run, Run.ok_bind]
  cases hvalid : q.lane.counter.isValid with
  | true => rfl
  | false =>
    -- an edge that fits and ends with a count that is not satisfied has been matched
    have hmatched : q.matched = true := by
      by_contra hunmatched
      obtain ⟨hlane, hfailed⟩ := run.unmatched (Bool.eq_false_iff.2 hunmatched)
      rw [hlane] at hvalid
      rcases fits with hfits | ⟨hmore, a, t', hrun, hsucceeded⟩
      · rw [hfits] at hvalid
        cases hvalid
      · obtain ⟨b, hnext, hb⟩ := hfailed hmore
        rw [Progress.next, Gathering.cursor_lookAll] at hnext
        cases hrun.symm.trans hnext
        exact hsucceeded hb
    simp only [hmatched, Bool.false_eq_true, if_false, if_true]
    rfl

/-- A container ends with the fault of its first edge at fault. -/
theorem firstOrder_faulted (id : RuleId) {fault : Fault} (h : Faulted (attempts setting levels) live offset edges s fault) :
    firstOrder setting (attempts setting levels) id edges {} offset live s = .error fault := by
  rw [firstOrder, Run.mark_bind, Run.bind_apply]
  cases h with
  | @unresolved index edge before t _ place passed unresolved =>
    rw [zipIdx_eq_of_getElem? place, hcall.readFirst_passedOver ho hs passed _ rfl, readFirst, Run.lift_bind, unresolved]
    rfl
  | attempt place passed opened run =>
    rw [hcall.readFirst_reached ho hs place passed opened run]
    rfl

end Grammar.Calls

/-! ## First-order containers -/

/-- A success whose children were all read by one edge, which is the one chosen. -/
def Attempt.Chose (a : Attempt) (index : Nat) : Prop :=
  a.statement ≠ none ∧ ∃ count, a.derivation.arrangement = (List.replicate count index, some index)

namespace Engine

variable {A : Attempts} {live : Context} {offset : Nat} {edges : List Edge} {s u : State} {index : Nat} {made : List Attempt}
  {q : Progress}

/-- What the first edge that fits was read to holds children of that edge only, and has looked where the attempts of it and of the
edges before it did. -/
theorem Committed.gathered (h : Committed A live offset edges s index made q u) :
    (∃ count, q.gathering.tags = List.replicate count index) ∧
      ∀ a ∈ made, q.gathering.interest.contains a.interest = true := by
  obtain @⟨_, _, before, own, _, _, _, _, _, opened, _, run⟩ := h
  constructor
  · obtain ⟨count, htags, _⟩ := run.leads.tally opened
    rw [Gathering.tags_lookAll] at htags
    exact ⟨count, by simpa [Gathering.begin, Gathering.tags] using htags⟩
  · obtain ⟨hbegun, hown⟩ := run.contains_interest
    intro a hm
    rcases List.mem_append.1 hm with hm | hm
    · exact Region.contains_trans hbegun (((Gathering.begin offset).contains_lookAll before).2 a hm)
    · exact hown a (List.mem_map_of_mem hm)

theorem readBody_firstOrder {setting : Setting} {id : RuleId} {rule : Rule} (hrule : setting.grammar.getRule id = .ok rule)
    (hbody : rule.body = .container .firstOrder edges) :
    readBody setting A id offset live = firstOrder setting A id edges {} offset live := by
  funext s
  rw [readBody, Run.lift_bind, hrule, Run.ok_bind, hbody]
  rfl

end Engine

theorem Grammar.Calls.grammar_eq {grammar : Grammar} {setting : Setting} {nodes : List Earlier}
    (h : grammar.Calls setting nodes) : setting.grammar = grammar := by
  cases h <;> rfl

/-- **A first-order container commits.** Read from scratch in a call, at an offset inside the text, with anything in the memo that
attempts of the call have put there:
1. All of its edges are passed over, or it commits to the first that fits, or one of them is at fault before that.
2. If all of its edges are passed over, it fails.
3. If it commits to an edge, it succeeds with that edge as the one chosen and with children of that edge only, if the edge ends
   with a count that satisfies its occurrence, and it fails otherwise. Other edges behind that one would not change anything.
4. If an edge is at fault, so is the container.
Where it looked it has looked wherever an attempt that it made did. -/
theorem first_order_commits {grammar : Grammar} {setting : Setting} {nodes : List Earlier} (hcall : grammar.Calls setting nodes)
    {id : RuleId} {rule : Rule} {edges : List Edge} (hrule : grammar.getRule id = .ok rule)
    (hbody : rule.body = .container .firstOrder edges) (levels : Nat) {offset : Nat} (ho : offset ≤ Text.size setting.input)
    (live : Context) {s : State} (hs : Fills setting nodes s.memo) :
    ((∃ made t, PassedOver (attempts setting levels) live offset edges.zipIdx s made t) ∨
      (∃ index made q t, Committed (attempts setting levels) live offset edges s index made q t) ∨
        ∃ fault, Faulted (attempts setting levels) live offset edges s fault) ∧
    (∀ made t, PassedOver (attempts setting levels) live offset edges.zipIdx s made t →
      ∃ a, readBody setting (attempts setting levels) id offset live s = .ok (a, t) ∧ a.statement = none ∧
        ∀ b ∈ made, a.interest.contains b.interest = true) ∧
    (∀ index made q t, Committed (attempts setting levels) live offset edges s index made q t →
      ∃ a u, readBody setting (attempts setting levels) id offset live s = .ok (a, u) ∧
        (q.lane.counter.isValid = true → a.Chose index) ∧ (q.lane.counter.isValid = false → a.statement = none) ∧
          (∀ b ∈ made, a.interest.contains b.interest = true) ∧
            ∀ others : List Edge, others.take (index + 1) = edges.take (index + 1) →
              firstOrder setting (attempts setting levels) id others {} offset live s = .ok (a, u)) ∧
    ∀ fault, Faulted (attempts setting levels) live offset edges s fault →
      readBody setting (attempts setting levels) id offset live s = .error fault := by
  rw [← hcall.grammar_eq] at hrule
  rw [readBody_firstOrder hrule hbody]
  refine ⟨hcall.walk ho edges hs, ?_, ?_, fun fault hfaulted => hcall.firstOrder_faulted ho hs id hfaulted⟩
  · intro made t hpassed
    exact ⟨_, hcall.firstOrder_passedOver ho hs id hpassed, rfl, ((Gathering.begin offset).contains_lookAll made).2⟩
  · intro index made q t hcommitted
    have hothers := fun (others : List Edge) (ht : others.take (index + 1) = edges.take (index + 1)) =>
      hcall.firstOrder_committed ho hs id (hcommitted.of_take ht)
    obtain ⟨⟨count, htags⟩, hlooked⟩ := hcommitted.gathered
    cases hvalid : q.lane.counter.isValid with
    | true =>
      simp only [hvalid, if_true] at hothers
      refine ⟨_, _, hothers edges rfl, fun _ => ⟨fun hnone => (by cases hnone), count, ?_⟩, fun h => (by cases h), hlooked,
        hothers⟩
      rw [← htags]
      rfl
    | false =>
      simp only [hvalid, Bool.false_eq_true, if_false] at hothers
      exact ⟨_, _, hothers edges rfl, fun h => (by cases h), fun _ => rfl, hlooked, hothers⟩

/-- A grammar whose root is one match of one pattern, or else one match of another. -/
def Grammar.firstOf (p q : Pattern) : Grammar where
  rules := #[⟨none, [], .empty, .consume .keep (.pattern p)⟩, ⟨none, [], .empty, .consume .keep (.pattern q)⟩,
    ⟨none, [], .empty, .container .firstOrder [⟨⟨0⟩, .occurrence .once, .empty⟩, ⟨⟨1⟩, .occurrence .once, .empty⟩]⟩]
  root := ⟨2⟩

end

open Pattern.Regex

/-- A letter that the pattern which comes first does not match is read by the other one, and that one is chosen. -/
theorem first_order_commits_letterB :
    ∃ made q t a u, Committed (attempts (.make (.firstOf .letterA .letterB) "b" .plain {}) 512) .empty 0
        [⟨⟨0⟩, .occurrence .once, .empty⟩, ⟨⟨1⟩, .occurrence .once, .empty⟩] { depth := 1, nextId := ⟨0⟩ } 1 made q t ∧
      made.length = 2 ∧
      readBody (.make (.firstOf .letterA .letterB) "b" .plain {})
        (attempts (.make (.firstOf .letterA .letterB) "b" .plain {}) 512) ⟨2⟩ 0 .empty { depth := 1, nextId := ⟨0⟩ } = .ok (a, u) ∧
      a.Chose 1 ∧ ∀ b ∈ made, a.interest.contains b.interest = true := by
  have hmiss : Run.Gives 1 0 0 ((attempts (.make (.firstOf .letterA .letterB) "b" .plain {}) 512).fresh ⟨0⟩ 0 .empty)
      (.failure ⟨0⟩ ⟨0, 1⟩) := leaf_miss rfl (Text.isBoundary_zero "b") Pattern.matchFront_letterA_b
  have hhit : Run.Gives 1 0 1 ((attempts (.make (.firstOf .letterA .letterB) "b" .plain {}) 512).fresh ⟨1⟩ 0 .empty)
      (.success (.leaf ⟨0⟩ ⟨0, Text.size "b"⟩ "b") (.leaf ⟨1⟩ ⟨0, Text.size "b" + 1⟩)) := leaf_whole rfl Pattern.matchFront_letterB
  have hne : (Statement.leaf ⟨0⟩ ⟨0, Text.size "b"⟩ "b").region.isEmpty = false := by decide +kernel
  obtain ⟨t, ht, hstands⟩ := hmiss { depth := 1, nextId := ⟨0⟩ } ⟨rfl, rfl, trivial⟩
  obtain ⟨v, hv, _⟩ := hhit t hstands
  have hopen : Lane.open 0 ⟨⟨0⟩, .occurrence .once, .empty⟩ .empty =
      .ok ⟨0, ⟨⟨0⟩, .occurrence .once, .empty⟩, .empty, .start .once⟩ := rfl
  have hopen' : Lane.open 1 ⟨⟨1⟩, .occurrence .once, .empty⟩ .empty = .ok (oneLane 0) := rfl
  have hpassed : PassedOver (attempts (.make (.firstOf .letterA .letterB) "b" .plain {}) 512) .empty 0
      [(⟨⟨0⟩, .occurrence .once, .empty⟩, 0)] { depth := 1, nextId := ⟨0⟩ } [.failure ⟨0⟩ ⟨0, 1⟩] t :=
    .failed hopen rfl rfl ht rfl .nil
  have hfull := Progress.accept_consumed
    (p := { gathering := (Gathering.begin 0).lookAll [.failure ⟨0⟩ ⟨0, 1⟩], lane := oneLane 0 })
    (a := .success (.leaf ⟨0⟩ ⟨0, Text.size "b"⟩ "b") (.leaf ⟨1⟩ ⟨0, Text.size "b" + 1⟩)) rfl hne
  have hrun : FreshLoop (attempts (.make (.firstOf .letterA .letterB) "b" .plain {}) 512)
      { gathering := (Gathering.begin 0).lookAll [.failure ⟨0⟩ ⟨0, 1⟩], lane := oneLane 0 } t
      ([.success (.leaf ⟨0⟩ ⟨0, Text.size "b"⟩ "b") (.leaf ⟨1⟩ ⟨0, Text.size "b" + 1⟩)].map .ok) (.ok (_, v)) :=
    .turn rfl hv (by rw [hfull]) (.full (by rw [hfull]; rfl))
  have hcommitted : Committed (attempts (.make (.firstOf .letterA .letterB) "b" .plain {}) 512) .empty 0
      [⟨⟨0⟩, .occurrence .once, .empty⟩, ⟨⟨1⟩, .occurrence .once, .empty⟩] { depth := 1, nextId := ⟨0⟩ } 1 _ _ v :=
    .mk rfl hpassed hopen' (Or.inr ⟨rfl, _, _, hv, by simp [Attempt.success]⟩) hrun
  have hcall : (Grammar.firstOf .letterA .letterB).Calls (.make (.firstOf .letterA .letterB) "b" .plain {}) [] :=
    .parse "b" .plain
  have hrule : (Grammar.firstOf .letterA .letterB).getRule ⟨2⟩ =
      .ok ⟨none, [], .empty, .container .firstOrder [⟨⟨0⟩, .occurrence .once, .empty⟩, ⟨⟨1⟩, .occurrence .once, .empty⟩]⟩ := rfl
  obtain ⟨_, _, hcommits, _⟩ := first_order_commits hcall hrule rfl 512 (Nat.zero_le _) .empty (s := { depth := 1, nextId := ⟨0⟩ })
    .empty
  obtain ⟨a, u, hread, hchose, _, hlooked, _⟩ := hcommits _ _ _ _ hcommitted
  exact ⟨_, _, _, a, u, hcommitted, rfl, hread, hchose (by rw [hfull]; rfl), hlooked⟩

end Graft
