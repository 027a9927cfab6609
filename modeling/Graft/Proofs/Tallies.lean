import Graft.Proofs.Counting
import Graft.Proofs.Yields

/-!
# Tallies

A container tags each of its children with the place of the edge that read it. What has been counted for an edge is the number
of children with its tag, so when a container succeeds every edge that it is done with was read as often as its occurrence lets
it. Only the tags matter here: nothing is asked of the attempts that the children come from.
-/

namespace Graft

open Engine

/-! ## Tags -/

/-- The places of the edges that the children gathered so far were read by. -/
def Engine.Gathering.tags (g : Gathering) : List Nat :=
  g.children.toList.map (·.edge)

/-- Copies of a child are gathered at the end. -/
theorem Engine.Gathering.children_pushMany (g : Gathering) (child : Taken) (count : Nat) :
    (g.pushMany child count).children.toList = g.children.toList ++ List.replicate count child := by
  induction count generalizing g with
  | zero => rw [Gathering.pushMany, List.replicate_zero, List.append_nil]
  | succ count ih =>
    rw [Gathering.pushMany, ih, List.replicate_succ]
    simp [Gathering.push]

/-- Copies of a child are tagged alike. -/
theorem Engine.Gathering.tags_pushMany (g : Gathering) (child : Taken) (count : Nat) :
    (g.pushMany child count).tags = g.tags ++ List.replicate count child.edge := by
  rw [Gathering.tags, Gathering.children_pushMany, List.map_append, List.map_replicate, Gathering.tags]

variable [Pattern.Compiler]

/-! ## Arrangements -/

/-- An edge was read as often as its occurrence lets it. This is said of occurrences whose numbers are sizes: the count of another
one may stop short of the number of children. -/
def Edge.Fulfilled (edge : Edge) (live : Context) (count : Nat) : Prop :=
  ∃ occurrence, (edge.context live).resolveOccurrence edge.occurrence = .ok occurrence ∧
    (occurrence.Sized → occurrence.isValid count = true)

/-- The tags of the children, and the edge chosen, of a container that is complete. -/
def ContainerKind.Arranges (kind : ContainerKind) (edges : List Edge) (live : Context) (tags : List Nat)
    (chosen : Option Nat) : Prop :=
  match kind with
  | .inOrder | .value _ =>
    chosen = none ∧ tags.Pairwise (· ≤ ·) ∧
      ∀ (index : Nat) (edge : Edge), edges[index]? = some edge → edge.Fulfilled live (tags.count index)
  | .anyOrder =>
    chosen = none ∧ ∀ (index : Nat) (edge : Edge), edges[index]? = some edge → edge.Fulfilled live (tags.count index)
  | .firstOrder =>
    ∃ index edge, chosen = some index ∧ edges[index]? = some edge ∧ (∀ tag ∈ tags, tag = index) ∧
      edge.Fulfilled live (tags.count index)

/-! ## One attempt -/

/-- A lane after some more children, of which those with its tag are its own. -/
structure Engine.Lane.Advances (added : List Nat) (lane lane' : Lane) : Prop where
  index : lane'.index = lane.index
  edge : lane'.edge = lane.edge
  context : lane'.context = lane.context
  occurrence : lane'.counter.occurrence = lane.counter.occurrence
  count : lane.counter.occurrence.Sized → lane.counter.count ≤ largestSize →
    lane'.counter.count = lane.counter.count + added.count lane.index ∧ lane'.counter.count ≤ largestSize

namespace Engine.Lane.Advances

variable {lane lane₁ lane₂ : Lane} {added added₁ : List Nat}

/-- Children of other lanes do not matter. -/
theorem of_not_mem (h : lane.index ∉ added) : lane.Advances added lane :=
  ⟨rfl, rfl, rfl, rfl, fun _ hc => ⟨by rw [List.count_eq_zero.2 h, Nat.add_zero], hc⟩⟩

/-- Children that come later are counted with those before. -/
theorem trans (h : lane.Advances added lane₁) (h' : lane₁.Advances added₁ lane₂) :
    lane.Advances (added ++ added₁) lane₂ := by
  refine ⟨h'.index.trans h.index, h'.edge.trans h.edge, h'.context.trans h.context, h'.occurrence.trans h.occurrence, ?_⟩
  intro hs hc
  obtain ⟨h1, h2⟩ := h.count hs hc
  obtain ⟨h3, h4⟩ := h'.count (by rw [h.occurrence]; exact hs) h2
  rw [h.index, h1] at h3
  rw [List.count_append]
  exact ⟨by omega, h4⟩

end Engine.Lane.Advances

/-- An attempt tags the children that it brings with the place of its lane, which counts them. -/
theorem Engine.Progress.accept_tags {p : Progress} (a : Attempt) (hm : p.lane.counter.acceptsMore = true) :
    ∃ count, (p.accept a).2.gathering.tags = p.gathering.tags ++ List.replicate count p.lane.index ∧
      p.lane.Advances (List.replicate count p.lane.index) (p.accept a).2.lane := by
  cases hs : a.statement with
  | none =>
    refine ⟨0, ?_⟩
    rw [accept_failure hs]
    exact ⟨(List.append_nil _).symm, .of_not_mem (List.not_mem_nil)⟩
  | some s =>
    cases he : s.region.isEmpty with
    | true =>
      refine ⟨p.lane.counter.missing, ?_⟩
      rw [accept_empty hs he]
      refine ⟨Gathering.tags_pushMany _ _ _, rfl, rfl, rfl, rfl, fun hsized hc => ⟨?_, Nat.min_le_right _ _⟩⟩
      rw [List.count_replicate_self]
      exact Counter.count_addMissing hsized hc
    | false =>
      refine ⟨1, ?_⟩
      rw [accept_consumed hs he]
      refine ⟨by simp [Gathering.tags, Gathering.push, Gathering.look], rfl, rfl, rfl, rfl, fun hsized hc =>
        ⟨?_, Nat.min_le_right _ _⟩⟩
      rw [List.count_replicate_self]
      exact Counter.count_addOne hsized hm

/-! ## Several attempts -/

/-- Some lanes take in attempts one after the other. -/
inductive Taking : List Lane → Gathering → List Lane → Gathering → Prop where
  | refl (lanes : List Lane) (g : Gathering) : Taking lanes g lanes g
  | step {lanes lanes' : List Lane} {g' : Gathering} {i : Nat} {p : Progress} (a : Attempt) :
      lanes[i]? = some p.lane → p.lane.counter.acceptsMore = true →
      Taking (lanes.set i (p.accept a).2.lane) (p.accept a).2.gathering lanes' g' →
      Taking lanes p.gathering lanes' g'

namespace Taking

variable {lanes lanes₁ lanes₂ : List Lane} {g g₁ g₂ : Gathering}

/-- What lanes take in later follows what they have taken in. -/
theorem trans (h : Taking lanes g lanes₁ g₁) (h' : Taking lanes₁ g₁ lanes₂ g₂) : Taking lanes g lanes₂ g₂ := by
  induction h with
  | refl => exact h'
  | step a hi hm _ ih => exact .step a hi hm (ih h')

/-- A lane in front may stand by. -/
theorem cons (h : Taking lanes g lanes₁ g₁) (lane : Lane) : Taking (lane :: lanes) g (lane :: lanes₁) g₁ := by
  induction h with
  | refl => exact .refl _ _
  | @step lanes lanes' g' index p a hi hm _ ih =>
    refine .step (i := index + 1) a ?_ hm ?_
    · rw [List.getElem?_cons_succ]
      exact hi
    · rw [List.set_cons_succ]
      exact ih

/-- The only lane takes in an attempt. -/
theorem single {p : Progress} {lane : Lane} (a : Attempt) (hm : p.lane.counter.acceptsMore = true)
    (h : Taking [(p.accept a).2.lane] (p.accept a).2.gathering [lane] g) : Taking [p.lane] p.gathering [lane] g :=
  .step (i := 0) a rfl hm h

/-- **What lanes count is what their tags say**, as long as no two of them have one tag. -/
theorem tallies (h : Taking lanes g lanes₁ g₁)
    (hd : ∀ (i j : Nat) (lane other : Lane), lanes[i]? = some lane → lanes[j]? = some other →
      lane.index = other.index → i = j) :
    ∃ added, g₁.tags = g.tags ++ added ∧ (∀ tag ∈ added, ∃ (i : Nat) (lane : Lane), lanes[i]? = some lane ∧ lane.index = tag) ∧
      ∀ (i : Nat) (lane : Lane), lanes[i]? = some lane → ∃ lane', lanes₁[i]? = some lane' ∧ lane.Advances added lane' := by
  induction h with
  | refl lanes g =>
    exact ⟨[], (List.append_nil _).symm, fun tag hm => absurd hm (List.not_mem_nil), fun i lane hi =>
      ⟨lane, hi, .of_not_mem (List.not_mem_nil)⟩⟩
  | @step lanes lanes' g' index p a hi hm _ ih =>
    obtain ⟨count, htags, hadvances⟩ := Progress.accept_tags a hm
    -- the lanes are told apart as before
    have hset : ∀ (i : Nat) (lane : Lane), (lanes.set index (p.accept a).2.lane)[i]? = some lane →
        ∃ before, lanes[i]? = some before ∧ lane.index = before.index := by
      intro i lane hlane
      by_cases hii : index = i
      · subst hii
        obtain ⟨hlt, _⟩ := List.getElem?_eq_some_iff.1 hi
        rw [List.getElem?_set_self hlt, Option.some.injEq] at hlane
        subst hlane
        exact ⟨p.lane, hi, hadvances.index⟩
      · rw [List.getElem?_set_ne hii] at hlane
        exact ⟨lane, hlane, rfl⟩
    obtain ⟨added, h1, h2, h3⟩ := ih (by
      intro i j lane other hlane hother hsame
      obtain ⟨lane₀, h4, h5⟩ := hset i lane hlane
      obtain ⟨other₀, h6, h7⟩ := hset j other hother
      exact hd i j lane₀ other₀ h4 h6 (h5.symm.trans (hsame.trans h7)))
    refine ⟨List.replicate count p.lane.index ++ added, by rw [h1, htags, List.append_assoc], ?_, ?_⟩
    · intro tag htag
      rcases List.mem_append.1 htag with htag | htag
      · exact ⟨index, p.lane, hi, (List.eq_of_mem_replicate htag).symm⟩
      · obtain ⟨i, lane, h4, h5⟩ := h2 tag htag
        obtain ⟨before, h6, h7⟩ := hset i lane h4
        exact ⟨i, before, h6, h7.symm.trans h5⟩
    · intro i lane hlane
      by_cases hii : index = i
      · subst hii
        obtain ⟨hlt, _⟩ := List.getElem?_eq_some_iff.1 hi
        obtain rfl : p.lane = lane := Option.some.inj (hi.symm.trans hlane)
        obtain ⟨lane', h4, h5⟩ := h3 index _ (List.getElem?_set_self hlt)
        exact ⟨lane', h4, hadvances.trans h5⟩
      · obtain ⟨lane', h4, h5⟩ := h3 i lane (by rw [List.getElem?_set_ne hii]; exact hlane)
        refine ⟨lane', h4, Lane.Advances.trans (.of_not_mem fun hmem => hii ?_) h5⟩
        exact hd index i p.lane lane hi hlane (List.eq_of_mem_replicate hmem).symm

end Taking

/-- A lane that reads an edge and has counted so many children of it. As above, what was counted for an occurrence whose numbers
are no sizes may be less. -/
structure Engine.Lane.Tallies (edge : Edge) (live : Context) (count : Nat) (lane : Lane) : Prop where
  reads : lane.edge = edge
  context : lane.context = edge.context live
  occurrence : (edge.context live).resolveOccurrence edge.occurrence = .ok lane.counter.occurrence
  count : lane.counter.occurrence.Sized → lane.counter.count = count

/-- An edge whose count is valid was read as often as its occurrence lets it. -/
theorem Engine.Lane.Tallies.fulfilled {edge : Edge} {live : Context} {count : Nat} {lane : Lane}
    (h : lane.Tallies edge live count) (hv : lane.counter.isValid = true) : edge.Fulfilled live count := by
  refine ⟨_, h.occurrence, fun hs => ?_⟩
  rw [← h.count hs]
  exact hv

/-- When the lanes of a container have taken in attempts, its tags say how often each edge was read. -/
theorem Taking.tally {edges : List Edge} {live : Context} {offset : Nat} {lanes lanes' : List Lane} {g : Gathering}
    (hl : Reading.openAll live edges.zipIdx = some lanes) (h : Taking lanes (.begin offset) lanes' g) {index : Nat}
    {edge : Edge} (he : edges[index]? = some edge) :
    ∃ lane, lanes'[index]? = some lane ∧ lane.Tallies edge live (g.tags.count index) := by
  have hreads := ReadAll.of_edges hl
  obtain ⟨added, h1, _, h2⟩ := h.tallies (by
    intro i j lane other hi hj hsame
    rw [← (hreads i lane hi).place, ← (hreads j other hj).place, hsame])
  have htags : g.tags = added := by simpa [Gathering.begin, Gathering.tags] using h1
  have hentry : edges.zipIdx[index]? = some (edge, index) := by
    rw [List.getElem?_zipIdx, he, Option.map_some, Nat.zero_add]
  obtain ⟨lane, hi, hstart⟩ := Reading.exists_of_openAll hl hentry
  obtain ⟨lane', hi', hadvances⟩ := h2 index lane hi
  have hlane := hreads index lane hi
  obtain rfl : edge = lane.edge := Option.some.inj (he.symm.trans hlane.edge)
  refine ⟨lane', hi', hadvances.edge, hadvances.context.trans hlane.opens.context, ?_, fun hsized => ?_⟩
  · rw [hadvances.occurrence, ← hlane.opens.context]
    exact hlane.occurrence
  · rw [hadvances.occurrence] at hsized
    have hcount := (hadvances.count hsized hlane.count).1
    rw [hstart, Nat.zero_add, hlane.place, ← htags] at hcount
    exact hcount

/-! ## Reading edges -/

/-- Nothing is asked of attempts. -/
def Claim.anything : Claim := fun _ _ _ _ => True

/-- Of any run nothing is known. -/
theorem Yields.anything {α : Type} (x : Run α) : Yields .anything (fun _ => True) x :=
  fun _ _ _ _ _ => ⟨trivial, fun _ _ _ => trivial⟩

/-- What is known of all runs is known of each. -/
theorem Yields.of_eq_ok {α : Type} {Q : α → Prop} {x : Run α} (h : Yields .anything Q x) {s t : State} {a : α}
    (hr : x s = .ok (a, t)) : Q a :=
  (h s a t (fun _ _ _ => trivial) hr).1

/-- What holds of all results holds beside what else they are. -/
theorem Yields.beside {α : Type} {P : Claim} {Q Q' : α → Prop} {x : Run α} (h : Yields P Q x)
    (h' : Yields .anything Q' x) : Yields P (fun a => Q a ∧ Q' a) x :=
  fun s a t hs hr => ⟨⟨(h s a t hs hr).1, (h' s a t (fun _ _ _ => trivial) hr).1⟩, (h s a t hs hr).2⟩

/-- Attempts of one edge. As long as none of them succeeds they bring no children. -/
structure Engine.Progress.Leads (p q : Progress) : Prop where
  taking : Taking [p.lane] p.gathering [q.lane] q.gathering
  unmatched : q.matched = false → p.matched = false ∧ q.gathering.tags = p.gathering.tags

namespace Engine.Progress.Leads

variable {p q r : Progress}

theorem refl (p : Progress) : p.Leads p :=
  ⟨.refl _ _, fun h => ⟨h, rfl⟩⟩

/-- Attempts may follow attempts of the same edge. -/
theorem trans (h : p.Leads q) (h' : q.Leads r) : p.Leads r := by
  refine ⟨h.taking.trans h'.taking, fun hr => ?_⟩
  obtain ⟨h1, h2⟩ := h'.unmatched hr
  obtain ⟨h3, h4⟩ := h.unmatched h1
  exact ⟨h3, h2.trans h4⟩

/-- One attempt of an edge that accepts more. -/
theorem accept (a : Attempt) (hm : p.lane.counter.acceptsMore = true) : p.Leads (p.accept a).2 := by
  refine ⟨.single a hm (.refl _ _), fun h => ?_⟩
  obtain ⟨hp, hs⟩ := (p.matched_accept a).1 h
  rw [accept_failure hs]
  exact ⟨hp, rfl⟩

/-- Once an edge has been read from its beginning, its tags say how often. -/
theorem tally {g : Gathering} {edge : Edge} {index : Nat} {live : Context} {lane : Lane}
    (hl : Lane.open index edge live = .ok lane) (h : Progress.Leads { gathering := g, lane } q) :
    ∃ count, q.gathering.tags = g.tags ++ List.replicate count index ∧ q.lane.Tallies edge live count ∧
      (q.matched = false → count = 0) := by
  obtain ⟨occurrence, hres, rfl⟩ := Lane.eq_of_open hl
  obtain ⟨added, h1, h2, h3⟩ := h.taking.tallies (by
    intro i j lane other hi hj _
    simp only [List.getElem?_singleton] at hi hj
    split at hi
    · split at hj
      · omega
      · cases hj
    · cases hi)
  have hadded : added = List.replicate added.length index := by
    rw [List.eq_replicate_iff]
    refine ⟨rfl, fun tag hm => ?_⟩
    obtain ⟨i, lane, hi, hlane⟩ := h2 tag hm
    rw [List.getElem?_singleton] at hi
    split at hi
    · cases hi
      exact hlane.symm
    · cases hi
  obtain ⟨lane', h4, hadvances⟩ := h3 0 _ rfl
  obtain rfl : q.lane = lane' := Option.some.inj h4
  refine ⟨added.length, by rw [h1, ← hadded], ⟨hadvances.edge, hadvances.context, ?_, fun hsized => ?_⟩, fun hmatched => ?_⟩
  · rw [hadvances.occurrence]
    exact hres
  · rw [hadvances.occurrence] at hsized
    have hcount := (hadvances.count hsized (Nat.zero_le _)).1
    rw [hadded, List.count_replicate_self] at hcount
    simpa only [Counter.start, Nat.zero_add] using hcount
  · have hsame := (h.unmatched hmatched).2
    rw [h1] at hsame
    exact List.length_eq_zero_iff.2 (List.append_right_eq_self.1 hsame)

end Engine.Progress.Leads

section

variable {setting : Setting} {attempts : Attempts} {owner : RuleId} {live : Context} {earliers : Earliers}

/-- Further attempts of an edge from scratch are attempts of that edge. -/
theorem readFresh_leads (budget : Nat) (p : Progress) : Yields .anything p.Leads (readFresh attempts owner budget p) := by
  induction budget generalizing p with
  | zero => exact .fail _
  | succ budget ih =>
    rw [readFresh_succ]
    split
    · rename_i hm
      refine (Yields.anything _).bind fun a _ => ?_
      have haccept := Progress.Leads.accept a hm
      split
      · exact (ih _).mono fun r hr => haccept.trans hr
      · exact .pure haccept
    · exact .pure (.refl p)

/-- Attempts of an edge on earlier children are attempts of that edge. -/
theorem readAgain_leads (earlier : List Earlier) (p : Progress) :
    Yields .anything (fun r => p.Leads r.2) (readAgain attempts earlier p) := by
  induction earlier generalizing p with
  | nil => exact .pure (.refl p)
  | cons e rest ih =>
    rw [readAgain_cons]
    split
    · rename_i hm
      refine (Yields.anything _).bind fun a _ => ?_
      have haccept := Progress.Leads.accept a hm
      split
      · exact (ih _).mono fun r hr => haccept.trans hr
      · exact .pure haccept
    · exact .pure (.refl p)

/-- An edge is read by attempts of that edge. -/
theorem readLane_leads (earlier : List Earlier) (p : Progress) :
    Yields .anything p.Leads (readLane setting attempts owner earlier p) := by
  rw [readLane]
  refine (readAgain_leads earlier p).bind ?_
  rintro ⟨done, q⟩ hq
  cases done with
  | true => exact .pure hq
  | false => exact (readFresh_leads _ q).mono fun r hr => hq.trans hr

/-! ## Containers in order -/

/-- Edges read one after the other tag their children in order. Where all were read, each was as often as its occurrence
lets it. -/
theorem readInOrder_tags (edges : List Edge) (start : Nat) (g : Gathering) :
    Yields .anything (fun r => ∃ added, r.2.tags = g.tags ++ added ∧ added.Pairwise (· ≤ ·) ∧ (∀ tag ∈ added, start ≤ tag) ∧
      (r.1 = true → ∀ (index : Nat) (edge : Edge), edges[index]? = some edge →
        edge.Fulfilled live (added.count (start + index))))
      (readInOrder setting attempts owner live earliers (edges.zipIdx start) g) := by
  induction edges generalizing start g with
  | nil =>
    refine .pure ⟨[], (List.append_nil _).symm, .nil, fun tag hm => absurd hm (List.not_mem_nil), fun _ index edge he => ?_⟩
    cases he
  | cons edge edges ih =>
    rw [List.zipIdx_cons, readInOrder]
    refine (Yields.lift _).bind fun lane hl => ?_
    refine (readLane_leads _ _).bind fun q hq => ?_
    obtain ⟨count, htags, htally, _⟩ := hq.tally hl
    have hfront : ∀ tag ∈ List.replicate count start, tag = start := fun tag hm => List.eq_of_mem_replicate hm
    split
    · rename_i hvalid
      refine (ih (start + 1) q.gathering).mono ?_
      rintro ⟨complete, g'⟩ ⟨added, h1, h2, h3, h4⟩
      refine ⟨List.replicate count start ++ added, by rw [h1, htags, List.append_assoc], ?_, ?_, ?_⟩
      · rw [List.pairwise_append]
        refine ⟨List.pairwise_replicate.2 (Or.inr (Nat.le_refl _)), h2, fun tag hm other ho => ?_⟩
        have h5 := h3 other ho
        rw [hfront tag hm]
        omega
      · intro tag hm
        rcases List.mem_append.1 hm with hm | hm
        · exact Nat.le_of_eq (hfront tag hm).symm
        · have h5 := h3 tag hm
          omega
      · intro hcomplete index other he
        rw [List.count_append]
        cases index with
        | zero =>
          cases he
          have hlater : start ∉ added := fun hm => absurd (h3 start hm) (Nat.not_succ_le_self start)
          rw [Nat.add_zero, List.count_replicate_self, List.count_eq_zero.2 hlater, Nat.add_zero]
          exact htally.fulfilled hvalid
        | succ index =>
          have hearlier : start + (index + 1) ∉ List.replicate count start := fun hm => by
            have h5 := hfront _ hm
            omega
          have h5 := h4 hcomplete index other he
          rw [List.count_eq_zero.2 hearlier, Nat.zero_add, ← Nat.add_assoc, Nat.add_right_comm]
          exact h5
    · refine .pure ⟨List.replicate count start, htags, List.pairwise_replicate.2 (Or.inr (Nat.le_refl _)), ?_, ?_⟩
      · exact fun tag hm => Nat.le_of_eq (hfront tag hm).symm
      · exact fun h => by cases h

/-- What an ordered container comes to, if not to a failure. -/
theorem inOrder_tags (rule : RuleId) (edges : List Edge) (offset : Nat) :
    Yields .anything (fun a => a.statement = none ∨ ∃ id g, a = Reading.succeed id g rule none ∧
      ContainerKind.inOrder.Arranges edges live g.tags none)
      (inOrder setting attempts rule edges earliers offset live) := by
  rw [inOrder]
  refine Yields.mark.bind fun mark _ => ?_
  refine (readInOrder_tags edges 0 (.begin offset)).bind ?_
  rintro ⟨complete, g⟩ ⟨added, h1, h2, _, h3⟩
  cases complete with
  | true =>
    refine (succeed_yields g rule none).mono ?_
    rintro a ⟨id, rfl⟩
    have htags : g.tags = added := by simpa [Gathering.begin, Gathering.tags] using h1
    refine Or.inr ⟨id, g, rfl, rfl, by rw [htags]; exact h2, fun index edge he => ?_⟩
    have h4 := h3 rfl index edge he
    rw [Nat.zero_add, ← htags] at h4
    exact h4
  | false => exact (Yields.rollback mark).bind fun _ _ => .pure (Or.inl rfl)

/-! ## Containers of the first that fits -/

/-- The children of a choice all have the tag of the chosen edge, which was read as often as its occurrence lets it. -/
theorem readFirst_tags {edges : List Edge} {entries : List (Edge × Nat)}
    (he : ∀ entry ∈ entries, edges[entry.2]? = some entry.1) (g : Gathering) :
    Yields .anything (fun r => ∀ index, r.1 = .chosen index → ∃ edge count, edges[index]? = some edge ∧
      r.2.tags = g.tags ++ List.replicate count index ∧ edge.Fulfilled live count)
      (readFirst setting attempts owner live earliers entries g) := by
  induction entries generalizing g with
  | nil => exact .pure fun index h => by cases h
  | cons entry entries ih =>
    obtain ⟨edge, place⟩ := entry
    rw [readFirst]
    refine (Yields.lift _).bind fun lane hl => ?_
    refine (readLane_leads _ _).bind fun q hq => ?_
    obtain ⟨count, htags, htally, hunmatched⟩ := hq.tally hl
    split
    · rename_i hvalid
      refine .pure fun index h => ?_
      cases h
      exact ⟨edge, count, he _ (List.mem_cons_self ..), htags, htally.fulfilled hvalid⟩
    · split
      · exact .pure fun index h => by cases h
      · rename_i hmatched
        -- an edge that did not succeed has left no children
        rw [hunmatched (Bool.not_eq_true _ ▸ hmatched), List.replicate_zero, List.append_nil] at htags
        have hrest := ih (fun e hm => he e (List.mem_cons_of_mem _ hm)) q.gathering
        rw [htags] at hrest
        exact hrest

/-- What a choice comes to, if not to a failure. -/
theorem firstOrder_tags (rule : RuleId) (edges : List Edge) (offset : Nat) :
    Yields .anything (fun a => a.statement = none ∨ ∃ id g chosen, a = Reading.succeed id g rule chosen ∧
      ContainerKind.firstOrder.Arranges edges live g.tags chosen)
      (firstOrder setting attempts rule edges earliers offset live) := by
  rw [firstOrder]
  refine Yields.mark.bind fun mark _ => ?_
  refine (readFirst_tags Reading.getElem?_of_mem_zipIdx (.begin offset)).bind ?_
  rintro ⟨choice, g⟩ hchoice
  cases choice with
  | chosen index =>
    obtain ⟨edge, count, hedge, htags, hfulfilled⟩ := hchoice index rfl
    refine (succeed_yields g rule (some index)).mono ?_
    rintro a ⟨id, rfl⟩
    have hall : g.tags = List.replicate count index := by simpa [Gathering.begin, Gathering.tags] using htags
    refine Or.inr ⟨id, g, some index, rfl, index, edge, rfl, hedge, ?_, ?_⟩
    · rw [hall]
      exact fun tag hm => List.eq_of_mem_replicate hm
    · rw [hall, List.count_replicate_self]
      exact hfulfilled
  | broken => exact (Yields.rollback mark).bind fun _ _ => .pure (Or.inl rfl)
  | none => exact .pure (Or.inl rfl)

/-! ## Containers in any order -/

/-- Replayed children are taken in by their lanes one after the other. -/
theorem replay_taking (children : List (Nat × Earlier)) (lanes : List Lane) (g : Gathering) :
    Yields .anything (fun r => Taking lanes g r.1 r.2) (replay attempts children lanes g) := by
  induction children generalizing lanes g with
  | nil => exact .pure (.refl _ _)
  | cons child rest ih =>
    obtain ⟨index, earlier⟩ := child
    rw [replay]
    cases hi : lanes[index]? with
    | none => exact .pure (.refl _ _)
    | some lane =>
      simp only
      split
      · rename_i hm
        refine (Yields.anything _).bind fun a _ => ?_
        split
        · exact .pure (.step (p := { gathering := g, lane }) a hi hm (.refl _ _))
        · exact (ih _ _).mono fun r hr => .step (p := { gathering := g, lane }) a hi hm hr
      · exact .pure (.refl _ _)

/-- In one pass each lane takes in attempts in its turn. -/
theorem scan_taking (lanes : List Lane) (g : Gathering) :
    Yields .anything (fun r => Taking lanes g r.2.1 r.2.2) (scan attempts lanes g) := by
  induction lanes generalizing g with
  | nil => exact .pure (.refl _ _)
  | cons lane lanes ih =>
    rw [scan]
    split
    · rename_i hm
      refine (Yields.anything _).bind fun a _ => ?_
      simp only
      split
      · exact .pure (.step (p := { gathering := g, lane }) (i := 0) a rfl hm (.refl _ _))
      · refine (ih _).bind fun r hr => .pure ?_
        exact .step (p := { gathering := g, lane }) (i := 0) a rfl hm (hr.cons _)
    · exact (ih g).bind fun r hr => .pure (hr.cons lane)

/-- All passes together are attempts that the lanes take in one after the other. -/
theorem scanAll_taking (budget : Nat) (lanes : List Lane) (g : Gathering) :
    Yields .anything (fun r => Taking lanes g r.1 r.2) (scanAll attempts owner budget lanes g) := by
  induction budget generalizing lanes g with
  | zero => exact .fail _
  | succ budget ih =>
    rw [scanAll]
    refine (scan_taking lanes g).bind ?_
    rintro ⟨found, lanes1, g1⟩ h1
    simp only
    split
    · exact (ih lanes1 g1).mono fun r hr => h1.trans hr
    · exact .pure h1

/-- A container in any order opens all its lanes, and in the end the tags say how often each edge was read. -/
theorem anyOrder_tags (rule : RuleId) (edges : List Edge) (offset : Nat) :
    Yields .anything (fun a => a.statement = none ∨ ∃ id g, a = Reading.succeed id g rule none ∧
      ContainerKind.anyOrder.Arranges edges live g.tags none)
      (anyOrder setting attempts rule edges earliers offset live) := by
  rw [anyOrder]
  refine Yields.mark.bind fun mark _ => ?_
  refine (openAll_yields _).bind fun lanes hlanes => ?_
  refine (replay_taking earliers.children lanes (.begin offset)).bind ?_
  rintro ⟨lanes1, g1⟩ h1
  refine (scanAll_taking _ lanes1 g1).bind ?_
  rintro ⟨lanes2, g⟩ h2
  simp only
  split
  · rename_i hvalid
    refine (succeed_yields g rule none).mono ?_
    rintro a ⟨id, rfl⟩
    refine Or.inr ⟨id, g, rfl, rfl, fun index edge he => ?_⟩
    obtain ⟨lane, hi, htally⟩ := (h1.trans h2).tally hlanes he
    exact htally.fulfilled (List.all_eq_true.1 hvalid lane (List.mem_of_getElem? hi))
  · exact (Yields.rollback mark).bind fun _ _ => .pure (Or.inl rfl)

/-! ## Bodies of rules -/

/-- A value comes to its body under its name, if not to a failure. -/
theorem value_tags (rule : RuleId) (name : String) (nonEmpty : Bool) (edges : List Edge) (offset : Nat) :
    Yields .anything (fun a => a.statement = none ∨ ∃ (id inner : NodeId) (text : String) (g : Gathering),
      a = .success (.value id (g.statement inner).region name text (g.statement inner))
        (.around rule (g.derivation rule none)) ∧
      (ContainerKind.value nonEmpty).Arranges edges live g.tags none)
      (value setting attempts rule name nonEmpty edges earliers offset live) := by
  rw [value]
  refine Yields.openValue.bind fun _ _ => ?_
  refine (inOrder_tags rule edges offset).bind fun body hbody => ?_
  refine Yields.closeValue.bind fun text _ => ?_
  rcases hbody with hnone | ⟨inner, g, rfl, harranges⟩
  · rw [hnone]
    exact .pure (Or.inl rfl)
  · simp only [Reading.succeed, Attempt.success]
    split
    · exact .pure (Or.inl rfl)
    · exact Yields.freshId.bind fun id _ => .pure (Or.inr ⟨id, inner, text, g, rfl, harranges⟩)

end

/-- The tags of the children of a container, and the edge that it chose. Those of a value are those of its body. -/
def Derivation.arrangement : Derivation → List Nat × Option Nat
  | .group _ _ _ edges chosen | .wrap _ _ (.group _ _ _ edges chosen) => (edges, chosen)
  | _ => ([], none)

/-- An attempt of a rule that is a container has read each of its edges as often as its occurrence lets it, and a value has the
name of its rule. -/
structure Attempt.Arranged (grammar : Grammar) (rule : RuleId) (context : Context) (a : Attempt) : Prop where
  arranges : ∀ s kind edges, a.statement = some s → grammar.body? rule = some (.container kind edges) →
    kind.Arranges edges context a.derivation.arrangement.1 a.derivation.arrangement.2
  named : ∀ s known nonEmpty edges, a.statement = some s → grammar.rule? rule = some known →
    known.body = .container (.value nonEmpty) edges → s.name? = some (known.name.getD "")

namespace Attempt.Arranged

variable {grammar : Grammar} {rule : RuleId} {context : Context} {a : Attempt}

/-- A failure has no children to be arranged. -/
theorem of_failure (h : a.statement = none) : a.Arranged grammar rule context := by
  constructor
  · intro s kind edges hs
    rw [h] at hs
    cases hs
  · intro s known nonEmpty edges hs
    rw [h] at hs
    cases hs

/-- Of other rules nothing is asked. -/
theorem of_other (h : ∀ kind edges, grammar.body? rule ≠ some (.container kind edges)) : a.Arranged grammar rule context := by
  constructor
  · intro s kind edges _ hr
    exact absurd hr (h kind edges)
  · intro s known nonEmpty edges _ hk hb
    exact absurd (by rw [Grammar.body?, hk, Option.map_some, hb]) (h (.value nonEmpty) edges)

/-- Of a container that is no value no name is asked. -/
theorem of_plain {kind : ContainerKind} {edges : List Edge} (hr : grammar.body? rule = some (.container kind edges))
    (hplain : ∀ nonEmpty, kind ≠ .value nonEmpty)
    (h : kind.Arranges edges context a.derivation.arrangement.1 a.derivation.arrangement.2) :
    a.Arranged grammar rule context := by
  constructor
  · intro s kind' edges' _ hr'
    rw [hr] at hr'
    cases hr'
    exact h
  · intro s known nonEmpty edges' _ hk hb
    rw [Grammar.body?, hk, Option.map_some, hb] at hr
    cases hr
    exact absurd rfl (hplain nonEmpty)

end Attempt.Arranged

section

variable {setting : Setting} {attempts : Attempts} {rule : RuleId} {known : Rule} {offset : Nat} {context : Context}

/-- Attempting a container comes to what is arranged as it wants. -/
theorem container_arranged (hk : setting.grammar.getRule rule = .ok known) {kind : ContainerKind} {edges : List Edge}
    (hbody : known.body = .container kind edges) (earliers : Earliers) :
    Yields .anything (·.Arranged setting.grammar rule context)
      (container setting attempts rule known kind edges earliers offset context) := by
  have hr := Grammar.body?_of_getRule hk
  rw [hbody] at hr
  cases kind with
  | inOrder =>
    refine (inOrder_tags rule edges offset).mono ?_
    rintro a (hnone | ⟨id, g, rfl, harranges⟩)
    · exact .of_failure hnone
    · exact .of_plain hr (by simp) harranges
  | anyOrder =>
    refine (anyOrder_tags rule edges offset).mono ?_
    rintro a (hnone | ⟨id, g, rfl, harranges⟩)
    · exact .of_failure hnone
    · exact .of_plain hr (by simp) harranges
  | firstOrder =>
    refine (firstOrder_tags rule edges offset).mono ?_
    rintro a (hnone | ⟨id, g, chosen, rfl, harranges⟩)
    · exact .of_failure hnone
    · exact .of_plain hr (by simp) harranges
  | value nonEmpty =>
    refine (value_tags rule (known.name.getD "") nonEmpty edges offset).mono ?_
    rintro a (hnone | ⟨id, inner, text, g, rfl, harranges⟩)
    · exact .of_failure hnone
    · constructor
      · intro s kind' edges' _ hr'
        rw [hr] at hr'
        cases hr'
        exact harranges
      · intro s known' nonEmpty' edges' hs hk' _
        cases hs
        rw [Grammar.rule?_of_getRule hk] at hk'
        cases hk'
        rfl

/-- So does reading the body of a rule, whatever the attempts come to. -/
theorem readBody_arranged :
    Yields .anything (·.Arranged setting.grammar rule context) (readBody setting attempts rule offset context) := by
  rw [readBody]
  refine (Yields.lift _).bind fun known hk => ?_
  have hr := Grammar.body?_of_getRule hk
  cases hbody : known.body with
  | consume kind pattern => exact (Yields.anything _).mono fun a _ => .of_other (by simp [hr, hbody])
  | container kind edges => exact container_arranged hk hbody {}
  | invoke call => exact (Yields.anything _).mono fun a _ => .of_other (by simp [hr, hbody])

/-- The body of a rule, read again on an earlier node, arranges its children as its kind asks. -/
theorem rereadBody_arranged (s : Statement) (d : Derivation) :
    Yields .anything (·.Arranged setting.grammar rule context) (rereadBody setting attempts rule s d offset context) := by
  rw [rereadBody]
  refine (Yields.lift _).bind fun known hk => ?_
  have hr := Grammar.body?_of_getRule hk
  cases hbody : known.body with
  | consume kind pattern => exact (Yields.anything _).mono fun a _ => .of_other (by simp [hr, hbody])
  | container kind edges => exact container_arranged hk hbody (earliersOf kind s d)
  | invoke call => exact (Yields.anything _).mono fun a _ => .of_other (by simp [hr, hbody])

end

/-- A property passes from the attempts that a rule makes to the rule itself, where their children are arranged as it wants. -/
def Claim.Passes (grammar : Grammar) (input : String) (P : Claim) : Prop :=
  ∀ rule offset context a, Body grammar input P rule offset context a → a.Arranged grammar rule context →
    P rule offset context a

/-- A closed claim about single attempts passes from what a rule attempts to the rule. -/
theorem Claim.Closed.passes {grammar : Grammar} {input : String} {P : Claim} (h : P.Closed grammar input) :
    P.Passes grammar input :=
  fun _ _ _ _ hb _ => h _ _ _ _ hb

end Graft
