import Mathlib.Algebra.GroupWithZero.Nat
import Graft.Proofs.Rows
import Graft.Proofs.Tracks

/-!
# How many patterns an attempt takes

On the way to what it comes to, an attempt matches patterns: its own where it consumes text, and those of the attempts that it
makes, also of those that fail. A node that was kept has taken what it took when it was read. An attempt has looked at something
exactly when it has taken some pattern, and then it has looked further than it has read.
-/

namespace Graft

open Engine

/-! ## How far rules have looked -/

/-- A window that reaches at most one byte past the end of one text does so in the other. -/
theorem Text.Alike.stop_le {u v : String} {o p n : Nat} (h : Text.Alike u v o p n) (hn : o + n ≤ Text.size u + 1) :
    p + n ≤ Text.size v + 1 := by
  have h1 := congrArg List.length h.window
  have h2 := h.left
  have h3 := h.right
  simp only [List.length_take, List.length_drop, Text.length_bytes] at h1
  omega

/-- A region inside one that is carried is carried, too. -/
theorem Region.Carried.inside {u w : String} {v : Region → Region} {interest other : Region} {p : Nat}
    (h : Region.Carried u w v interest p) (hin : other.Inside interest) (ho : other.offset ≤ Text.size u) :
    ∃ q, Region.Carried u w v other q := by
  have h1 := h.moves other hin
  have h2 := hin.offset
  have h3 := hin.stop
  simp only [Region.movedBy, Region.mk.injEq, Region.stop] at h1 h3
  have h4 := h.alike.within (k := other.offset - interest.offset) (m := other.length) (by omega) (by omega)
  rw [Nat.add_sub_cancel' h2] at h4
  refine ⟨p + (other.offset - interest.offset), ?_, h4⟩
  intro r hr
  have h5 := hin.seen
  have h6 := hr.offset
  have h7 := hr.stop
  have h8 := hr.seen
  have h9 := h.moves r ⟨by omega, by simp only [Region.stop] at *; omega, by simp only [Region.stop] at *; omega⟩
  simp only [Region.movedBy, Region.mk.injEq] at h9 ⊢
  omega

/-- What has been gathered from an offset on lies inside a text, and was looked for at most one byte past its end. -/
structure Engine.Gathering.Bounded (input : String) (offset : Nat) (g : Gathering) : Prop where
  start : g.start = offset
  cursor : g.cursor ≤ Text.size input
  interest : g.interest.stop ≤ Text.size input + 1

namespace Engine.Gathering.Bounded

variable {input : String} {offset : Nat} {g : Gathering}

theorem push (h : g.Bounded input offset) {child : Taken} (hc : child.statement.region.stop ≤ Text.size input) :
    (g.push child).Bounded input offset :=
  ⟨h.start, hc, h.interest⟩

theorem pushMany (h : g.Bounded input offset) {child : Taken} (hc : child.statement.region.stop ≤ Text.size input)
    (count : Nat) : (g.pushMany child count).Bounded input offset := by
  induction count generalizing g with
  | zero => exact h
  | succ count ih => exact ih (h.push hc)

/-- A group of what has been gathered lies inside the text. -/
theorem stop (h : g.Bounded input offset) (ho : offset ≤ Text.size input) (id : NodeId) :
    (g.statement id).region.stop ≤ Text.size input := by
  have h1 := h.start
  have h2 := h.cursor
  simp only [Gathering.statement, Statement.region, Region.stop]
  omega

end Engine.Gathering.Bounded

section

variable [Pattern.Compiler]

/-- An attempt inside a text that looked at most one byte past its end, and read nothing beyond it. -/
def Bounded (input : String) : Claim := fun _ offset _ a =>
  offset ≤ Text.size input → a.interest.stop ≤ Text.size input + 1 ∧
    ∀ s, a.statement = some s → s.region.stop ≤ Text.size input

/-- Attempts inside a text are gathered to what lies inside it. -/
theorem Gathered.bounded {input : String} {P : Claim} (hP : ∀ r o c a, P r o c a → Bounded input r o c a)
    {edges : List Edge} {live : Context} {offset : Nat} (hb : offset ≤ Text.size input) {g : Gathering}
    (h : Gathered P edges live offset g) : g.Bounded input offset := by
  induction h with
  | begin =>
    refine ⟨rfl, hb, ?_⟩
    simp only [Gathering.begin, Region.stop]
    omega
  | @accept p a _ _ ha ih =>
    obtain ⟨h1, h2⟩ := hP _ _ _ _ ha ih.cursor
    have hlook : (p.gathering.look a.interest).Bounded input offset := by
      refine ⟨ih.start, ih.cursor, ?_⟩
      have h3 := ih.interest
      simp only [Gathering.look, Region.expandTo, Region.stop] at *
      omega
    cases hs : a.statement with
    | none =>
      rw [Progress.accept_failure hs]
      exact hlook
    | some s =>
      cases he : s.region.isEmpty with
      | true =>
        rw [Progress.accept_empty hs he]
        exact hlook.pushMany (h2 s hs) _
      | false =>
        rw [Progress.accept_consumed hs he]
        exact @Engine.Gathering.Bounded.push _ _ _ hlook ⟨p.lane.index, s, a.derivation⟩ (h2 s hs)

/-- Attempts inside a text make up rules that are. -/
theorem Body.bounded {grammar : Grammar} {input : String} {P : Claim} (hP : ∀ r o c a, P r o c a → Bounded input r o c a)
    {rule : RuleId} {offset : Nat} {context : Context} {a : Attempt} (h : Body grammar input P rule offset context a) :
    Bounded input rule offset context a := by
  intro hb
  have hexamined : ∀ pattern : Pattern,
      offset + (pattern.matchFront ((Text.bytes input).drop offset)).examined ≤ Text.size input + 1 := by
    intro pattern
    have h1 := pattern.examined_le ((Text.bytes input).drop offset)
    rw [List.length_drop, Text.length_bytes] at h1
    omega
  cases h with
  | @unmatched kind binding pattern rules boundary =>
    refine ⟨hexamined pattern, ?_⟩
    intro s hs
    cases hs
  | @matched kind binding pattern length text id rules found cut =>
    refine ⟨hexamined pattern, ?_⟩
    intro s hs
    cases hs
    have h1 := Text.size_of_slice? cut
    have h2 := Text.le_size_of_isBoundary (Text.slice?_eq_some_iff.1 cut).2.1
    simp only [Statement.region, Region.stop]
    omega
  | full id chosen rules plain gathered =>
    have hg := gathered.bounded hP hb
    refine ⟨hg.interest, ?_⟩
    intro s hs
    cases hs
    exact hg.stop hb id
  | short rules gathered =>
    refine ⟨(gathered.bounded hP hb).interest, ?_⟩
    intro s hs
    cases hs
  | valued id inner name text rules gathered =>
    have hg := gathered.bounded hP hb
    refine ⟨hg.interest, ?_⟩
    intro s hs
    cases hs
    exact hg.stop hb inner
  | called id rules resolved attempted =>
    obtain ⟨h1, h2⟩ := hP _ _ _ _ attempted hb
    refine ⟨by rw [Reading.interest_wrap]; exact h1, ?_⟩
    intro s hs
    obtain ⟨t, ha, rfl, _⟩ := Reading.wrap_eq_success hs
    exact h2 t ha

/-! ## Taking patterns -/

/-- An attempt of an edge: the lane, the offset, what it came to, and how many patterns it took. -/
structure Trial where
  lane : Lane
  offset : Nat
  attempt : Attempt
  taken : Nat

/-- What is gathered from an offset on by attempts of some edges, the last one first. -/
inductive Trail (edges : List Edge) (live : Context) (offset : Nat) : List Trial → Gathering → Prop where
  | begin : Trail edges live offset [] (.begin offset)
  | accept {trials : List Trial} {p : Progress} (trail : Trail edges live offset trials p.gathering)
      (opens : p.lane.Opens edges live) (a : Attempt) (taken : Nat) :
      Trail edges live offset (⟨p.lane, p.gathering.cursor, a, taken⟩ :: trials) (p.accept a).2.gathering

/-- An attempt of a rule on a text takes so many patterns to come to what it does. A node that was kept took its patterns on an
earlier text, in which its rule saw what it would see here. -/
inductive Takes (grammar : Grammar) : String → RuleId → Nat → Context → Attempt → Nat → Prop where
  | unmatched {input : String} {rule : RuleId} {offset : Nat} {context : Context} {kind : ConsumeKind} {binding : Binding}
      {pattern : Pattern} (rules : grammar.body? rule = some (.consume kind binding))
      (boundary : Text.isBoundary input offset = true) :
      Takes grammar input rule offset context
        (.failure rule ⟨offset, (pattern.matchFront ((Text.bytes input).drop offset)).examined⟩) 1
  | matched {input : String} {rule : RuleId} {offset : Nat} {context : Context} {kind : ConsumeKind} {binding : Binding}
      {pattern : Pattern} {length : Nat} {text : String} (id : NodeId)
      (rules : grammar.body? rule = some (.consume kind binding))
      (found : (pattern.matchFront ((Text.bytes input).drop offset)).length = some length)
      (cut : Text.slice? input offset (offset + length) = some text) :
      Takes grammar input rule offset context
        (.success (.leaf id ⟨offset, Text.size text⟩ text)
          (.leaf rule ⟨offset, (pattern.matchFront ((Text.bytes input).drop offset)).examined⟩)) 1
  | full {input : String} {rule : RuleId} {offset : Nat} {context : Context} {kind : ContainerKind} {edges : List Edge}
      {trials : List Trial} {g : Gathering} (id : NodeId) (chosen : Option Nat)
      (rules : grammar.body? rule = some (.container kind edges)) (trail : Trail edges context offset trials g)
      (each : ∀ t ∈ trials, Takes grammar input t.lane.edge.rule t.offset t.lane.context t.attempt t.taken) :
      Takes grammar input rule offset context (Reading.succeed id g rule chosen) (trials.map (·.taken)).sum
  | short {input : String} {rule : RuleId} {offset : Nat} {context : Context} {kind : ContainerKind} {edges : List Edge}
      {trials : List Trial} {g : Gathering} (rules : grammar.body? rule = some (.container kind edges))
      (trail : Trail edges context offset trials g)
      (each : ∀ t ∈ trials, Takes grammar input t.lane.edge.rule t.offset t.lane.context t.attempt t.taken) :
      Takes grammar input rule offset context (g.fail rule) (trials.map (·.taken)).sum
  | valued {input : String} {rule : RuleId} {offset : Nat} {context : Context} {s : Statement} {d : Derivation} {n : Nat}
      (id : NodeId) (name text : String) (body : Takes grammar input rule offset context (.success s d) n) :
      Takes grammar input rule offset context (.success (.value id s.region name text s) (.around rule d)) n
  | called {input : String} {rule target : RuleId} {offset : Nat} {context inside : Context} {call : Invocation}
      {a : Attempt} {n : Nat} (id : NodeId) (rules : grammar.body? rule = some (.invoke call))
      (resolved : resolveCall grammar call context = .ok (target, inside))
      (attempted : Takes grammar input target offset inside a n) :
      Takes grammar input rule offset context (Reading.wrap id rule call a) n
  | renamed {input : String} {rule : RuleId} {offset : Nat} {context : Context} {s : Statement} {d : Derivation} {n : Nat}
      (name : String) (took : Takes grammar input rule offset context (.success s d) n) :
      Takes grammar input rule offset context (.success (s.renamed name) d) n
  | kept {before input : String} {rule rule' : RuleId} {offset p : Nat} {context context' : Context} {s : Statement}
      {d : Derivation} {n : Nat} {v : Region → Region} (took : Takes grammar before rule offset context (.success s d) n)
      (carried : Region.Carried before input v d.interest p) :
      Takes grammar input rule' p context' (.success (s.placed v) (d.placed v)) n

namespace Trail

variable {edges : List Edge} {live : Context} {offset : Nat} {trials : List Trial} {g : Gathering}

/-- What the attempts of a trail have in common, their children are gathered from. -/
theorem gathered {P : Claim} (h : Trail edges live offset trials g)
    (hP : ∀ t ∈ trials, P t.lane.edge.rule t.offset t.lane.context t.attempt) : Gathered P edges live offset g := by
  induction h with
  | begin => exact .begin
  | accept _ opens a taken ih =>
    exact .accept (ih fun t hm => hP t (List.mem_cons_of_mem _ hm)) opens (hP _ (List.mem_cons_self ..))

/-- What can be gathered is gathered along a trail. -/
theorem of_gathered {Q : RuleId → Nat → Context → Attempt → Nat → Prop}
    (h : Gathered (fun r o c a => ∃ n, Q r o c a n) edges live offset g) :
    ∃ trials, Trail edges live offset trials g ∧
      ∀ t ∈ trials, Q t.lane.edge.rule t.offset t.lane.context t.attempt t.taken := by
  induction h with
  | begin =>
    refine ⟨[], .begin, ?_⟩
    intro t hm
    cases hm
  | @accept p a _ opens ha ih =>
    obtain ⟨trials, trail, each⟩ := ih
    obtain ⟨n, hn⟩ := ha
    exact ⟨_, trail.accept opens a n, List.forall_mem_cons.2 ⟨hn, each⟩⟩

/-- Each child was read by an attempt of the trail. -/
theorem child (h : Trail edges live offset trials g) : ∀ child ∈ g.children, ∃ t ∈ trials,
    t.attempt = .success child.statement child.derivation := by
  induction h with
  | begin => simp [Gathering.begin]
  | @accept trials p _ _ a taken ih =>
    intro child hm
    rcases Progress.mem_children_accept hm with hm | ⟨s, hs, rfl⟩
    · obtain ⟨t, ht, heq⟩ := ih child hm
      exact ⟨t, List.mem_cons_of_mem _ ht, heq⟩
    · exact ⟨_, List.mem_cons_self .., by rw [Attempt.success, ← hs]⟩

/-- A container has looked at something exactly when one of its attempts took a pattern. -/
theorem sum_eq_zero_iff (h : Trail edges live offset trials g)
    (hlaid : ∀ t ∈ trials, Laid t.lane.edge.rule t.offset t.lane.context t.attempt)
    (htaken : ∀ t ∈ trials, t.taken = 0 ↔ t.attempt.interest.length = 0) :
    (trials.map (·.taken)).sum = 0 ↔ g.interest.length = 0 := by
  induction h with
  | begin => exact Iff.rfl
  | @accept trials p trail opens a taken ih =>
    have hrest : ∀ t ∈ trials, Laid t.lane.edge.rule t.offset t.lane.context t.attempt :=
      fun t hm => hlaid t (List.mem_cons_of_mem _ hm)
    have h1 := ih hrest fun t hm => htaken t (List.mem_cons_of_mem _ hm)
    have h2 : taken = 0 ↔ a.interest.length = 0 := htaken _ (List.mem_cons_self ..)
    have h3 : a.interest.offset = p.gathering.cursor := (hlaid _ (List.mem_cons_self ..)).1
    -- where nothing was looked at before, the cursor is still at the start
    have hg := (trail.gathered hrest).laid fun _ _ _ _ h => h
    have h4 := hg.interest
    have h5 := hg.cursor
    have h6 := hg.reached
    rw [Progress.interest_accept, List.map_cons, List.sum_cons]
    simp only [Region.expandTo, Region.stop] at *
    omega

end Trail

namespace Takes

variable {grammar : Grammar} {input : String} {rule : RuleId} {offset : Nat} {context : Context} {a : Attempt} {n : Nat}

/-- Attempts look from their offset on, and read well-formed trees from there. -/
theorem laid (h : Takes grammar input rule offset context a n) : Laid rule offset context a := by
  induction h with
  | unmatched rules boundary =>
    exact (Body.unmatched (P := fun _ _ _ _ => False) rules boundary).laid fun _ _ _ _ h => h.elim
  | matched id rules found cut =>
    exact (Body.matched (P := fun _ _ _ _ => False) id rules found cut).laid fun _ _ _ _ h => h.elim
  | @full input rule offset context kind edges trials g id chosen rules trail each ih =>
    have hg := (trail.gathered ih).laid fun _ _ _ _ h => h
    refine ⟨hg.interest, ?_⟩
    intro s hs
    cases hs
    exact ⟨hg.start, hg.group id rule chosen⟩
  | short rules trail each ih =>
    refine ⟨((trail.gathered ih).laid fun _ _ _ _ h => h).interest, ?_⟩
    intro s hs
    cases hs
  | valued id name text body ih =>
    refine ⟨ih.1, ?_⟩
    intro s hs
    cases hs
    obtain ⟨h1, h2⟩ := ih.2 _ rfl
    exact ⟨h1, .value h2⟩
  | @called input rule target offset context inside call a n id rules resolved attempted ih =>
    have hbody : Body grammar input Laid rule offset context (Reading.wrap id rule call a) := .called id rules resolved ih
    exact hbody.laid fun _ _ _ _ h => h
  | @renamed input rule offset context s d n name took ih =>
    refine ⟨ih.1, ?_⟩
    intro s' hs
    cases hs
    obtain ⟨h1, h2⟩ := ih.2 s rfl
    rw [← Reading.region_shown (some name)] at h1
    exact ⟨h1, h2.renamed name⟩
  | @kept before input rule rule' offset p context context' s d n v took carried ih =>
    obtain ⟨_, _, hformed⟩ := ih.success
    obtain ⟨hplaced, hinterest, hoffset⟩ := hformed.carried carried
    refine ⟨congrArg Region.offset hinterest, ?_⟩
    intro s' hs
    cases hs
    exact ⟨hoffset, hplaced⟩

/-- Attempts inside a text stay inside it. -/
theorem bounded (h : Takes grammar input rule offset context a n) : Bounded input rule offset context a := by
  induction h with
  | unmatched rules boundary =>
    exact (Body.unmatched (P := fun _ _ _ _ => False) rules boundary).bounded fun _ _ _ _ h => h.elim
  | matched id rules found cut =>
    exact (Body.matched (P := fun _ _ _ _ => False) id rules found cut).bounded fun _ _ _ _ h => h.elim
  | full id chosen rules trail each ih =>
    intro hb
    have hg := (trail.gathered ih).bounded (fun _ _ _ _ h => h) hb
    refine ⟨hg.interest, ?_⟩
    intro s hs
    cases hs
    exact hg.stop hb id
  | short rules trail each ih =>
    intro hb
    refine ⟨((trail.gathered ih).bounded (fun _ _ _ _ h => h) hb).interest, ?_⟩
    intro s hs
    cases hs
  | @valued input rule offset context s d n id name text body ih =>
    intro hb
    obtain ⟨h1, h2⟩ := ih hb
    refine ⟨h1, ?_⟩
    intro s' hs
    cases hs
    exact h2 s rfl
  | @called input rule target offset context inside call a n id rules resolved attempted ih =>
    exact (Body.called id rules resolved ih).bounded fun _ _ _ _ h => h
  | @renamed input rule offset context s d n name took ih =>
    intro hb
    refine ⟨(ih hb).1, ?_⟩
    intro s' hs
    cases hs
    have h1 := (ih hb).2 s rfl
    rw [← Reading.region_shown (some name)] at h1
    exact h1
  | @kept before input rule rule' offset p context context' s d n v took carried ih =>
    intro _
    obtain ⟨hlaid, _, hformed⟩ := took.laid.success
    obtain ⟨hplaced, hinterest, _⟩ := hformed.carried carried
    have hb : offset ≤ Text.size before := by
      rw [← hlaid]
      exact carried.alike.left
    have hstop : (d.placed v).interest.stop ≤ Text.size input + 1 := by
      rw [hinterest]
      refine carried.alike.stop_le ?_
      have := (ih hb).1
      exact this
    refine ⟨hstop, ?_⟩
    intro s' hs
    cases hs
    -- the node ends before its region of interest does, or lies at one offset
    have h1 := hplaced.sits.stop
    have h2 := hplaced.sits.seen
    have h3 := carried.alike.right
    rw [hinterest] at h1 h2 hstop
    simp only [Region.stop] at h1 h2 hstop ⊢
    omega

/-- An attempt has looked at something exactly when it has taken a pattern. -/
theorem eq_zero_iff (h : Takes grammar input rule offset context a n) : n = 0 ↔ a.interest.length = 0 := by
  induction h with
  | @unmatched input rule offset context kind binding pattern rules boundary =>
    have := pattern.examined_pos ((Text.bytes input).drop offset)
    simp only [Attempt.failure, Attempt.interest, Derivation.interest]
    omega
  | @matched input rule offset context kind binding pattern length text id rules found cut =>
    have := pattern.examined_pos ((Text.bytes input).drop offset)
    simp only [Attempt.success, Attempt.interest, Derivation.interest]
    omega
  | full id chosen rules trail each ih => exact trail.sum_eq_zero_iff (fun t hm => (each t hm).laid) ih
  | short rules trail each ih => exact trail.sum_eq_zero_iff (fun t hm => (each t hm).laid) ih
  | valued id name text body ih => exact ih
  | called id rules resolved attempted ih =>
    rw [Reading.interest_wrap]
    exact ih
  | renamed name took ih => exact ih
  | kept took carried ih =>
    obtain ⟨_, _, hformed⟩ := took.laid.success
    obtain ⟨_, hinterest, _⟩ := hformed.carried carried
    change _ ↔ (Derivation.placed _ _).interest.length = 0
    rw [hinterest]
    exact ih

end Takes

/-- A node came to be by an attempt that took so many patterns. -/
def Took (grammar : Grammar) (input : String) (node : Statement × Derivation) (n : Nat) : Prop :=
  ∃ rule offset context, Takes grammar input rule offset context (.success node.1 node.2) n

namespace Takes

variable {grammar : Grammar} {input : String} {rule : RuleId} {offset : Nat} {context : Context} {a : Attempt} {n : Nat}

/-- What an attempt takes under one name it takes under another. -/
theorem shown {s : Statement} {d : Derivation} (h : Takes grammar input rule offset context (.success s d) n)
    (name : Option String) : Takes grammar input rule offset context (.success (Reading.shown name s) d) n := by
  cases name with
  | none => exact h
  | some name => exact h.renamed name

/-- Every node of what an attempt has read came to be by an attempt. -/
theorem nodes (h : Takes grammar input rule offset context a n) :
    ∀ s, a.statement = some s → ∀ node ∈ s.walk a.derivation, ∃ m, Took grammar input node m := by
  induction h with
  | unmatched =>
    intro s hs
    cases hs
  | @matched input rule offset context kind binding pattern length text id rules found cut =>
    intro s hs node hm
    cases hs
    change node ∈ Statement.walk (.leaf id _ _) _ at hm
    rw [Statement.walk_leaf, List.mem_singleton] at hm
    subst hm
    exact ⟨1, rule, offset, context, .matched id rules found cut⟩
  | @full input rule offset context kind edges trials g id chosen rules trail each ih =>
    intro s hs node hm
    cases hs
    change node ∈ (g.statement id).walk (g.derivation rule chosen) at hm
    rw [Gathering.statement, Statement.walk_group, Gathering.derivation, Derivation.children, Statement.walkList_map] at hm
    rcases List.mem_cons.1 hm with rfl | hm
    · exact ⟨_, _, _, _, .full id chosen rules trail each⟩
    · obtain ⟨child, hc, hm⟩ := List.mem_flatMap.1 hm
      obtain ⟨t, ht, heq⟩ := trail.child child (Array.mem_toList_iff.1 hc)
      have hbelow := ih t ht
      rw [heq] at hbelow
      exact hbelow child.statement rfl node hm
  | short =>
    intro s hs
    cases hs
  | @valued input rule offset context s d n id name text body ih =>
    intro s' hs node hm
    cases hs
    change node ∈ Statement.walk (.value id _ _ _ s) (.around rule d) at hm
    rw [Statement.walk_value] at hm
    rcases List.mem_cons.1 hm with rfl | hm
    · exact ⟨n, _, _, _, .valued id name text body⟩
    · exact ih s rfl node hm
  | @called input rule target offset context inside call a n id rules resolved attempted ih =>
    intro s hs node hm
    have hcalled := Takes.called id rules resolved attempted
    obtain ⟨t, ha, rfl, hwrap⟩ := Reading.wrap_eq_success hs
    rw [hwrap] at hm hcalled
    change node ∈ Statement.walk (.group id _ [_]) (.wrap rule _ _) at hm
    rw [Statement.walk_call] at hm
    rcases List.mem_cons.1 hm with rfl | hm
    · exact ⟨n, _, _, _, hcalled⟩
    · rcases Statement.mem_walk_shown hm with rfl | hm
      · have hbody : Takes grammar input target offset inside (.success t a.derivation) n := by
          rw [Attempt.success, ← ha]
          exact attempted
        exact ⟨n, _, _, _, hbody.shown call.shownAs⟩
      · exact ih t ha node hm
  | @renamed input rule offset context s d n name took ih =>
    intro s' hs node hm
    cases hs
    have hshown : node ∈ (Reading.shown (some name) s).walk d := hm
    rcases Statement.mem_walk_shown hshown with rfl | hm
    · exact ⟨n, _, _, _, took.renamed name⟩
    · exact ih s rfl node hm
  | @kept before input rule rule' offset p context context' s d n v took carried ih =>
    intro s' hs node hm
    cases hs
    obtain ⟨hlaid, _, hformed⟩ := took.laid.success
    change node ∈ (s.placed v).walk (d.placed v) at hm
    rw [hformed.paired.walk_placed] at hm
    obtain ⟨origin, ho, rfl⟩ := List.mem_map.1 hm
    obtain ⟨m, rule, offset, context, htook⟩ := ih s rfl origin ho
    -- the region of interest of the node lies in the one that was carried
    obtain ⟨horigin, h1, h2, h3⟩ := hformed.of_mem_walk ho
    have h4 := hformed.sits.offset
    have h5 := hformed.sits.seen
    have h6 := horigin.sits.offset
    have h7 := carried.alike.left
    have h8 := (took.bounded (hlaid ▸ h7)).2 s rfl
    simp only [Region.stop] at h2 h3 h5 h8
    have hin : origin.2.interest.Inside d.interest :=
      ⟨by omega, by simp only [Region.stop]; omega, by simp only [Region.stop]; omega⟩
    obtain ⟨q, hq⟩ := carried.inside hin (by omega)
    exact ⟨m, rule, q, context, htook.kept hq⟩

end Takes

/-! ## Trees -/

/-- Whatever an attempt comes to, it takes some patterns for it. -/
theorem Takes.closed {grammar : Grammar} {input : String} :
    Claim.Closed grammar input fun r o c a => ∃ n, Takes grammar input r o c a n := by
  intro rule offset context a h
  cases h with
  | unmatched rules boundary => exact ⟨1, .unmatched rules boundary⟩
  | matched id rules found cut => exact ⟨1, .matched id rules found cut⟩
  | full id chosen rules plain gathered =>
    obtain ⟨trials, trail, each⟩ := Trail.of_gathered gathered
    exact ⟨_, .full id chosen rules trail each⟩
  | short rules gathered =>
    obtain ⟨trials, trail, each⟩ := Trail.of_gathered gathered
    exact ⟨_, .short rules trail each⟩
  | valued id inner name text rules gathered =>
    obtain ⟨trials, trail, each⟩ := Trail.of_gathered gathered
    exact ⟨_, .valued id name text (.full inner none rules trail each)⟩
  | called id rules resolved attempted =>
    obtain ⟨n, hn⟩ := attempted
    exact ⟨n, .called id rules resolved hn⟩

namespace Tree.Tracks

variable {grammar : Grammar} {tree : Tree} {document : String}

/-- A tree whose rules have looked at nothing takes no more when it is repaired. -/
theorem took_of_blank {before : Tree} {edited : String} (hb : (EditedTree.ofTree before).Blank)
    (hoffset : before.statement.region.offset = Text.size document) {edits : List Edit} {options : Options}
    {nextId next : NodeId} (fits : Edit.applyAll edits document = .ok edited)
    (repaired : grammar.repair before edits options nextId = .ok (tree, next)) {n : Nat}
    (h : Took grammar document (before.statement, before.derivation) n) :
    Took grammar edited (tree.statement, tree.derivation) n := by
  by_cases ho : before.statement.region.offset = 0
  · obtain rfl := document_of_start hb hoffset ho
    obtain ⟨rfl, rfl⟩ | ⟨t, v, ht, hdrifts, rfl, hstop⟩ := hb.repair_eq_ok repaired
    · cases fits
      exact h
    · obtain rfl := EditedTree.text_of_edits ht fits
      have hempty : before.derivation.interest = ⟨before.statement.region.offset, 0⟩ :=
        (hb.nodes _ (EditedTree.mem_walk_self _ _)).2.1
      have hmoved : (v before.derivation.interest).length = 0 ∧
          (v before.derivation.interest).offset ≤ Text.size t.text := by
        obtain ⟨h1, h2, _⟩ := hdrifts.blank.nodes _ (EditedTree.mem_walk_self _ _)
        simp only at h2
        rw [hdrifts.derivation, Derivation.interest_placed] at h2
        rw [show before.derivation.interest = (EditedTree.ofTree before).derivation.interest from rfl, h2]
        refine ⟨rfl, ?_⟩
        rw [← hstop]
        exact Nat.le_add_right _ _
      -- nothing was looked at, before or after
      have hcarried : Region.Carried before.text t.text v before.derivation.interest
          (v before.derivation.interest).offset := by
        refine ⟨.of_empty (by rw [hempty]) hmoved.1, ?_⟩
        rw [show before.derivation.interest.length = 0 by rw [hempty]]
        refine .of_nothing ?_ hmoved.2
        rw [hempty]
        exact Nat.le_of_eq hoffset
      obtain ⟨rule, offset, context, htakes⟩ := h
      rw [hdrifts.statement, hdrifts.derivation]
      exact ⟨rule, _, context, htakes.kept hcarried⟩
  · obtain ⟨rfl, rfl⟩ := eq_of_behind hb ho repaired
    cases fits
    exact h

/-- Nodes that took patterns on the text before the edits took them for what they are where they were carried to. -/
theorem took_placed {s : Statement} {d : Derivation} {u w : String} {v : Region → Region} {n : Nat}
    (h : Took grammar u (s, d) n) (hf : Formed s d) {node : Statement × Derivation} (hm : node ∈ s.walk d) {p : Nat}
    (hcarried : Region.Carried u w v node.2.interest p) (rule : RuleId) (context : Context) :
    ∃ n, Takes grammar w rule (node.1.placed v).region.offset context (.success (node.1.placed v) (node.2.placed v)) n := by
  obtain ⟨_, _, _, htakes⟩ := h
  obtain ⟨m, _, _, _, hnode⟩ := htakes.nodes s rfl node hm
  obtain ⟨_, _, hoffset⟩ := (hf.of_mem_walk hm).1.carried hcarried
  rw [hoffset]
  exact ⟨m, hnode.kept hcarried⟩

/-- So they may be kept. -/
theorem kept_took {s : Statement} {d : Derivation} {u : String} {v : Region → Region} {t : EditedTree} {n : Nat}
    (h : Took grammar u (s, d) n) (hf : Formed s d) (hfollows : t.Follows s d u v) (setting : Setting)
    (hmodified : setting.modified = t.modified) (shownAs : Option String) (rule : RuleId) (context : Context) :
    Revisited setting.grammar (Keeping (fun r o c a => ∃ n, Takes grammar t.text r o c a n) setting) shownAs rule context
      t.statement t.derivation :=
  hfollows.kept hf hmodified (fun _ hm _ hcarried rule context => took_placed h hf hm hcarried rule context) shownAs rule context

/-- The root of a tree came to be by an attempt, and so did every node. -/
theorem took (h : tree.Tracks grammar document) : ∃ n, Took grammar document (tree.statement, tree.derivation) n := by
  induction h with
  | @parse input options nextId next tree parsed =>
    obtain ⟨⟨n, hn⟩, _⟩ := parse_yields Takes.closed.passes parsed
    exact ⟨n, grammar.root, 0, options.context, hn⟩
  | @repair before tree document edited edits options nextId next tracks fits repaired ih =>
    obtain ⟨n, hn⟩ := ih
    rcases tracks.stands with ⟨hw, hinterest, rfl⟩ | ⟨hblank, hoffset⟩
    · obtain ⟨rfl, rfl⟩ | ⟨t, ht, ⟨_, hrederive⟩ | ⟨hmark, hkeep⟩⟩ := repair_eq_ok repaired
      · cases fits
        exact ⟨n, hn⟩
      · -- the root was attempted again on nodes that came to be by attempts
        obtain rfl := EditedTree.text_of_edits ht fits
        obtain ⟨v, hfollows⟩ := hw.follows ht
        have hkept := kept_took hn hw.formed hfollows (.make grammar t.text options t.modified) rfl none grammar.root
          options.context
        obtain ⟨⟨m, hm⟩, _⟩ := rederive_yields Takes.closed.passes hkept hrederive
        exact ⟨m, grammar.root, 0, options.context, hm⟩
      · obtain rfl := hw.eq_of_unmarked hinterest ht hmark
        obtain ⟨rfl, _⟩ := Grammar.keepTree_eq_ok hkeep
        obtain rfl := EditedTree.text_of_edits ht fits
        exact ⟨n, hn⟩
    · exact ⟨n, took_of_blank hblank hoffset fits repaired hn⟩

end Tree.Tracks

/-- **Trees tile their documents.** All that is below the root of a tree, through parse and repairs, fills its document without
gaps. Every node holds the document at its region; its region of interest starts where it does, holds it, reaches at most one
byte past the end of the document, and reaches further than the node unless no pattern was taken for it. -/
theorem Tree.Tracks.tiles_document {grammar : Grammar} {tree : Tree} {document : String}
    (h : tree.Tracks grammar document) :
    tree.statement.Tiles document ∧ ∀ node ∈ tree.statement.walk tree.derivation,
      Text.slice? document node.1.region.offset node.1.region.stop = some node.1.rawText ∧
        node.2.interest.offset = node.1.region.offset ∧ node.1.region.stop ≤ node.2.interest.stop ∧
        node.2.interest.stop ≤ Text.size document + 1 ∧ (∃ n, Took grammar document node n) ∧
        ∀ n, Took grammar document node n → n = 0 ∨ node.1.region.stop < node.2.interest.stop := by
  refine ⟨h.tiles, fun node hm => ?_⟩
  have hslice := (h.tiles.of_mem_walk hm).slice
  obtain ⟨_, _, _, _, hroot⟩ := h.took
  obtain ⟨n, hnode⟩ := hroot.nodes _ rfl node hm
  obtain ⟨rule, offset, context, htakes⟩ := id hnode
  obtain ⟨hlaid, _, hformed⟩ := htakes.laid.success
  have hstart : offset ≤ Text.size document := by
    rw [← hlaid, ← hformed.sits.offset]
    exact Text.le_size_of_isBoundary (Text.slice?_eq_some_iff.1 hslice).1
  refine ⟨hslice, hformed.sits.offset.symm, hformed.sits.stop, (htakes.bounded hstart).1, ⟨n, hnode⟩, ?_⟩
  rintro m ⟨_, _, _, hm⟩
  by_cases hzero : node.2.interest.length = 0
  · exact Or.inl (hm.eq_zero_iff.2 hzero)
  · exact Or.inr (hformed.sits.seen.resolve_left hzero)

end

open Pattern.Regex

/-- A letter that was kept by a repair and two that were read anew lie one behind the other. For each of them, and for the root,
it was looked further than was read. -/
theorem Tree.Tracks.tiles_document_abd : ∃ tree : Tree, tree.Tracks (.row .dot) "abd" ∧ tree.statement.Tiles "abd" ∧
    tree.statement = .group ⟨6⟩ ⟨0, 3⟩ [.leaf ⟨0⟩ ⟨0, 1⟩ "a", .leaf ⟨4⟩ ⟨1, 1⟩ "b", .leaf ⟨5⟩ ⟨2, 1⟩ "d"] ∧
    ∀ node ∈ tree.statement.walk tree.derivation, node.1.region.length ≠ 0 → node.1.region.stop < node.2.interest.stop := by
  obtain ⟨statistics, hbefore⟩ := parse_abc
  obtain ⟨statistics', hrepair⟩ := repair_abd statistics
  have htracks : (Tree.abd statistics').Tracks (.row .dot) "abd" := .repair (.parse hbefore) applyAll_abd hrepair
  obtain ⟨htiles, hnodes⟩ := htracks.tiles_document
  refine ⟨_, htracks, htiles, rfl, fun node hm hlength => ?_⟩
  obtain ⟨_, hoffset, hstop, _, ⟨n, htook⟩, hlooked⟩ := hnodes node hm
  refine (hlooked n htook).resolve_left ?_
  rintro rfl
  obtain ⟨_, _, _, htakes⟩ := htook
  -- a node without patterns would be empty
  have hzero := htakes.eq_zero_iff.1 rfl
  change node.2.interest.length = 0 at hzero
  simp only [Region.stop] at hstop
  omega

end Graft
