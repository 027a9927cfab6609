import Mathlib.Data.Finset.Range
import Mathlib.Order.Filter.Finite
import Graft.Proofs.Earlier
import Graft.Proofs.Lanes
import Graft.Proofs.Scanning

/-!
# Replaying children in any order

A container in any order that is attempted again first reads its earlier children again, in the order in which they stood, and
then scans on. A parse of the same text scans from the start and tries the edges in the order in which they were declared. Both
come to the same, up to where they look, when the edges stand apart: where one of them takes part, the others do not.
-/

namespace Graft

open Filter Engine

variable [Pattern.Compiler]

/-- Whether an edge takes part at a place: its attempts succeed, with a text, or without one though the edge must have a
child. -/
def Edge.TakesPart (edge : Edge) (R : Nat → Reading.Oracle) (live : Context) (offset : Nat) : Prop :=
  ∃ n a s, R n edge.rule offset (edge.context live) = some a ∧ a.statement = some s ∧
    (s.region.isEmpty = true → edge.Requires live)

/-- Edges stand apart on a text: where one of them takes part, attempts of each of the others come to an end, and it does not
take part. -/
def Apart (R : Nat → Reading.Oracle) (input : String) (edges : List Edge) (live : Context) : Prop :=
  ∀ (i j : Nat) (edge other : Edge) (offset : Nat), edges[i]? = some edge → edges[j]? = some other → j ≠ i →
    Text.isBoundary input offset = true → edge.TakesPart R live offset →
    (∃ n a, R n other.rule offset (other.context live) = some a) ∧ ¬other.TakesPart R live offset

/-! ## Edges that stand apart -/

section

variable {R : Nat → Reading.Oracle} {input : String} {edges : List Edge} {live : Context} {lanes : List Lane} {place : Nat}
  {index : Nat} {lane : Lane}

/-- A lane whose attempt counts reads an edge that takes part. -/
theorem Engine.Lane.Reads.takesPart (h : lane.Reads edges live index) {n : Nat} {a : Attempt}
    (ha : R n lane.edge.rule place lane.context = some a) (hc : Reading.Counts lane a) :
    lane.edge.TakesPart R live place := by
  obtain ⟨s, hs, hrequired⟩ := hc
  exact ⟨n, a, s, by rw [← h.opens.context]; exact ha, hs, fun he => h.requires (hrequired he)⟩

/-- A lane whose edge does not take part is idle, once its attempt comes to an end. -/
theorem Engine.Lane.Reads.idle (h : lane.Reads edges live index) {n : Nat} {a : Attempt}
    (ha : R n lane.edge.rule place lane.context = some a) (hnot : ¬lane.edge.TakesPart R live place) :
    Reading.Idle (R n) place lane :=
  fun _ => ⟨a, ha, Reading.nothing_of_not_counts fun hc => hnot (h.takesPart ha hc)⟩

/-- Where one edge counts, almost all readings find the others idle. -/
theorem Apart.idle (hapart : Apart R input edges live) (hstay : ∀ n r c a, R n r place c = some a →
    ∀ᶠ k in atTop, R k r place c = some a) (hb : Text.isBoundary input place = true) (hl : ReadAll edges live lanes)
    (hi : lanes[index]? = some lane) {n : Nat} {a : Attempt} (ha : R n lane.edge.rule place lane.context = some a)
    (hc : Reading.Counts lane a) :
    ∀ᶠ k in atTop, ∀ j other, j ≠ index → lanes[j]? = some other → Reading.Idle (R k) place other := by
  have hlane := hl index lane hi
  have heach : ∀ᶠ k in atTop, ∀ j ∈ Finset.range lanes.length, ∀ other, j ≠ index → lanes[j]? = some other →
      Reading.Idle (R k) place other := by
    rw [eventually_all_finset]
    intro j _
    cases hj : lanes[j]? with
    | none => simp
    | some other =>
      by_cases hne : j = index
      · simp [hne]
      · have hother := hl j other hj
        obtain ⟨⟨n', a', ha'⟩, hnot⟩ :=
          hapart index j lane.edge other.edge place hlane.edge hother.edge hne hb (hlane.takesPart ha hc)
        rw [← hother.opens.context] at ha'
        filter_upwards [hstay _ _ _ _ ha'] with k hk
        intro _ _ heq
        cases heq
        exact hother.idle hk hnot
  filter_upwards [heach] with k hk j other hne hj
  obtain ⟨hlt, _⟩ := List.getElem?_eq_some_iff.1 hj
  exact hk j (Finset.mem_range.2 hlt) other hne hj

/-- Where one edge counts, each of the others has a reading. -/
theorem Apart.not_counts (hapart : Apart R input edges live) (hb : Text.isBoundary input place = true)
    (hl : ReadAll edges live lanes) (hi : lanes[index]? = some lane)
    (hnone : ∀ n, R n lane.edge.rule place lane.context = none) {j : Nat} {other : Lane} (hne : j ≠ index)
    (hj : lanes[j]? = some other) {n : Nat} {a : Attempt} (ha : R n other.edge.rule place other.context = some a) :
    ¬Reading.Counts other a := by
  intro hc
  have hlane := hl index lane hi
  have hother := hl j other hj
  obtain ⟨⟨n', a', ha'⟩, _⟩ :=
    hapart j index other.edge lane.edge place hother.edge hlane.edge (Ne.symm hne) hb (hother.takesPart ha hc)
  rw [← hlane.opens.context, hnone n'] at ha'
  cases ha'

end

/-- Where edges stand apart, an attempt of one of them and a scan from there on come to what a scan comes to at once: what was
attempted is what the scan would find there, and what cannot be attempted the scan cannot read either. -/
theorem Apart.settled_accept {grammar : Grammar} {input : String} {edges : List Edge} {live : Context}
    (hc : Countable edges live) (hapart : Apart (Reading.within grammar input) input edges live) {lanes : List Lane}
    (hl : ReadAll edges live lanes) {g : Gathering} (hb : Text.isBoundary input g.cursor = true) {index : Nat} {lane : Lane}
    (hi : lanes[index]? = some lane) (hm : lane.counter.acceptsMore = true) :
    ∀ᶠ n in atTop,
      ((Reading.within grammar input n lane.edge.rule g.cursor lane.context).bind fun b =>
        Reading.settled (Reading.within grammar input n) input
          (lanes.set index (Progress.accept { gathering := g, lane } b).2.lane)
          (Progress.accept { gathering := g, lane } b).2.gathering) =
        Reading.settled (Reading.within grammar input n) input lanes g := by
  have hR := Reading.sound_within grammar input
  have hstay : ∀ n r c a, Reading.within grammar input n r g.cursor c = some a →
      ∀ᶠ k in atTop, Reading.within grammar input k r g.cursor c = some a :=
    fun n r c a ha => (eventually_ge_atTop n).mono fun k hk => Reading.within_mono hk hb ha
  by_cases hsome : ∃ n a, Reading.within grammar input n lane.edge.rule g.cursor lane.context = some a
  · obtain ⟨n, a, ha⟩ := hsome
    have hidle : ∀ᶠ k in atTop, Reading.Counts lane a → ∀ j other, j ≠ index → lanes[j]? = some other →
        Reading.Idle (Reading.within grammar input k) g.cursor other := by
      by_cases hcounts : Reading.Counts lane a
      · exact (hapart.idle hstay hb hl hi ha hcounts).mono fun k hk _ => hk
      · exact Eventually.of_forall fun k h => absurd h hcounts
    filter_upwards [hstay n _ _ a ha, hidle] with k hk hothers
    rw [hk, Option.bind_some]
    exact (Reading.settled_accept (hR k) hb (hl.fits hc) hi hm hk hothers).symm
  · have hnone : ∀ n, Reading.within grammar input n lane.edge.rule g.cursor lane.context = none := by
      intro n
      cases ha : Reading.within grammar input n lane.edge.rule g.cursor lane.context with
      | none => rfl
      | some a => exact absurd ⟨n, a, ha⟩ hsome
    refine Eventually.of_forall fun n => ?_
    rw [hnone n, Option.bind_none]
    refine (Reading.settled_eq_none (hl.fits hc) hi hm (hnone n) ?_).symm
    exact fun j other a hne hj ha => hapart.not_counts hb hl hi hnone hne hj ha

/-! ## Replaying -/

section

variable {setting : Setting} {depth : Nat} {attempts : Attempts} {edges : List Edge} {live : Context} {offset : Nat}
  {base : State}

/-- What a run of a container in any order has come to, up to where it looked. -/
def Agreeing (setting : Setting) (depth : Nat) (base : State) (r : List Lane × Gathering) (t : State)
    (x : List Lane × Gathering) : Prop :=
  Reading.faintly r = x ∧ base.Steady setting depth t (x.2.kept setting.grammar)

variable (hA : FreshDecides setting True atTop depth .faint attempts (Reading.within setting.grammar setting.input))
  (hb : Text.isBoundary setting.input offset = true)
include hA hb

/-- Scanning on comes to its reading, wherever the scan begins. -/
theorem rescan_decides (owner : RuleId) {lanes : List Lane} (hl : ReadAll edges live lanes) {g g' : Gathering} {s : State}
    (h : Synced setting atTop depth .faint (Reading.within setting.grammar setting.input) edges live offset base s g g') :
    Decides True atTop (Agreeing setting depth base)
      (fun n => Reading.settled (Reading.within setting.grammar setting.input n) setting.input lanes g')
      (scanAll attempts owner (setting.remaining g.cursor + 1) lanes g s) := by
  rw [h.cursor]
  refine (scanAll_decides (Reading.sound_within setting.grammar setting.input) hA hb owner _ hl.opens h).map ?_
  rintro ⟨lanes1, g1⟩ t ⟨lanes1', g1'⟩ ⟨h1, h2⟩
  simp only at h1 h2
  subst h1
  refine ⟨by simp only [Reading.faintly, h2.same], ?_⟩
  simp only [Reading.faintly, Gathering.kept_recast]
  exact h2.steady

/-- **Replaying makes no difference.** Where edges stand apart, replaying children and then scanning on comes to the same as
scanning on at once. -/
theorem replay_decides (owner : RuleId) (hc : Countable edges live)
    (hapart : Apart (Reading.within setting.grammar setting.input) setting.input edges live)
    {children : List (Nat × Earlier)}
    (hE : ∀ child ∈ children, ∀ edge, edges[child.1]? = some edge →
      AgainDecides setting True atTop depth .faint attempts (Reading.within setting.grammar setting.input) none edge.rule
        child.2 (edge.context live))
    {lanes : List Lane} (hl : ReadAll edges live lanes) {g g' : Gathering} {s : State}
    (h : Synced setting atTop depth .faint (Reading.within setting.grammar setting.input) edges live offset base s g g') :
    Decides True atTop (Agreeing setting depth base)
      (fun n => Reading.settled (Reading.within setting.grammar setting.input n) setting.input lanes g')
      ((replay attempts children lanes g >>= fun r =>
        scanAll attempts owner (setting.remaining r.2.cursor + 1) r.1 r.2) s) := by
  have hR := Reading.sound_within setting.grammar setting.input
  induction children generalizing lanes g g' s with
  | nil =>
    rw [replay, LawfulMonad.pure_bind]
    exact rescan_decides hA hb owner hl h
  | cons child children ih =>
    obtain ⟨index, earlier⟩ := child
    cases hi : lanes[index]? with
    | none =>
      simp only [replay, hi, LawfulMonad.pure_bind]
      exact rescan_decides hA hb owner hl h
    | some lane =>
      cases hm : lane.counter.acceptsMore with
      | false =>
        simp only [replay, hi, hm, Bool.false_eq_true, if_false, LawfulMonad.pure_bind]
        exact rescan_decides hA hb owner hl h
      | true =>
        have hlane := hl index lane hi
        have hcursor := h.boundary hR hb
        have hagain := hE _ (List.mem_cons_self ..) _ hlane.edge g.cursor s (by rw [h.cursor]; exact hcursor) h.steady.ready
        rw [← hlane.opens.context, h.cursor] at hagain
        simp only [replay, hi, hm, if_true, LawfulMonad.bind_assoc, h.cursor]
        refine Decides.congr (Decides.bind hagain ?_) (hapart.settled_accept hc hl hcursor hi hm)
        intro a t b hab hlevel
        have hin : InStep setting atTop depth .faint (Reading.within setting.grammar setting.input) edges live offset base s
            { gathering := g, lane } { gathering := g', lane } := ⟨rfl, rfl, hlane.opens, h⟩
        have hreads := hlane.accept (p := { gathering := g', lane }) b
        obtain ⟨h1, h2⟩ := hin.accept hR hb hab hlevel
        simp only [h1, h2.lane]
        by_cases hf : (Progress.accept { gathering := g', lane } b).1 = .failed
        · simp only [hf, if_true, LawfulMonad.pure_bind]
          exact rescan_decides hA hb owner (hl.set hreads) h2.gathering
        · simp only [hf, if_false]
          exact ih (fun child hm => hE child (List.mem_cons_of_mem _ hm)) (hl.set hreads) h2.gathering

end

/-- More levels change no reading of a container in any order. -/
theorem Reading.anyOrder_mono {grammar : Grammar} {input : String} {n k : Nat} (hle : n ≤ k) {rule : RuleId}
    {edges : List Edge} {offset : Nat} {live : Context} (hb : Text.isBoundary input offset = true) {a : Attempt}
    (h : anyOrder (within grammar input n) input rule edges offset live = some a) :
    anyOrder (within grammar input k) input rule edges offset live = some a := by
  have hcontainer : container (within grammar input n) grammar input rule ⟨none, [], .empty, .container .anyOrder edges⟩
      .anyOrder edges offset live = some a := h
  obtain ⟨b, h1, h2⟩ := container_local (sound_within grammar input n) (within_local grammar input input hle) hb hcontainer
    (.refl (Text.le_size_of_isBoundary hb))
  rw [Attempt.recast_moved_inj h2]
  exact h1

/-- The reading of a container in any order, up to where it looks, is told by what a scan of its lanes comes to. -/
theorem Reading.anyOrder_faint (R : Oracle) (input : String) (rule : RuleId) (edges : List Edge) (offset : Nat)
    (live : Context) :
    (anyOrder R input rule edges offset live).map (Attempt.recast .faint) =
      (openAll live edges.zipIdx).bind fun lanes =>
        (settled R input lanes (.begin offset)).bind fun x =>
          some (if x.1.all (·.counter.isValid) then succeed noId x.2 rule none else x.2.fail rule) := by
  rw [anyOrder]
  cases openAll live edges.zipIdx with
  | none => rfl
  | some lanes =>
    simp only [Option.bind_eq_bind, Option.bind_some, settled, Gathering.begin]
    cases scanAll R (Text.size input - offset + 1) lanes ⟨offset, offset, ⟨offset, 0⟩, #[]⟩ with
    | none => rfl
    | some r =>
      simp only [Option.bind_some, Option.map_some, faintly]
      cases r.1.all (·.counter.isValid) with
      | true => simp [Recasting.faint, noId]
      | false => simp

/-- Where its edges stand apart, a container in any order comes to its reading on earlier children, up to where it looks. -/
theorem replayDecides_of_apart {setting : Setting} {edges : List Edge} {live : Context} (hc : Countable edges live)
    (hapart : Apart (Reading.within setting.grammar setting.input) setting.input edges live) :
    ReplayDecides setting .faint edges live := by
  intro depth attempts earliers rule offset s hA hE hb hs
  have hchildren : ∀ child ∈ earliers.children, ∀ edge, edges[child.1]? = some edge →
      AgainDecides setting True atTop depth .faint attempts (Reading.within setting.grammar setting.input) none edge.rule
        child.2 (edge.context live) :=
    fun child hm edge hedge => hE child.1 edge hedge child.2 (Earliers.mem_ofEdge.2 hm)
  refine (Decides.of_map (F := Attempt.recast .faint)
    (P := fun a t x => a.recast .faint = x ∧ s.Steady setting depth t (x.keptBelow setting.grammar)) ?_ ?_).mono ?_
  · simp only [Reading.anyOrder_faint]
    rw [anyOrder, Run.mark_bind]
    refine Decides.bind openAll_decides ?_
    rintro lanes t lanes' ⟨rfl, rfl⟩ hlanes
    obtain ⟨_, hlanes⟩ := hlanes.exists
    have hreplay := replay_decides hA hb rule hc hapart hchildren (ReadAll.of_edges hlanes) (.begin hs)
    have hassoc : (replay attempts earliers.children lanes (.begin offset) >>= fun r =>
          scanAll attempts rule (setting.remaining r.2.cursor + 1) r.1 r.2 >>= fun r =>
            if r.1.all (·.counter.isValid) then r.2.succeed rule none
            else Run.rollback (Text.size (Run.innermost t.collected)) >>= fun _ => pure (r.2.fail rule)) t =
        ((replay attempts earliers.children lanes (.begin offset) >>= fun r =>
          scanAll attempts rule (setting.remaining r.2.cursor + 1) r.1 r.2) >>= fun r =>
            if r.1.all (·.counter.isValid) then r.2.succeed rule none
            else Run.rollback (Text.size (Run.innermost t.collected)) >>= fun _ => pure (r.2.fail rule)) t := by
      rw [LawfulMonad.bind_assoc]
    refine Eq.mpr (congrArg _ hassoc) (Decides.bind hreplay ?_)
    rintro ⟨lanes1, g⟩ u x ⟨rfl, hsteady⟩ _
    simp only [Reading.faintly] at hsteady ⊢
    by_cases hv : lanes1.all (·.counter.isValid) = true
    · simp only [hv, if_true]
      refine .ok ⟨?_, ?_⟩
      · exact Reading.succeed_recast .faint u.nextId g rule none
      · rw [Reading.keptBelow_succeed]
        exact hsteady.of_eq rfl rfl rfl
    · simp only [hv, Bool.false_eq_true, if_false]
      exact .ok ⟨Reading.fail_recast .faint g rule, hsteady.rollback⟩
  · intro n b hn
    exact (eventually_ge_atTop n).mono fun k hk => Reading.anyOrder_mono hk hb hn
  · rintro a t b ⟨h1, h2⟩ _
    rw [Attempt.keptBelow_recast] at h2
    exact ⟨h1, h2⟩

end Graft
