import Graft.Proofs.Completion
import Graft.Proofs.Tallies
import Mathlib.Order.MinMax

/-!
# Growth

How many children may still follow is told by the greatest count that satisfies an occurrence, as how many must is told by the
least. For what a text stands for this greatest count is there. A counter that counts one child where one more may follow, or all
that are missing, never goes past it, and the containers of the engine count in no other way.
-/

namespace Graft

open Engine

namespace Occurrence

/-! ## The greatest count that satisfies an occurrence -/

mutual

/-- What may still be added is what could be added at first, less what has been counted. -/
theorem mostMore_eq_sub (o : Occurrence) (count : Nat) : o.mostMore count = o.mostMore 0 - count := by
  cases o with
  | exactly n => simp [mostMore]
  | atLeast least => simp [mostMore]
  | atMost most => simp [mostMore]
  | between least most => simp [mostMore]
  | any => simp [mostMore]
  | oneOf choices =>
    rw [mostMore, mostMore]
    exact greatestMostMore_eq_sub choices count

theorem greatestMostMore_eq_sub (choices : List Occurrence) (count : Nat) :
    greatestMostMore choices count = greatestMostMore choices 0 - count := by
  cases choices with
  | nil => simp [greatestMostMore]
  | cons choice rest =>
    rw [greatestMostMore, greatestMostMore, mostMore_eq_sub choice count, greatestMostMore_eq_sub rest count]
    omega

end

mutual

/-- One more may follow a count that is below the greatest. -/
theorem acceptsMore_iff_lt (o : Occurrence) (count : Nat) : o.acceptsMore count = true ↔ count < o.mostMore 0 := by
  cases o with
  | exactly n => simp [acceptsMore, mostMore]
  | atLeast least => simp [acceptsMore, mostMore]
  | atMost most => simp [acceptsMore, mostMore]
  | between least most => simp [acceptsMore, mostMore]
  | any => simp [acceptsMore, mostMore]
  | oneOf choices =>
    rw [acceptsMore, mostMore]
    exact anyAcceptsMore_iff_lt choices count

theorem anyAcceptsMore_iff_lt (choices : List Occurrence) (count : Nat) :
    anyAcceptsMore choices count = true ↔ count < greatestMostMore choices 0 := by
  cases choices with
  | nil => simp [anyAcceptsMore, greatestMostMore]
  | cons choice rest =>
    rw [anyAcceptsMore, greatestMostMore, Bool.or_eq_true, acceptsMore_iff_lt choice count, anyAcceptsMore_iff_lt rest count,
      lt_max_iff]

end

mutual

/-- No size above what could be added at first satisfies an occurrence. -/
theorem le_mostMore_of_isValid {o : Occurrence} {count : Nat} (h : o.isValid count = true) (hc : count ≤ largestSize) :
    count ≤ o.mostMore 0 := by
  cases o with
  | exactly n => simp_all [isValid, mostMore]
  | atLeast least => simpa [mostMore] using hc
  | atMost most => simpa [isValid, mostMore] using h
  | between least most =>
    simp only [isValid, Bool.and_eq_true, decide_eq_true_eq] at h
    simpa [mostMore] using h.2
  | any => simpa [mostMore] using hc
  | oneOf choices =>
    rw [isValid] at h
    rw [mostMore]
    exact le_greatestMostMore_of_anyValid h hc

theorem le_greatestMostMore_of_anyValid {choices : List Occurrence} {count : Nat} (h : anyValid choices count = true)
    (hc : count ≤ largestSize) : count ≤ greatestMostMore choices 0 := by
  cases choices with
  | nil =>
    rw [anyValid] at h
    cases h
  | cons choice rest =>
    rw [anyValid, Bool.or_eq_true] at h
    rw [greatestMostMore, le_max_iff]
    exact h.imp (fun h => le_mostMore_of_isValid h hc) fun h => le_greatestMostMore_of_anyValid h hc

end

theorem Token.isValid_mostMore {o : Occurrence} (h : o.Token) : o.isValid (o.mostMore 0) = true := by
  cases h with
  | exactly | atMost | any => simp [isValid, mostMore]
  | atLeast size => simp [isValid, mostMore, size]
  | between ordered => simp [isValid, mostMore, ordered]

theorem Token.mostMore_le {o : Occurrence} (h : o.Token) : o.mostMore 0 ≤ largestSize := by
  cases h with
  | exactly size | atMost size | between _ size => exact size
  | atLeast | any => exact Nat.le_refl _

/-- The greatest number that one of several tokens lets be added satisfies one of them. -/
theorem anyValid_greatestMostMore {choices : List Occurrence} (ne : choices ≠ []) (h : ∀ o ∈ choices, o.Token) :
    anyValid choices (greatestMostMore choices 0) = true := by
  induction choices with
  | nil => exact absurd rfl ne
  | cons choice rest ih =>
    rw [List.forall_mem_cons] at h
    rw [anyValid, greatestMostMore, Bool.or_eq_true]
    rcases Nat.le_total (greatestMostMore rest 0) (choice.mostMore 0) with hle | hle
    · rw [Nat.max_eq_left hle]
      exact Or.inl h.1.isValid_mostMore
    · rw [Nat.max_eq_right hle]
      cases rest with
      | nil =>
        -- nothing but the first token is there, and nothing may be added to that
        have hzero : choice.mostMore 0 = 0 := Nat.le_zero.1 hle
        have hvalid := h.1.isValid_mostMore
        rw [hzero] at hvalid
        exact Or.inl hvalid
      | cons other others => exact Or.inr (ih (List.cons_ne_nil _ _) h.2)

theorem greatestMostMore_le {choices : List Occurrence} (h : ∀ o ∈ choices, o.Token) :
    greatestMostMore choices 0 ≤ largestSize := by
  induction choices with
  | nil => exact Nat.zero_le _
  | cons choice rest ih =>
    rw [List.forall_mem_cons] at h
    rw [greatestMostMore, max_le_iff]
    exact ⟨h.1.mostMore_le, ih h.2⟩

namespace Written

variable {o : Occurrence}

/-- What could be added at first satisfies an occurrence that a text stands for. -/
theorem isValid_mostMore (h : o.Written) : o.isValid (o.mostMore 0) = true := by
  cases h with
  | one token => exact token.isValid_mostMore
  | choice ne tokens =>
    rw [isValid, mostMore]
    exact anyValid_greatestMostMore ne tokens

theorem mostMore_le (h : o.Written) : o.mostMore 0 ≤ largestSize := by
  cases h with
  | one token => exact token.mostMore_le
  | choice ne tokens => exact greatestMostMore_le tokens

/-- One more may follow exactly where some greater size satisfies the occurrence. -/
theorem acceptsMore_iff_exists (h : o.Written) (count : Nat) :
    o.acceptsMore count = true ↔ ∃ greater, count < greater ∧ greater ≤ largestSize ∧ o.isValid greater = true := by
  rw [acceptsMore_iff_lt]
  constructor
  · exact fun hlt => ⟨_, hlt, h.mostMore_le, h.isValid_mostMore⟩
  · rintro ⟨greater, hlt, hle, hvalid⟩
    exact Nat.lt_of_lt_of_le hlt (le_mostMore_of_isValid hvalid hle)

/-- Where some size from a count on satisfies the occurrence, what may be added brings the count to the greatest that does. -/
theorem isGreatest_mostMore (h : o.Written) {count more : Nat} (hle : count + more ≤ largestSize)
    (hvalid : o.isValid (count + more) = true) :
    IsGreatest {more | o.isValid (count + more) = true ∧ count + more ≤ largestSize} (o.mostMore count) := by
  have hmost := le_mostMore_of_isValid hvalid hle
  rw [mostMore_eq_sub]
  constructor
  · change o.isValid (count + (o.mostMore 0 - count)) = true ∧ count + (o.mostMore 0 - count) ≤ largestSize
    rw [Nat.add_sub_cancel' (by omega)]
    exact ⟨h.isValid_mostMore, h.mostMore_le⟩
  · rintro other ⟨hother, hsize⟩
    have := le_mostMore_of_isValid hother hsize
    omega

/-- Where no size from a count on satisfies the occurrence, nothing may be added. -/
theorem mostMore_eq_zero (h : o.Written) {count : Nat}
    (hnone : ∀ more, count + more ≤ largestSize → o.isValid (count + more) = false) : o.mostMore count = 0 := by
  rw [mostMore_eq_sub]
  by_contra hne
  have hinvalid := hnone (o.mostMore 0 - count) (by have := h.mostMore_le; omega)
  rw [Nat.add_sub_cancel' (by omega), h.isValid_mostMore] at hinvalid
  cases hinvalid

/-- What is required at first is no more than what could be added at first. -/
theorem leastMore_le_mostMore (h : o.Written) : o.leastMore 0 ≤ o.mostMore 0 :=
  leastMore_le_of_isValid h.isValid_mostMore

end Written

end Occurrence

/-! ## Counting on -/

/-- A counter that was begun for an occurrence and counted on: one child where one more may follow, or all that are missing. -/
inductive Counter.Grown (o : Occurrence) : Counter → Prop where
  | start : Grown o (.start o)
  | one {c : Counter} (grown : Grown o c) (more : c.acceptsMore = true) : Grown o c.addOne
  | missing {c : Counter} (grown : Grown o c) : Grown o c.addMissing

namespace Counter.Grown

variable {o : Occurrence} {c : Counter}

theorem occurrence (h : Grown o c) : c.occurrence = o := by
  induction h with
  | start => rfl
  | one _ _ ih => exact ih
  | missing _ ih => exact ih

/-- The count never goes past the greatest that satisfies the occurrence. -/
theorem count_le (h : Grown o c) (hw : o.Written) : c.count ≤ o.mostMore 0 := by
  induction h with
  | start => exact Nat.zero_le _
  | @one c grown more ih =>
    rw [acceptsMore, grown.occurrence, Occurrence.acceptsMore_iff_lt] at more
    exact Nat.le_trans (Nat.min_le_left _ _) more
  | @missing c grown ih =>
    have hleast := hw.leastMore_le_mostMore
    refine Nat.le_trans (Nat.min_le_left _ _) ?_
    rw [missing_eq_sub, grown.occurrence]
    omega

/-- So some size from the count on always satisfies it. -/
theorem exists_isValid (h : Grown o c) (hw : o.Written) :
    ∃ count, c.count ≤ count ∧ count ≤ largestSize ∧ o.isValid count = true :=
  ⟨_, h.count_le hw, hw.mostMore_le, hw.isValid_mostMore⟩

/-- A container that takes in an attempt of an edge counts on in one of the two ways, or not at all. -/
theorem accept [Pattern.Compiler] {p : Progress} (h : Grown o p.lane.counter) (hm : p.lane.counter.acceptsMore = true) (a : Attempt) :
    Grown o (p.accept a).2.lane.counter := by
  cases hs : a.statement with
  | none =>
    rw [Progress.accept_failure hs]
    exact h
  | some s =>
    cases he : s.region.isEmpty with
    | true =>
      rw [Progress.accept_empty hs he]
      exact .missing h
    | false =>
      rw [Progress.accept_consumed hs he]
      exact .one h hm

end Counter.Grown

section

variable [Pattern.Compiler]

/-- Lanes that take in attempts one after the other count on in these ways only. -/
theorem Taking.grown {o : Occurrence} {lanes lanes' : List Lane} {g g' : Gathering} (h : Taking lanes g lanes' g') {i : Nat}
    {lane : Lane} (hi : lanes[i]? = some lane) (hl : lane.counter.Grown o) :
    ∃ lane', lanes'[i]? = some lane' ∧ lane'.counter.Grown o := by
  induction h generalizing lane with
  | refl => exact ⟨lane, hi, hl⟩
  | @step lanes lanes' g' index p a place more _ ih =>
    by_cases heq : index = i
    · subst heq
      obtain ⟨hlt, _⟩ := List.getElem?_eq_some_iff.1 place
      obtain rfl : p.lane = lane := Option.some.inj (place.symm.trans hi)
      exact ih (List.getElem?_set_self hlt) (hl.accept more a)
    · exact ih (by rw [List.getElem?_set_ne heq]; exact hi) hl

/-- **Growth.** For what a text stands for:
1. One more may follow a count exactly where some greater size satisfies the occurrence.
2. How many may be added is the greatest number that brings the count to a size that satisfies it, or nothing where no size from
   the count on does.
3. A counter that counts one child where one more may follow, or all that are missing, any number of times in any order, never goes
   past all sizes that satisfy it.
4. Containers count in no other way: while an edge is read, again and from scratch, and while edges are replayed and scanned in any
   order. -/
theorem growth_reaches_valid_counts {text : String} {o : Occurrence} (h : Occurrence.read text = .ok o) :
    (∀ count, count ≤ largestSize → (o.acceptsMore count = true ↔
      ∃ greater, count < greater ∧ greater ≤ largestSize ∧ o.isValid greater = true)) ∧
    (∀ count, count ≤ largestSize →
      ((∃ more, o.isValid (count + more) = true ∧ count + more ≤ largestSize) →
        IsGreatest {more | o.isValid (count + more) = true ∧ count + more ≤ largestSize} (o.mostMore count)) ∧
      ((∀ more, count + more ≤ largestSize → o.isValid (count + more) = false) → o.mostMore count = 0)) ∧
    (∀ c : Counter, c.Grown o → ∃ count, c.count ≤ count ∧ count ≤ largestSize ∧ o.isValid count = true) ∧
    (∀ setting A owner earlier p s q t, readLane setting A owner earlier p s = .ok (q, t) → p.lane.counter.Grown o →
      q.lane.counter.Grown o) ∧
    ∀ A owner children budget lanes g s lanes₁ g₁ t lanes₂ g₂ u, replay A children lanes g s = .ok ((lanes₁, g₁), t) →
      scanAll A owner budget lanes₁ g₁ t = .ok ((lanes₂, g₂), u) → ∀ (i : Nat) (lane : Lane), lanes[i]? = some lane →
        lane.counter.Grown o → ∃ lane', lanes₂[i]? = some lane' ∧ lane'.counter.Grown o := by
  have hwritten := Occurrence.written_of_read h
  refine ⟨fun count _ => hwritten.acceptsMore_iff_exists count, fun count _ => ⟨?_, hwritten.mostMore_eq_zero⟩,
    fun c hc => hc.exists_isValid hwritten, ?_, ?_⟩
  · rintro ⟨more, hvalid, hle⟩
    exact hwritten.isGreatest_mostMore hle hvalid
  · intro setting A owner earlier p s q t hr hp
    obtain ⟨lane, hlane, hgrown⟩ := ((readLane_leads earlier p).of_eq_ok hr).taking.grown (i := 0) rfl hp
    cases hlane
    exact hgrown
  · intro A owner children budget lanes g s lanes₁ g₁ t lanes₂ g₂ u hreplay hscan i lane hi hl
    have hreplayed := (replay_taking children lanes g).of_eq_ok hreplay
    have hscanned := (scanAll_taking budget lanes₁ g₁).of_eq_ok hscan
    exact (hreplayed.trans hscanned).grown hi hl

end

open Pattern.Regex

/-- One match or three: behind two matches one more may follow, and no counter goes past three. -/
theorem growth_reaches_valid_counts_oneOrThree : Occurrence.oneOrThree.acceptsMore 2 = true ∧
    IsGreatest {more | Occurrence.oneOrThree.isValid (0 + more) = true ∧ 0 + more ≤ largestSize}
      (Occurrence.oneOrThree.mostMore 0) ∧
    Occurrence.oneOrThree.mostMore 4 = 0 ∧
    ∃ count, (Counter.start .oneOrThree).addMissing.addOne.count ≤ count ∧ Occurrence.oneOrThree.isValid count = true := by
  obtain ⟨haccepts, hmost, hgrown, _⟩ := growth_reaches_valid_counts Occurrence.read_oneOrThree
  have hthree : Occurrence.oneOrThree.isValid 3 = true := by decide
  refine ⟨(haccepts 2 (by decide)).2 ⟨3, by decide, by decide, hthree⟩, (hmost 0 (by decide)).1 ⟨3, hthree, by decide⟩,
    (hmost 4 (by decide)).2 ?_, ?_⟩
  · intro more _
    simp [Occurrence.oneOrThree, Occurrence.isValid, Occurrence.anyValid]
    omega
  · obtain ⟨count, hle, _, hvalid⟩ := hgrown _ (.one (.missing .start) (by decide))
    exact ⟨count, hle, hvalid⟩

end Graft
