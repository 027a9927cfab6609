import Graft.Counter

/-!
# Counting

What an occurrence still requires goes down one by one as children are counted. A counter that has counted all that was missing
misses nothing any more, as long as what its occurrence requires can be counted at all. The count of an occurrence whose numbers
are sizes never stops short of the number of children.
-/

namespace Graft

namespace Occurrence

mutual

/-- What is still required is what was required at first, less what has been counted. -/
theorem leastMore_eq_sub (o : Occurrence) (count : Nat) : o.leastMore count = o.leastMore 0 - count := by
  cases o with
  | exactly n => simp [leastMore]
  | atLeast least => simp [leastMore]
  | atMost most => simp [leastMore]
  | between least most => simp [leastMore]
  | any => simp [leastMore]
  | oneOf choices =>
    cases choices with
    | nil => simp [leastMore]
    | cons choice rest =>
      simp only [leastMore]
      rw [leastMore_eq_sub choice count]
      exact smallestLeastMore_eq_sub rest _ count

theorem smallestLeastMore_eq_sub (choices : List Occurrence) (smallest count : Nat) :
    smallestLeastMore (smallest - count) choices count = smallestLeastMore smallest choices 0 - count := by
  cases choices with
  | nil => rfl
  | cons choice rest =>
    simp only [smallestLeastMore]
    rw [leastMore_eq_sub choice count, Nat.sub_min_sub_right]
    exact smallestLeastMore_eq_sub rest _ count

end

mutual

/-- An occurrence whose numbers are all sizes. -/
def Sized : Occurrence → Prop
  | exactly n => n ≤ largestSize
  | atLeast least => least ≤ largestSize
  | atMost most => most ≤ largestSize
  | between least most => least ≤ largestSize ∧ most ≤ largestSize
  | any => True
  | oneOf choices => AllSized choices

/-- Occurrences whose numbers are all sizes. -/
def AllSized : List Occurrence → Prop
  | [] => True
  | choice :: rest => choice.Sized ∧ AllSized rest

end

mutual

/-- Where one more may be counted, the count is not the largest size yet. -/
theorem Sized.lt_of_acceptsMore {o : Occurrence} {count : Nat} (h : o.Sized) (ha : o.acceptsMore count = true) :
    count < largestSize := by
  cases o with
  | exactly n =>
    rw [Sized] at h
    simp only [acceptsMore, decide_eq_true_eq] at ha
    omega
  | atLeast least => simpa only [acceptsMore, decide_eq_true_eq] using ha
  | atMost most =>
    rw [Sized] at h
    simp only [acceptsMore, decide_eq_true_eq] at ha
    omega
  | between least most =>
    rw [Sized] at h
    simp only [acceptsMore, decide_eq_true_eq] at ha
    omega
  | any => simpa only [acceptsMore, decide_eq_true_eq] using ha
  | oneOf choices =>
    rw [Sized] at h
    rw [acceptsMore] at ha
    exact AllSized.lt_of_anyAcceptsMore h ha

theorem AllSized.lt_of_anyAcceptsMore {choices : List Occurrence} {count : Nat} (h : AllSized choices)
    (ha : anyAcceptsMore choices count = true) : count < largestSize := by
  cases choices with
  | nil =>
    rw [anyAcceptsMore] at ha
    cases ha
  | cons choice rest =>
    rw [AllSized] at h
    rw [anyAcceptsMore, Bool.or_eq_true] at ha
    rcases ha with ha | ha
    · exact h.1.lt_of_acceptsMore ha
    · exact AllSized.lt_of_anyAcceptsMore h.2 ha

end

theorem smallestLeastMore_le (smallest : Nat) (choices : List Occurrence) (count : Nat) :
    smallestLeastMore smallest choices count ≤ smallest := by
  induction choices generalizing smallest with
  | nil => exact Nat.le_refl _
  | cons choice rest ih =>
    rw [smallestLeastMore]
    exact Nat.le_trans (ih _) (Nat.min_le_left _ _)

/-- What is required at first is a size. -/
theorem Sized.leastMore_le {o : Occurrence} (h : o.Sized) : o.leastMore 0 ≤ largestSize := by
  cases o with
  | exactly n => exact h
  | atLeast least => exact h
  | atMost most => exact Nat.zero_le _
  | between least most => exact h.1
  | any => exact Nat.zero_le _
  | oneOf choices =>
    cases choices with
    | nil => exact Nat.zero_le _
    | cons choice rest =>
      rw [Sized, AllSized] at h
      rw [leastMore]
      exact Nat.le_trans (smallestLeastMore_le _ _ _) h.1.leastMore_le

end Occurrence

namespace Counter

/-- A counter whose count is a size, and whose occurrence requires no more than a size. -/
structure Fits (c : Counter) : Prop where
  count : c.count ≤ largestSize
  required : c.occurrence.leastMore 0 ≤ largestSize

variable {c : Counter}

theorem missing_eq_sub (c : Counter) : c.missing = c.occurrence.leastMore 0 - c.count :=
  c.occurrence.leastMore_eq_sub c.count

theorem Fits.add (h : c.Fits) (added : Nat) : (c.add added).Fits :=
  ⟨Nat.min_le_right _ _, h.required⟩

/-- Counting nothing changes nothing. -/
theorem addMissing_of_missing (h : c.Fits) (hm : c.missing = 0) : c.addMissing = c := by
  have h1 := h.count
  rw [addMissing, add, hm, Nat.add_zero, Nat.min_eq_left h1]

/-- Nothing is missing once all that was missing has been counted. -/
theorem missing_addMissing (h : c.Fits) : c.addMissing.missing = 0 := by
  have h1 := h.count
  have h2 := h.required
  have h3 := c.missing_eq_sub
  rw [missing_eq_sub, addMissing, add]
  simp only
  omega

/-- Where something is missing, something was required at first. -/
theorem required_of_missing (h : c.missing ≠ 0) : c.occurrence.leastMore 0 ≠ 0 := by
  rw [missing_eq_sub] at h
  omega

/-- Counting a child where one more may follow counts it. -/
theorem count_addOne (h : c.occurrence.Sized) (ha : c.acceptsMore = true) : c.addOne.count = c.count + 1 := by
  have h1 := h.lt_of_acceptsMore ha
  rw [addOne, add]
  simp only
  omega

/-- Counting all that are missing counts them all. -/
theorem count_addMissing (h : c.occurrence.Sized) (hc : c.count ≤ largestSize) :
    c.addMissing.count = c.count + c.missing := by
  have h1 := h.leastMore_le
  rw [addMissing, add, missing_eq_sub]
  simp only
  omega

end Counter

end Graft
