import Graft.Proofs.Edits
import Graft.Proofs.Visible
import Graft.Pattern.Regex

/-!
# Regions follow their bytes

An edit shifts a document twice: a deletion takes bytes out of it and an insertion puts bytes into it. Each byte that a shift
leaves has a place in the document after it, and a region goes where its bytes go: it holds the places of the bytes that it held,
together with what was put in strictly inside it. Its start goes to the place of its start, or to the deletion that took the
start away. Two regions with one start, one of which holds the other, stay so under any shifts.
-/

namespace Graft

/-! ## Bytes under shifts -/

/-- What an edit does to a document in one of its two steps. -/
inductive Shift where
  | deletion (offset length : Nat)
  | insertion (offset length : Nat)
  deriving DecidableEq, Repr

namespace Shift

/-- Where a byte stands after a shift, if it was not deleted. -/
def place? : Shift → Nat → Option Nat
  | deletion offset length, byte =>
    if byte < offset then some byte else if offset + length ≤ byte then some (byte - length) else none
  | insertion offset length, byte => if byte < offset then some byte else some (byte + length)

/-- Where a byte stands after several shifts, if none of them deleted it. -/
def placeAfter? (shifts : List Shift) (byte : Nat) : Option Nat :=
  shifts.foldlM (fun byte shift => shift.place? byte) byte

variable {offset length byte place : Nat}

theorem place?_deletion_eq_some_iff :
    (deletion offset length).place? byte = some place ↔
      byte < offset ∧ byte = place ∨ offset + length ≤ byte ∧ byte = place + length := by
  rw [place?]
  split
  · simp only [Option.some.injEq]
    omega
  · split
    · simp only [Option.some.injEq]
      omega
    · simp only [reduceCtorEq, false_iff]
      omega

theorem place?_insertion_eq_some_iff :
    (insertion offset length).place? byte = some place ↔
      byte < offset ∧ byte = place ∨ offset ≤ byte ∧ byte + length = place := by
  rw [place?]
  split <;> simp only [Option.some.injEq] <;> omega

/-- No two bytes have one place. -/
theorem place?_inj {shift : Shift} {other : Nat} (h : shift.place? byte = some place) (h' : shift.place? other = some place) :
    byte = other := by
  cases shift with
  | deletion offset length =>
    rw [place?_deletion_eq_some_iff] at h h'
    omega
  | insertion offset length =>
    rw [place?_insertion_eq_some_iff] at h h'
    omega

theorem placeAfter?_append (first rest : List Shift) (byte : Nat) :
    placeAfter? (first ++ rest) byte = (placeAfter? first byte).bind (placeAfter? rest) :=
  List.foldlM_append

/-- A byte that is left when others are deleted is found at its place. -/
theorem getElem?_of_deletion {before removed after : List UInt8}
    (h : (deletion before.length removed.length).place? byte = some place) :
    (before ++ removed ++ after)[byte]? = (before ++ after)[place]? := by
  obtain ⟨hfront, rfl⟩ | ⟨hback, rfl⟩ := place?_deletion_eq_some_iff.1 h
  · rw [List.append_assoc, List.getElem?_append_left hfront, List.getElem?_append_left hfront]
  · rw [List.getElem?_append_right (by simpa using hback), List.getElem?_append_right (by omega), List.length_append]
    congr 1
    omega

/-- A byte is found at its place when others are inserted. -/
theorem getElem?_of_insertion {before added after : List UInt8}
    (h : (insertion before.length added.length).place? byte = some place) :
    (before ++ after)[byte]? = (before ++ added ++ after)[place]? := by
  obtain ⟨hfront, rfl⟩ | ⟨hback, rfl⟩ := place?_insertion_eq_some_iff.1 h
  · rw [List.append_assoc, List.getElem?_append_left hfront, List.getElem?_append_left hfront]
  · rw [List.getElem?_append_right hback, List.getElem?_append_right (by rw [List.length_append]; omega), List.length_append]
    congr 1
    omega

end Shift

/-! ## One region under one shift -/

namespace Region

/-- A region after a shift. -/
def after (r : Region) : Shift → Region
  | .deletion offset length => r.afterDelete offset length
  | .insertion offset length => r.afterInsert offset length

/-- A region after several shifts. -/
def afterAll (r : Region) (shifts : List Shift) : Region :=
  shifts.foldl after r

theorem holds_iff {r : Region} {byte : Nat} : r.holds byte = true ↔ r.offset ≤ byte ∧ byte < r.stop := by
  rw [holds, Bool.and_eq_true, decide_eq_true_iff, decide_eq_true_iff]

/-- After a deletion a region holds the places of those of its bytes that are left. -/
theorem holds_afterDelete_iff (r : Region) (offset length place : Nat) :
    (r.afterDelete offset length).holds place = true ↔
      ∃ byte, r.holds byte = true ∧ (Shift.deletion offset length).place? byte = some place := by
  simp only [afterDelete_eq, holds_iff, Shift.place?_deletion_eq_some_iff, stop]
  constructor
  · intro h
    by_cases hfront : place < offset
    · exact ⟨place, by omega, Or.inl ⟨hfront, rfl⟩⟩
    · exact ⟨place + length, by omega, Or.inr ⟨by omega, rfl⟩⟩
  · rintro ⟨byte, hbyte, ⟨hfront, rfl⟩ | ⟨hback, rfl⟩⟩ <;> omega

/-- After an insertion a region holds the places of its bytes and, if the insertion falls strictly inside it, what was put in. -/
theorem holds_afterInsert_iff (r : Region) (offset length place : Nat) :
    (r.afterInsert offset length).holds place = true ↔
      (∃ byte, r.holds byte = true ∧ (Shift.insertion offset length).place? byte = some place) ∨
        (r.offset < offset ∧ offset < r.stop) ∧ offset ≤ place ∧ place < offset + length := by
  simp only [holds_iff, Shift.place?_insertion_eq_some_iff]
  obtain ⟨hwhere, hafter⟩ | ⟨hwhere, hafter⟩ | ⟨hwhere, hafter⟩ := r.afterInsert_cases offset length
  · simp only [hafter, stop] at hwhere ⊢
    constructor
    · intro h
      exact Or.inl ⟨place - length, by omega, by omega⟩
    · rintro (⟨byte, hbyte, hplace⟩ | hadded) <;> omega
  · simp only [hafter, stop] at hwhere ⊢
    constructor
    · intro h
      by_cases hfront : place < offset
      · exact Or.inl ⟨place, by omega, by omega⟩
      · by_cases hadded : place < offset + length
        · exact Or.inr ⟨hwhere, by omega, hadded⟩
        · exact Or.inl ⟨place - length, by omega, by omega⟩
    · rintro (⟨byte, hbyte, hplace⟩ | hadded) <;> omega
  · simp only [hafter, stop] at hwhere ⊢
    constructor
    · intro h
      exact Or.inl ⟨place, by omega, by omega⟩
    · rintro (⟨byte, hbyte, hplace⟩ | hadded) <;> omega

/-- After a deletion a region starts at the place of its start, or where the deletion was if that deleted it. -/
theorem offset_afterDelete (r : Region) (offset length : Nat) :
    (r.afterDelete offset length).offset = ((Shift.deletion offset length).place? r.offset).getD offset := by
  simp only [afterDelete_eq, Shift.place?]
  split
  · rw [Option.getD_some]
    omega
  · split
    · rw [Option.getD_some]
      omega
    · rw [Option.getD_none]
      omega

/-- After an insertion a region starts at the place of its start. -/
theorem offset_afterInsert (r : Region) (offset length : Nat) :
    (Shift.insertion offset length).place? r.offset = some (r.afterInsert offset length).offset := by
  rw [Shift.place?_insertion_eq_some_iff]
  obtain ⟨hwhere, hafter⟩ | ⟨hwhere, hafter⟩ | ⟨hwhere, hafter⟩ := r.afterInsert_cases offset length
  · rw [hafter]
    exact Or.inr ⟨hwhere, rfl⟩
  · rw [hafter]
    exact Or.inl ⟨hwhere.1, rfl⟩
  · rw [hafter]
    exact Or.inl ⟨hwhere.1, rfl⟩

/-- A region holds the place of a byte when it held the byte. -/
theorem holds_after {shift : Shift} {byte place : Nat} (h : shift.place? byte = some place) (r : Region) :
    (r.after shift).holds place = r.holds byte := by
  rw [Bool.eq_iff_iff]
  cases shift with
  | deletion offset length =>
    rw [after, holds_afterDelete_iff]
    constructor
    · rintro ⟨other, hholds, hplace⟩
      rwa [Shift.place?_inj h hplace]
    · intro hholds
      exact ⟨byte, hholds, h⟩
  | insertion offset length =>
    rw [after, holds_afterInsert_iff]
    constructor
    · rintro (⟨other, hholds, hplace⟩ | hadded)
      · rwa [Shift.place?_inj h hplace]
      · -- no byte that was there before has its place among those that were put in
        rw [Shift.place?_insertion_eq_some_iff] at h
        omega
    · intro hholds
      exact Or.inl ⟨byte, hholds, h⟩

/-! ## Regions under several shifts -/

/-- A region holds the place of a byte after several shifts when it held the byte. -/
theorem holds_afterAll {shifts : List Shift} {byte place : Nat} (h : Shift.placeAfter? shifts byte = some place) (r : Region) :
    (r.afterAll shifts).holds place = r.holds byte := by
  induction shifts generalizing byte r with
  | nil =>
    cases h
    rfl
  | cons shift rest ih =>
    rw [Shift.placeAfter?, List.foldlM_cons] at h
    obtain ⟨between, hfirst, hrest⟩ := Option.bind_eq_some_iff.1 h
    rw [afterAll, List.foldl_cons, ← holds_after hfirst r]
    exact ih hrest (r.after shift)

variable {region interest : Region}

theorem begins_iff : region.Begins interest ↔ region.offset = interest.offset ∧ interest.contains region = true := by
  constructor
  · intro h
    exact ⟨h.offset, h.contains⟩
  · rintro ⟨hoffset, hcontains⟩
    rw [contains, Bool.and_eq_true, decide_eq_true_iff, decide_eq_true_iff] at hcontains
    exact ⟨hoffset, hcontains.2⟩

theorem Begins.after (h : region.Begins interest) (shift : Shift) : (region.after shift).Begins (interest.after shift) := by
  cases shift with
  | deletion offset length => exact h.afterDelete offset length
  | insertion offset length => exact h.afterInsert offset length

/-- A region that begins another one begins it after any shifts. -/
theorem Begins.afterAll (h : region.Begins interest) (shifts : List Shift) :
    (region.afterAll shifts).Begins (interest.afterAll shifts) := by
  induction shifts generalizing region interest with
  | nil => exact h
  | cons shift rest ih => exact ih (h.after shift)

end Region

/-! ## Regions of a document -/

/-- The shifts of an edit. -/
def Edit.shifts (e : Edit) : List Shift :=
  [.deletion e.offset e.length, .insertion e.offset (Text.size e.text)]

section

variable [Pattern.Compiler]

/-- Where an edit fits a document, the bytes that it leaves are found at their places. -/
theorem Edit.getElem?_of_applyTo {e : Edit} {document edited : String} (he : e.applyTo document = .ok edited)
    {byte place : Nat} (h : Shift.placeAfter? e.shifts byte = some place) :
    (Text.bytes document)[byte]? = (Text.bytes edited)[place]? := by
  obtain ⟨before, removed, after, rfl, rfl, hoffset, hlength⟩ := applyTo_eq_ok he
  simp only [Shift.placeAfter?, shifts, List.foldlM_cons, List.foldlM_nil, Option.pure_def, Option.bind_eq_bind,
    Option.bind_eq_some_iff, Option.some.injEq] at h
  obtain ⟨between, hdeleted, other, hinserted, rfl⟩ := h
  rw [← hoffset, ← hlength, ← Text.length_bytes, ← Text.length_bytes] at hdeleted
  rw [← hoffset, ← Text.length_bytes, ← Text.length_bytes] at hinserted
  simp only [Text.bytes_append]
  exact (Shift.getElem?_of_deletion hdeleted).trans (Shift.getElem?_of_insertion hinserted)

/-- Where edits fit a document one after the other, the bytes that they leave are found at their places. -/
theorem Edit.getElem?_of_applyAll {edits : List Edit} {document edited : String}
    (he : Edit.applyAll edits document = .ok edited) {byte place : Nat}
    (h : Shift.placeAfter? (edits.flatMap Edit.shifts) byte = some place) :
    (Text.bytes document)[byte]? = (Text.bytes edited)[place]? := by
  induction edits generalizing document byte with
  | nil =>
    cases he
    cases h
    rfl
  | cons e rest ih =>
    rw [Edit.applyAll, List.foldlM_cons] at he
    obtain ⟨next, hfirst, hrest⟩ := Except.bind_eq_ok.1 he
    rw [List.flatMap_cons, Shift.placeAfter?_append] at h
    obtain ⟨between, hbetween, hplace⟩ := Option.bind_eq_some_iff.1 h
    exact (Edit.getElem?_of_applyTo hfirst hbetween).trans (ih hrest hplace)

/-- **Regions follow their bytes.** After a deletion or an insertion a region holds the places of its bytes that are left, and
those that were put in just if this was strictly inside it; its start is at the place of its start, or at the deletion that took
it. Of two regions with one start, the one that holds the other still does after any shifts, and they still have one start. The
places are those that the bytes of a document have after edits that fit it. Offsets have no largest value. -/
theorem regions_follow_bytes :
    (∀ (r : Region) (offset length : Nat),
      (∀ place, (r.afterDelete offset length).holds place = true ↔
        ∃ byte, r.holds byte = true ∧ (Shift.deletion offset length).place? byte = some place) ∧
      (r.afterDelete offset length).offset = ((Shift.deletion offset length).place? r.offset).getD offset ∧
      (∀ place, (r.afterInsert offset length).holds place = true ↔
        (∃ byte, r.holds byte = true ∧ (Shift.insertion offset length).place? byte = some place) ∨
          (r.offset < offset ∧ offset < r.stop) ∧ offset ≤ place ∧ place < offset + length) ∧
      (Shift.insertion offset length).place? r.offset = some (r.afterInsert offset length).offset) ∧
    (∀ (region interest : Region) (shifts : List Shift), region.offset = interest.offset →
      interest.contains region = true →
        (region.afterAll shifts).offset = (interest.afterAll shifts).offset ∧
          (interest.afterAll shifts).contains (region.afterAll shifts) = true) ∧
    ∀ edits document edited, Edit.applyAll edits document = .ok edited →
      ∀ byte place, Shift.placeAfter? (edits.flatMap Edit.shifts) byte = some place →
        (Text.bytes document)[byte]? = (Text.bytes edited)[place]? ∧
          ∀ r : Region, (r.afterAll (edits.flatMap Edit.shifts)).holds place = r.holds byte := by
  refine ⟨fun r offset length => ⟨?_, ?_, ?_, ?_⟩, ?_, ?_⟩
  · exact r.holds_afterDelete_iff offset length
  · exact r.offset_afterDelete offset length
  · exact r.holds_afterInsert_iff offset length
  · exact r.offset_afterInsert offset length
  · intro region interest shifts hoffset hcontains
    have hbegins := Region.begins_iff.2 ⟨hoffset, hcontains⟩
    exact Region.begins_iff.1 (hbegins.afterAll shifts)
  · intro edits document edited he byte place hplace
    exact ⟨Edit.getElem?_of_applyAll he hplace, Region.holds_afterAll hplace⟩

end

open Pattern.Regex

/-- A region is pushed on, loses all its bytes to a deletion that takes some of a larger region with the same start, and is left
alone by an insertion inside that one. The last letter of a text follows an edit before it. -/
theorem regions_follow_bytes_emptied :
    (⟨2, 3⟩ : Region).offset = (⟨2, 7⟩ : Region).offset ∧ (⟨2, 7⟩ : Region).contains ⟨2, 3⟩ = true ∧
      (⟨2, 3⟩ : Region).afterAll [.insertion 2 3, .deletion 4 5, .insertion 5 1] = ⟨4, 0⟩ ∧
      (⟨2, 7⟩ : Region).afterAll [.insertion 2 3, .deletion 4 5, .insertion 5 1] = ⟨4, 4⟩ ∧
      (⟨4, 4⟩ : Region).contains ⟨4, 0⟩ = true ∧
      Edit.applyAll [⟨1, 2, "xyz"⟩] "abcd" = .ok "axyzd" ∧
      Shift.placeAfter? ([⟨1, 2, "xyz"⟩].flatMap Edit.shifts) 3 = some 4 ∧
      (Text.bytes "abcd")[3]? = (Text.bytes "axyzd")[4]? ∧
      ((⟨2, 2⟩ : Region).afterAll ([⟨1, 2, "xyz"⟩].flatMap Edit.shifts)).holds 4 = (⟨2, 2⟩ : Region).holds 3 := by
  have hregion : (⟨2, 3⟩ : Region).afterAll [.insertion 2 3, .deletion 4 5, .insertion 5 1] = ⟨4, 0⟩ := by decide
  have hinterest : (⟨2, 7⟩ : Region).afterAll [.insertion 2 3, .deletion 4 5, .insertion 5 1] = ⟨4, 4⟩ := by decide
  have he : Edit.applyAll [⟨1, 2, "xyz"⟩] "abcd" = .ok "axyzd" := by decide +kernel
  have hplace : Shift.placeAfter? ([⟨1, 2, "xyz"⟩].flatMap Edit.shifts) 3 = some 4 := by decide +kernel
  obtain ⟨_, hpair, hedits⟩ := regions_follow_bytes
  obtain ⟨_, hcontains⟩ := hpair ⟨2, 3⟩ ⟨2, 7⟩ [.insertion 2 3, .deletion 4 5, .insertion 5 1] (by decide) (by decide)
  obtain ⟨hbyte, hholds⟩ := hedits _ _ _ he _ _ hplace
  rw [hregion, hinterest] at hcontains
  exact ⟨by decide, by decide, hregion, hinterest, hcontains, he, hplace, hbyte, hholds _⟩

end Graft
