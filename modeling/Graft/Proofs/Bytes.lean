import Graft.Text

/-!
# Texts as bytes

What is cut out of a text is told by its bytes: `slice?` takes the bytes between two boundaries, and the byte behind an
offset alone says whether that offset is a boundary.
-/

namespace Graft
namespace Text

theorem length_bytes (text : String) : (bytes text).length = size text := by
  rw [bytes, size, Array.length_toList]
  exact String.size_toByteArray

theorem bytes_append (a b : String) : bytes (a ++ b) = bytes a ++ bytes b := by
  simp [bytes]

theorem bytes_empty : bytes "" = [] := by
  simp [bytes]

theorem size_append (a b : String) : size (a ++ b) = size a + size b := by
  simp [size]

theorem size_empty : size "" = 0 := by
  simp [size]

/-- A text is known by its bytes. -/
theorem eq_of_bytes_eq {a b : String} (h : bytes a = bytes b) : a = b := by
  apply String.toByteArray_inj.1
  exact ByteArray.ext (Array.toList_inj.1 h)

/-- Only the empty text has no bytes. -/
theorem size_eq_zero_iff (text : String) : size text = 0 ↔ text = "" := by
  constructor
  · intro h
    apply eq_of_bytes_eq
    rw [bytes_empty]
    exact List.eq_nil_of_length_eq_zero (by rw [length_bytes, h])
  · rintro rfl
    exact size_empty

/-! ## Boundaries -/

/-- Whether some bytes are none or begin with the first byte of a character. -/
def beginsCharacter : List UInt8 → Bool
  | [] => true
  | byte :: _ => decide byte.IsUTF8FirstByte

/-- An offset is a boundary by the byte behind it. -/
theorem isBoundary_eq (text : String) (offset : Nat) :
    isBoundary text offset = (decide (offset ≤ size text) && beginsCharacter ((bytes text).drop offset)) := by
  rw [isBoundary, String.Pos.Raw.isValid]
  split
  · rename_i h
    have h1 : offset < size text := by simpa [String.Pos.Raw.lt_iff, size] using h
    have h2 : offset < (bytes text).length := by rw [length_bytes]; exact h1
    rw [List.drop_eq_getElem_cons h2, beginsCharacter, decide_eq_true (Nat.le_of_lt h1), Bool.true_and]
    rfl
  · rename_i h
    have h1 : size text ≤ offset := by simpa [String.Pos.Raw.lt_iff, size] using h
    rw [List.drop_eq_nil_of_le (by rw [length_bytes]; exact h1), beginsCharacter, Bool.and_true]
    have h2 : String.Pos.Raw.mk offset = text.rawEndPos ↔ offset ≤ size text := by
      simp [String.Pos.Raw.ext_iff, size] at h1 ⊢
      omega
    simp [h2]

theorem isBoundary_iff {text : String} {offset : Nat} :
    isBoundary text offset = true ↔ offset ≤ size text ∧ beginsCharacter ((bytes text).drop offset) = true := by
  rw [isBoundary_eq, Bool.and_eq_true, decide_eq_true_iff]

theorem le_size_of_isBoundary {text : String} {offset : Nat} (h : isBoundary text offset = true) :
    offset ≤ size text :=
  (isBoundary_iff.1 h).1

theorem isBoundary_zero (text : String) : isBoundary text 0 = true := by
  rw [isBoundary, String.Pos.Raw.isValid_eq_true_iff]
  exact String.Pos.Raw.isValid_zero

theorem isBoundary_size (text : String) : isBoundary text (size text) = true := by
  rw [isBoundary_iff, ← length_bytes, List.drop_length]
  exact ⟨Nat.le_refl _, rfl⟩

theorem beginsCharacter_bytes (text : String) : beginsCharacter (bytes text) = true := by
  have h := isBoundary_zero text
  rw [isBoundary_iff, List.drop_zero] at h
  exact h.2

/-- A text put in front of another one is cut from it again. -/
theorem isBoundary_append (a b : String) : isBoundary (a ++ b) (size a) = true := by
  rw [isBoundary_iff, size_append, bytes_append, ← length_bytes a, List.drop_left]
  exact ⟨Nat.le_add_right _ _, beginsCharacter_bytes b⟩

/-- A byte that starts a character as matching sees it, and may stand in a text, is a first byte. -/
theorem isUTF8FirstByte_of_startsCharacter {byte : UInt8} (h : byte.toNat < 0xF8) (hs : startsCharacter byte = true) :
    byte.IsUTF8FirstByte := by
  have hall : ∀ n : Fin 0xF8, startsCharacter (.ofNat n) = true → (UInt8.ofNat n).IsUTF8FirstByte := by decide +kernel
  have h1 := hall ⟨byte.toNat, h⟩
  simp only [UInt8.ofNat_toNat] at h1
  exact h1 hs

/-- A first byte starts a character as matching sees it. -/
theorem startsCharacter_of_isUTF8FirstByte {byte : UInt8} (h : byte.IsUTF8FirstByte) : startsCharacter byte = true := by
  have hall : ∀ n : Fin 0x100, (UInt8.ofNat n).IsUTF8FirstByte → startsCharacter (.ofNat n) = true := by decide +kernel
  have h1 := hall ⟨byte.toNat, byte.toNat_lt⟩
  simp only [UInt8.ofNat_toNat] at h1
  exact h1 h

/-- No byte of a text is larger than the first byte of the longest characters. -/
theorem toNat_lt_of_mem_bytes {text : String} {byte : UInt8} (h : byte ∈ bytes text) : byte.toNat < 0xF8 := by
  rw [bytes, ← String.utf8Encode_toList, List.utf8Encode, List.data_toByteArray, List.toList_toArray, List.mem_flatMap] at h
  obtain ⟨c, _, hc⟩ := h
  rw [String.utf8EncodeChar] at hc
  split at hc
  · simp only [List.mem_singleton] at hc
    subst hc
    rw [UInt8.toNat_ofNat']
    omega
  · split at hc
    · simp only [List.mem_cons, List.not_mem_nil, or_false] at hc
      rcases hc with rfl | rfl <;> rw [UInt8.toNat_ofNat'] <;> omega
    · split at hc
      · simp only [List.mem_cons, List.not_mem_nil, or_false] at hc
        rcases hc with rfl | rfl | rfl <;> rw [UInt8.toNat_ofNat'] <;> omega
      · simp only [List.mem_cons, List.not_mem_nil, or_false] at hc
        rcases hc with rfl | rfl | rfl | rfl <;> rw [UInt8.toNat_ofNat'] <;> omega

/-! ## Slices -/

/-- A slice is taken between two boundaries in order, and has the bytes between them. -/
theorem slice?_eq_some_iff {text : String} {start stop : Nat} {part : String} :
    slice? text start stop = some part ↔
      isBoundary text start = true ∧ isBoundary text stop = true ∧ start ≤ stop ∧
        bytes part = ((bytes text).drop start).take (stop - start) := by
  have hbytes : ∀ h : isBoundary text start = true ∧ isBoundary text stop = true ∧ start ≤ stop,
      bytes (String.extract (s := text) ⟨⟨start⟩, String.Pos.Raw.isValid_eq_true_iff.1 h.1⟩
        ⟨⟨stop⟩, String.Pos.Raw.isValid_eq_true_iff.1 h.2.1⟩) = ((bytes text).drop start).take (stop - start) := by
    intro h
    simp [bytes, List.take_drop]
  rw [slice?]
  constructor
  · intro h
    split at h
    · rename_i hb
      cases h
      exact ⟨hb.1, hb.2.1, hb.2.2, hbytes hb⟩
    · cases h
  · rintro ⟨h1, h2, h3, h4⟩
    rw [dif_pos ⟨h1, h2, h3⟩, Option.some_inj]
    exact eq_of_bytes_eq ((hbytes ⟨h1, h2, h3⟩).trans h4.symm)

theorem exists_slice? {text : String} {start stop : Nat} (h1 : isBoundary text start = true)
    (h2 : isBoundary text stop = true) (h3 : start ≤ stop) : ∃ part, slice? text start stop = some part := by
  rw [slice?, dif_pos ⟨h1, h2, h3⟩]
  exact ⟨_, rfl⟩

theorem size_of_slice? {text : String} {start stop : Nat} {part : String} (h : slice? text start stop = some part) :
    size part = stop - start := by
  obtain ⟨_, h2, h3, h4⟩ := slice?_eq_some_iff.1 h
  have h5 := le_size_of_isBoundary h2
  rw [← length_bytes, h4, List.length_take, List.length_drop, length_bytes]
  omega

/-- A text is the slice from its start to its end. -/
theorem slice?_self (text : String) : slice? text 0 (size text) = some text := by
  rw [slice?_eq_some_iff]
  refine ⟨isBoundary_zero text, isBoundary_size text, Nat.zero_le _, ?_⟩
  rw [List.drop_zero, List.take_of_length_le (by rw [length_bytes]; omega)]

/-- A slice between equal offsets is empty. -/
theorem slice?_empty {text : String} {offset : Nat} (h : isBoundary text offset = true) :
    slice? text offset offset = some "" := by
  rw [slice?_eq_some_iff]
  exact ⟨h, h, Nat.le_refl _, by rw [Nat.sub_self, List.take_zero, bytes_empty]⟩

/-- Slices that meet make up one slice. -/
theorem slice?_append {text : String} {start middle stop : Nat} {a b : String}
    (ha : slice? text start middle = some a) (hb : slice? text middle stop = some b) :
    slice? text start stop = some (a ++ b) := by
  obtain ⟨h1, h2, h3, h4⟩ := slice?_eq_some_iff.1 ha
  obtain ⟨_, h5, h6, h7⟩ := slice?_eq_some_iff.1 hb
  rw [slice?_eq_some_iff]
  refine ⟨h1, h5, Nat.le_trans h3 h6, ?_⟩
  have h8 : stop - start = (middle - start) + (stop - middle) := by omega
  have h9 : start + (middle - start) = middle := by omega
  rw [bytes_append, h4, h7, h8, List.take_add, List.drop_drop, h9]

/-- What stands in front of a text that was added is found again. -/
theorem upTo_append (a b : String) : upTo (a ++ b) (size a) = a := by
  have h : slice? (a ++ b) 0 (size a) = some a := by
    rw [slice?_eq_some_iff]
    refine ⟨isBoundary_zero _, isBoundary_append a b, Nat.zero_le _, ?_⟩
    rw [List.drop_zero, Nat.sub_zero, bytes_append, ← length_bytes, List.take_left]
  rw [upTo, h, Option.getD_some]

/-- A text that was added is found again. -/
theorem beyond_append (a b : String) : beyond (a ++ b) (size a) = b := by
  have h : slice? (a ++ b) (size a) (size (a ++ b)) = some b := by
    rw [slice?_eq_some_iff]
    refine ⟨isBoundary_append a b, isBoundary_size _, by rw [size_append]; omega, ?_⟩
    rw [bytes_append, size_append, Nat.add_sub_cancel_left, ← length_bytes a, List.drop_left, ← length_bytes b,
      List.take_length]
  rw [beyond, h, Option.getD_some]

/-- A replacement leaves what stands before and behind it. -/
theorem splice?_eq_some {text replacement edited : String} {start stop : Nat}
    (h : splice? text start stop replacement = some edited) :
    ∃ before after, slice? text 0 start = some before ∧ slice? text stop (size text) = some after ∧
      edited = before ++ replacement ++ after := by
  rw [splice?] at h
  obtain ⟨before, hb, h⟩ := Option.bind_eq_some_iff.1 h
  obtain ⟨after, ha, h⟩ := Option.bind_eq_some_iff.1 h
  cases h
  exact ⟨before, after, hb, ha, rfl⟩

/-! ## Windows of two texts -/

/-- Two texts show the same bytes in a window of some length behind an offset of each. Where the window reaches past the
end of one text, the two are the same up to their ends. -/
structure Alike (u v : String) (o p length : Nat) : Prop where
  left : o ≤ size u
  right : p ≤ size v
  window : ((bytes u).drop o).take length = ((bytes v).drop p).take length

/-- A window that reaches past the end shows all that is left. -/
theorem eq_of_take_eq_take {U V : List UInt8} {n : Nat} (h : U.take n = V.take n) (hn : U.length < n) : U = V := by
  rw [List.take_of_length_le (Nat.le_of_lt hn)] at h
  have h1 : min n V.length = U.length := by rw [h, List.length_take]
  rw [h, List.take_of_length_le (by omega)]

namespace Alike

variable {u v : String} {o p n : Nat}

theorem refl (h : o ≤ size u) : Alike u u o o n :=
  ⟨h, h, rfl⟩

theorem trans {w : String} {q : Nat} (h : Alike u v o p n) (h' : Alike v w p q n) : Alike u w o q n :=
  ⟨h.left, h'.right, h.window.trans h'.window⟩

/-- Texts that begin alike. -/
theorem of_front (a b c : String) (h : o + n ≤ size a) : Alike (a ++ b) (a ++ c) o o n := by
  have h1 : ∀ d : String, ((bytes (a ++ d)).drop o).take n = ((bytes a).drop o).take n := by
    intro d
    rw [bytes_append, List.drop_append_of_le_length (by rw [length_bytes]; omega),
      List.take_append_of_le_length (by rw [List.length_drop, length_bytes]; omega)]
  exact ⟨by rw [size_append]; omega, by rw [size_append]; omega, by rw [h1, h1]⟩

/-- Texts that end alike. -/
theorem of_back (a b c : String) {k : Nat} (h : k ≤ size c) :
    Alike (a ++ c) (b ++ c) (size a + k) (size b + k) n := by
  have h1 : ∀ d : String, (bytes (d ++ c)).drop (size d + k) = (bytes c).drop k := by
    intro d
    rw [bytes_append, ← length_bytes d, List.drop_append, List.drop_of_length_le (by omega), Nat.add_sub_cancel_left,
      List.nil_append]
  exact ⟨by rw [size_append]; omega, by rw [size_append]; omega, by rw [h1, h1]⟩

/-- Texts of which nothing is seen. -/
theorem of_nothing (ho : o ≤ size u) (hp : p ≤ size v) : Alike u v o p 0 :=
  ⟨ho, hp, by rw [List.take_zero, List.take_zero]⟩

/-- What is left of both texts is the same where the window reaches past the end of one. -/
theorem rest_eq (h : Alike u v o p n) (hn : size u < o + n) : (bytes u).drop o = (bytes v).drop p := by
  apply eq_of_take_eq_take h.window
  have := h.left
  rw [List.length_drop, length_bytes]
  omega

/-- A window inside a window. Offsets are told by how far they lie behind the start of the larger one. -/
theorem within (h : Alike u v o p n) {k m : Nat} (hm : k + m ≤ n) (hk : o + k ≤ size u) :
    Alike u v (o + k) (p + k) m := by
  have hw : (((bytes u).drop o).drop k).take m = (((bytes v).drop p).drop k).take m := by
    have h1 := congrArg (fun l => (l.drop k).take m) h.window
    simpa only [List.drop_take, List.take_take, Nat.min_eq_left (show m ≤ n - k by omega)] using h1
  refine ⟨hk, ?_, by simpa only [List.drop_drop] using hw⟩
  -- the bytes up to the inner window are there in the first text, so they are there in the second
  have h2 := congrArg List.length h.window
  have h3 := h.right
  simp only [List.length_take, List.length_drop, length_bytes] at h2
  omega

/-- Whether an offset in sight is a boundary does not depend on the text around the window. -/
theorem isBoundary_eq (h : Alike u v o p n) {k : Nat} (hk : k < n) :
    isBoundary u (o + k) = isBoundary v (p + k) := by
  by_cases hs : o + k ≤ size u
  · have hw := h.within (k := k) (m := 1) hk hs
    rw [Text.isBoundary_eq, Text.isBoundary_eq, decide_eq_true hw.left, decide_eq_true hw.right]
    have h1 := hw.window
    cases hu : (bytes u).drop (o + k) <;> cases hv : (bytes v).drop (p + k) <;> simp_all [beginsCharacter]
  · have h1 := congrArg List.length (h.rest_eq (by omega))
    simp only [List.length_drop, length_bytes] at h1
    have h2 := h.left
    have h3 := h.right
    rw [Text.isBoundary_eq, Text.isBoundary_eq, decide_eq_false hs, decide_eq_false (by omega)]
    rfl

/-- What is cut out in sight does not depend on the text around the window. -/
theorem slice?_eq (h : Alike u v o p n) {k : Nat} (hk : k < n) {part : String}
    (hs : slice? u o (o + k) = some part) : slice? v p (p + k) = some part := by
  obtain ⟨h1, h2, _, h3⟩ := slice?_eq_some_iff.1 hs
  rw [slice?_eq_some_iff]
  refine ⟨?_, ?_, by omega, ?_⟩
  · rw [← h1]
    exact (h.isBoundary_eq (k := 0) (by omega)).symm
  · rw [← h2]
    exact (h.isBoundary_eq hk).symm
  · rw [h3, Nat.add_sub_cancel_left, Nat.add_sub_cancel_left]
    have h4 := congrArg (fun l => l.take k) h.window
    simpa only [List.take_take, Nat.min_eq_left (Nat.le_of_lt hk)] using h4

end Alike

end Text
end Graft
