/-!
# Text by bytes

Offsets and lengths count the bytes of the UTF-8 form of a text. An offset may be used to cut a text only where one
character ends and the next begins; `isBoundary` says where that is, and `slice?` cuts there and nowhere else.
-/

namespace Graft

/-- The largest size that a document or a count may have: the largest number of 64 bits. -/
def largestSize : Nat :=
  0xFFFFFFFFFFFFFFFF

namespace Text

/-- The UTF-8 form of a text. -/
def bytes (text : String) : List UInt8 :=
  text.toByteArray.data.toList

/-- The endings of a list, longest first, behind those found before. -/
def endingsAfter (found : Array (List UInt8)) : List UInt8 → Array (List UInt8)
  | [] => found.push []
  | byte :: rest => endingsAfter (found.push (byte :: rest)) rest

/-- The bytes behind each offset of a text. -/
def endings (text : String) : Array (List UInt8) :=
  endingsAfter #[] (bytes text)

/-- The number of bytes of a text. -/
def size (text : String) : Nat :=
  text.utf8ByteSize

/-- Whether an offset lies between two characters of a text or at one of its ends. -/
def isBoundary (text : String) (offset : Nat) : Bool :=
  String.Pos.Raw.isValid text ⟨offset⟩

/-- The part of a text from one offset to another, if both may cut it and are in order. -/
def slice? (text : String) (start stop : Nat) : Option String :=
  if h : isBoundary text start = true ∧ isBoundary text stop = true ∧ start ≤ stop then
    some (String.extract (s := text) ⟨⟨start⟩, String.Pos.Raw.isValid_eq_true_iff.1 h.1⟩
      ⟨⟨stop⟩, String.Pos.Raw.isValid_eq_true_iff.1 h.2.1⟩)
  else none

/-- The first bytes of a text, as many as asked for; nothing where the text cannot be cut. -/
def upTo (text : String) (offset : Nat) : String :=
  (slice? text 0 offset).getD ""

/-- What a text holds after its first bytes; nothing where the text cannot be cut. -/
def beyond (text : String) (offset : Nat) : String :=
  (slice? text offset (size text)).getD ""

theorem getElem?_endingsAfter (found : Array (List UInt8)) (list : List UInt8) (offset : Nat) :
    (endingsAfter found list)[offset]?.getD [] =
      if offset < found.size then found[offset]?.getD [] else list.drop (offset - found.size) := by
  induction list generalizing found with
  | nil =>
    rw [endingsAfter, Array.getElem?_push]
    grind
  | cons byte rest ih =>
    rw [endingsAfter, ih, Array.size_push, Array.getElem?_push]
    rcases Nat.lt_trichotomy offset found.size with h | h | h
    · simp [h, Nat.lt_succ_of_lt h, Nat.ne_of_lt h]
    · simp [h]
    · have : offset - found.size = (offset - (found.size + 1)) + 1 := by omega
      rw [if_neg (by omega), if_neg (by omega), this, List.drop_succ_cons]

/-- An ending is what is left of the bytes at its offset. -/
theorem getElem?_endings (text : String) (offset : Nat) : (endings text)[offset]?.getD [] = (bytes text).drop offset := by
  simp [endings, getElem?_endingsAfter]

/-- A text with the part between two offsets replaced. -/
def splice? (text : String) (start stop : Nat) (replacement : String) : Option String := do
  let before ← slice? text 0 start
  let after ← slice? text stop (size text)
  pure (before ++ replacement ++ after)

/-- Whether a byte of a UTF-8 form is the first one of a character. -/
def startsCharacter (byte : UInt8) : Bool :=
  byte < 0x80 || 0xC0 ≤ byte

/-- The longest pieces of a list that hold no separator, without the empty ones. -/
def fields (isSeparator : Char → Bool) : List Char → List (List Char)
  | [] => []
  | c :: rest =>
    if isSeparator c then fields isSeparator rest
    else
      match rest with
      | [] => [[c]]
      | d :: _ =>
        if isSeparator d then [c] :: fields isSeparator rest
        else
          match fields isSeparator rest with
          | [] => [[c]]
          | field :: more => (c :: field) :: more

/-- The decimal digits of a number, each of value at most nine, read from the left. -/
def decimalValue (digits : List Char) : Nat :=
  digits.foldl (fun value digit => value * 10 + (digit.toNat - '0'.toNat)) 0

end Text

end Graft
