import Graft.Proofs.Completion

/-!
# Tokens

Which tokens a text may be made of, and which counts each of them admits. The reader takes a token apart by its last character and
by its first dash; since the digits around these are no signs, it takes every token apart in the one way in which it can be read.
A text is read where all its tokens can be, and it admits what one of them admits.
-/

namespace Graft

/-- The fields of a text are the pieces between its separators that hold something. -/
theorem Text.fields_eq_filter (isSeparator : Char → Bool) (text : List Char) :
    Text.fields isSeparator text = (text.splitOnP isSeparator).filter fun piece => !piece.isEmpty := by
  induction text with
  | nil => rfl
  | cons c rest ih =>
    rw [Text.fields.eq_def, List.splitOnP_cons_eq_if_modifyHead]
    cases hc : isSeparator c with
    | true => simp [hc, ih]
    | false =>
      cases rest with
      | nil => simp [hc]
      | cons d more =>
        rw [List.splitOnP_cons_eq_if_modifyHead] at ih ⊢
        cases hd : isSeparator d with
        | true =>
          rw [if_pos hd] at ih
          simp [hc, hd, ih]
        | false =>
          -- the character joins the piece that begins behind it
          obtain ⟨piece, pieces, hp⟩ := List.exists_cons_of_ne_nil (List.splitOnP_ne_nil isSeparator more)
          rw [hp, hd] at ih
          simp [hc, hd, hp, ih]

namespace Occurrence

/-! ## Numbers -/

/-- The digits of a number that is a size: one of them at least, zeros in front among them. -/
structure Numeral (digits : List Char) (n : Nat) : Prop where
  ne : digits ≠ []
  digit : ∀ c ∈ digits, c.isDigit = true
  value : Nat.ofDigitChars 10 digits 0 = n
  size : n ≤ largestSize

theorem decimalValue_eq (digits : List Char) : Text.decimalValue digits = Nat.ofDigitChars 10 digits 0 := by
  rw [Text.decimalValue, Nat.ofDigitChars]
  simp only [Nat.mul_comm]

theorem readCount_eq_ok_iff {token digits : List Char} {n : Nat} : readCount token digits = .ok n ↔ Numeral digits n := by
  have hdigits : digits.all isDigit = true ↔ ∀ c ∈ digits, c.isDigit = true := List.all_eq_true
  rw [readCount, decimalValue_eq]
  constructor
  · intro h
    split at h
    · cases h
    · rename_i hform
      split at h
      · cases h
      · rename_i hsize
        cases h
        simp only [Bool.or_eq_true, List.isEmpty_iff, Bool.not_eq_true', not_or, Bool.not_eq_false] at hform
        exact ⟨hform.1, hdigits.1 hform.2, rfl, Nat.not_lt.1 hsize⟩
  · rintro ⟨ne, digit, rfl, size⟩
    rw [if_neg (by simp [ne, hdigits.2 digit]), if_neg (Nat.not_lt.2 size)]

namespace Numeral

variable {digits : List Char} {n : Nat}

/-- No sign stands among digits. -/
theorem not_mem (h : Numeral digits n) {c : Char} (hc : c.isDigit = false) : c ∉ digits := by
  intro hmem
  rw [h.digit c hmem] at hc
  cases hc

theorem getLast?_isDigit (h : Numeral digits n) : ∃ c, digits.getLast? = some c ∧ c.isDigit = true :=
  ⟨digits.getLast h.ne, List.getLast?_eq_some_getLast h.ne, h.digit _ (List.getLast_mem h.ne)⟩

end Numeral

/-! ## Tokens -/

/-- The tokens, and the counts that each of them admits. -/
inductive Denotes : List Char → (Nat → Prop) → Prop where
  | optional : Denotes ['?'] fun count => count ≤ 1
  | any : Denotes ['*'] fun _ => True
  | some : Denotes ['+'] fun count => 1 ≤ count
  | exactly {digits : List Char} {n : Nat} (h : Numeral digits n) : Denotes digits fun count => count = n
  | atLeast {digits : List Char} {n : Nat} (h : Numeral digits n) : Denotes (digits ++ ['+']) fun count => n ≤ count
  | atMost {digits : List Char} {n : Nat} (h : Numeral digits n) : Denotes (digits ++ ['-']) fun count => count ≤ n
  | between {least most : List Char} {n m : Nat} (hl : Numeral least n) (hm : Numeral most m) (ordered : n ≤ m) :
    Denotes (least ++ '-' :: most) fun count => n ≤ count ∧ count ≤ m

/-- A token that ends with a digit is a range where a dash stands in it, or else a number. -/
theorem readToken_of_isDigit {token : List Char} {c : Char} (h : token.getLast? = some c) (hc : c.isDigit = true) :
    readToken token =
      if token.contains '-' then readRange token (token.takeWhile (· != '-')) ((token.dropWhile (· != '-')).drop 1)
      else exactly <$> readCount token token := by
  have hsign : ∀ sign : Char, sign.isDigit = false → token.getLast? ≠ some sign := by
    rintro sign hs hlast
    rw [h, Option.some.injEq] at hlast
    rw [hlast, hs] at hc
    cases hc
  have hone : ∀ sign : Char, sign.isDigit = false → token ≠ [sign] := by
    rintro sign hs rfl
    exact hsign sign hs rfl
  rw [readToken, if_neg (hone '?' rfl), if_neg (hone '*' rfl), if_neg (hone '+' rfl), if_neg (hsign '+' rfl),
    if_neg (hsign '-' rfl)]
  rfl

section

variable {digits least most : List Char} {n m : Nat}

theorem readToken_numeral (h : Numeral digits n) : readToken digits = .ok (exactly n) := by
  obtain ⟨c, hlast, hc⟩ := h.getLast?_isDigit
  rw [readToken_of_isDigit hlast hc, if_neg (by simpa using h.not_mem rfl), readCount_eq_ok_iff.2 h]
  rfl

theorem readToken_plus (h : Numeral digits n) :
    readToken (digits ++ ['+']) = .ok (if n = 0 then any else atLeast n) := by
  have hne : ∀ sign : Char, digits ++ ['+'] ≠ [sign] := by
    intro sign heq
    have := congrArg List.length heq
    simp [h.ne] at this
  rw [readToken, if_neg (hne _), if_neg (hne _), if_neg (hne _), if_pos List.getLast?_concat, List.dropLast_concat,
    readCount_eq_ok_iff.2 h]
  rfl

theorem readToken_dash (h : Numeral digits n) : readToken (digits ++ ['-']) = .ok (atMost n) := by
  have hne : ∀ sign : Char, digits ++ ['-'] ≠ [sign] := by
    intro sign heq
    have := congrArg List.length heq
    simp [h.ne] at this
  rw [readToken, if_neg (hne _), if_neg (hne _), if_neg (hne _), if_neg (by simp), if_pos List.getLast?_concat,
    List.dropLast_concat, readCount_eq_ok_iff.2 h]
  rfl

/-- A token is cut at its first dash. -/
theorem takeWhile_append_dash (most : List Char) (h : '-' ∉ least) :
    (least ++ '-' :: most).takeWhile (· != '-') = least ∧
      ((least ++ '-' :: most).dropWhile (· != '-')).drop 1 = most := by
  have hleast : ∀ c ∈ least, (c != '-') = true := by
    intro c hc
    simp only [bne_iff_ne, ne_eq]
    rintro rfl
    exact h hc
  rw [List.takeWhile_append_of_pos hleast, List.dropWhile_append_of_pos hleast]
  simp

theorem readToken_range (hl : Numeral least n) (hm : Numeral most m) (ordered : n ≤ m) :
    readToken (least ++ '-' :: most) = .ok (between n m) := by
  obtain ⟨c, hlast, hc⟩ := hm.getLast?_isDigit
  have hend : (least ++ '-' :: most).getLast? = some c := by
    rw [List.getLast?_append, List.getLast?_cons, hlast]
    rfl
  obtain ⟨htake, hdrop⟩ := takeWhile_append_dash most (hl.not_mem rfl)
  rw [readToken_of_isDigit hend hc, if_pos (by simp), htake, hdrop, readRange,
    readCount_eq_ok_iff.2 hl]
  change (do
    let most ← readCount _ most
    if most < n then throw _
    pure (between n most)) = _
  rw [readCount_eq_ok_iff.2 hm]
  change (if m < n then _ else _) = _
  rw [if_neg (Nat.not_lt.2 ordered)]
  rfl

end

/-- A token is read as what admits the same counts. -/
theorem Denotes.readToken {token : List Char} {counts : Nat → Prop} (h : Denotes token counts) :
    ∃ o, readToken token = .ok o ∧ ∀ count, o.isValid count = true ↔ counts count := by
  cases h with
  | optional => exact ⟨_, rfl, fun count => by simp [Occurrence.optional, isValid]⟩
  | any => exact ⟨_, rfl, fun count => by simp [isValid]⟩
  | some => exact ⟨_, rfl, fun count => by simp [atLeastOnce, isValid]⟩
  | exactly h => exact ⟨_, readToken_numeral h, fun count => by simp [isValid]⟩
  | @atLeast digits n h =>
    refine ⟨_, readToken_plus h, fun count => ?_⟩
    split
    · simp [isValid, *]
    · simp [isValid]
  | atMost h => exact ⟨_, readToken_dash h, fun count => by simp [isValid]⟩
  | between hl hm ordered => exact ⟨_, readToken_range hl hm ordered, fun count => by simp [isValid]⟩

/-- What is read as an occurrence is a token. -/
theorem denotes_of_readToken {token : List Char} {o : Occurrence} (h : readToken token = .ok o) :
    ∃ counts, Denotes token counts := by
  rw [Occurrence.readToken] at h
  split at h
  · rename_i heq
    exact heq ▸ ⟨_, .optional⟩
  split at h
  · rename_i heq
    exact heq ▸ ⟨_, .any⟩
  split at h
  · rename_i heq
    exact heq ▸ ⟨_, .some⟩
  split at h
  · rename_i hlast
    obtain ⟨least, hleast, _⟩ := Except.bind_eq_ok.1 h
    rw [← List.dropLast_append_getLast? _ hlast]
    exact ⟨_, .atLeast (readCount_eq_ok_iff.1 hleast)⟩
  split at h
  · rename_i hlast
    obtain ⟨most, hmost, _⟩ := Except.bind_eq_ok.1 h
    rw [← List.dropLast_append_getLast? _ hlast]
    exact ⟨_, .atMost (readCount_eq_ok_iff.1 hmost)⟩
  split at h
  · rename_i hdash
    obtain ⟨least, most, rfl, hfirst⟩ := List.eq_append_cons_of_mem (List.contains_iff_mem.1 hdash)
    obtain ⟨htake, hdrop⟩ := takeWhile_append_dash most hfirst
    rw [htake, hdrop] at h
    obtain ⟨n, hn, h⟩ := Except.bind_eq_ok.1 h
    obtain ⟨m, hm, h⟩ := Except.bind_eq_ok.1 h
    split at h
    · cases h
    · rename_i hordered
      exact ⟨_, .between (readCount_eq_ok_iff.1 hn) (readCount_eq_ok_iff.1 hm) (Nat.not_lt.1 hordered)⟩
  · obtain ⟨count, hcount, _⟩ := Except.bind_eq_ok.1 h
    exact ⟨_, .exactly (readCount_eq_ok_iff.1 hcount)⟩

/-! ## Texts -/

/-- The occurrence of a text whose tokens were read: what its only token stands for, or a choice of what several stand for. -/
def together : List Occurrence → Occurrence
  | [o] => o
  | several => oneOf several

theorem isValid_together (choices : List Occurrence) (count : Nat) :
    (together choices).isValid count = anyValid choices count := by
  match choices with
  | [] => rfl
  | [o] => simp [together, anyValid]
  | _ :: _ :: _ => rw [together, isValid]; simp

/-- The tokens of a text are read one by one. -/
theorem read_eq_together {text : String} (h : tokens text ≠ []) :
    read text = ((tokens text).mapM readToken).map together := by
  rw [read]
  cases hm : tokens text with
  | nil => exact absurd hm h
  | cons first rest =>
    cases rest with
    | nil =>
      change readToken first = _
      rw [List.mapM_cons, List.mapM_nil]
      cases readToken first <;> rfl
    | cons second rest =>
      change ((first :: second :: rest).mapM readToken >>= fun choices => pure (oneOf choices)) = _
      rw [List.mapM_cons, List.mapM_cons]
      cases readToken first with
      | error => rfl
      | ok =>
        cases readToken second with
        | error => rfl
        | ok => cases rest.mapM readToken <;> rfl

/-- A text is read where it has tokens and all of them are read. -/
theorem read_eq_ok_iff {text : String} {o : Occurrence} : read text = .ok o ↔
    tokens text ≠ [] ∧ ∃ choices, (tokens text).mapM readToken = .ok choices ∧ o = together choices := by
  by_cases hne : tokens text = []
  · rw [read, hne]
    simp
  · rw [read_eq_together hne]
    cases (tokens text).mapM readToken <;> simp [hne, Except.map, eq_comm]

/-- Tokens can all be read, and some member of what is read admits a count where one of the tokens does. -/
theorem mapM_readToken {list : List (List Char)} (h : ∀ token ∈ list, ∃ counts, Denotes token counts) :
    ∃ choices, list.mapM readToken = .ok choices ∧
      ∀ count, anyValid choices count = true ↔ ∃ token ∈ list, ∃ counts, Denotes token counts ∧ counts count := by
  induction list with
  | nil => exact ⟨[], rfl, fun count => by simp [anyValid]⟩
  | cons token rest ih =>
    rw [List.forall_mem_cons] at h
    obtain ⟨counts, hcounts⟩ := h.1
    obtain ⟨o, ho, hvalid⟩ := hcounts.readToken
    obtain ⟨choices, hchoices, hany⟩ := ih h.2
    refine ⟨o :: choices, by rw [List.mapM_cons, ho, hchoices]; rfl, fun count => ?_⟩
    rw [anyValid, Bool.or_eq_true, hany, List.exists_mem_cons_iff]
    refine or_congr_left ⟨fun hcount => ⟨counts, hcounts, (hvalid count).1 hcount⟩, ?_⟩
    rintro ⟨counts', hcounts', hcount⟩
    -- the token may be taken apart in no other way
    obtain ⟨o', ho', hvalid'⟩ := hcounts'.readToken
    rw [ho] at ho'
    cases ho'
    exact (hvalid' count).2 hcount

/-- Only tokens can all be read. -/
theorem denotes_of_mapM {list : List (List Char)} {choices : List Occurrence} (h : list.mapM readToken = .ok choices) :
    ∀ token ∈ list, ∃ counts, Denotes token counts := by
  induction list generalizing choices with
  | nil => simp
  | cons token rest ih =>
    rw [List.mapM_cons] at h
    obtain ⟨o, ho, h⟩ := Except.bind_eq_ok.1 h
    obtain ⟨os, hos, _⟩ := Except.bind_eq_ok.1 h
    exact List.forall_mem_cons.2 ⟨denotes_of_readToken ho, ih hos⟩

/-- The pieces of a text between bars and white space, without the empty ones. -/
def pieces (text : String) : List (List Char) :=
  (text.toList.splitOnP fun c => c == '|' || Text.isBlank c).filter fun piece => !piece.isEmpty

theorem tokens_eq_pieces (text : String) : tokens text = pieces text :=
  Text.fields_eq_filter _ _

/-- **Tokens.** For every text:
1. It is read exactly where some piece stands between its bars and white space, and all pieces are tokens.
2. Then the occurrence admits exactly the counts that one of the pieces admits. -/
theorem read_iff_denotes (text : String) :
    ((∃ o, read text = .ok o) ↔ pieces text ≠ [] ∧ ∀ token ∈ pieces text, ∃ counts, Denotes token counts) ∧
    ∀ o, read text = .ok o → ∀ count,
      (o.isValid count = true ↔ ∃ token ∈ pieces text, ∃ counts, Denotes token counts ∧ counts count) := by
  rw [← tokens_eq_pieces]
  refine ⟨⟨?_, ?_⟩, ?_⟩
  · rintro ⟨o, ho⟩
    obtain ⟨hne, choices, hchoices, _⟩ := read_eq_ok_iff.1 ho
    exact ⟨hne, denotes_of_mapM hchoices⟩
  · rintro ⟨hne, hall⟩
    obtain ⟨choices, hchoices, _⟩ := mapM_readToken hall
    exact ⟨_, read_eq_ok_iff.2 ⟨hne, choices, hchoices, rfl⟩⟩
  · intro o ho count
    obtain ⟨_, choices, hchoices, rfl⟩ := read_eq_ok_iff.1 ho
    obtain ⟨choices', hchoices', hany⟩ := mapM_readToken (denotes_of_mapM hchoices)
    rw [hchoices] at hchoices'
    cases hchoices'
    rw [isValid_together, hany]

/-- A question mark and a range, with a zero in front: one of them admits four. -/
theorem read_iff_denotes_optionalOrRange :
    (pieces "? 02-5" ≠ [] ∧ ∀ token ∈ pieces "? 02-5", ∃ counts, Denotes token counts) ∧
    ∃ token ∈ pieces "? 02-5", ∃ counts, Denotes token counts ∧ counts 4 := by
  have hread : read "? 02-5" = .ok (oneOf [atMost 1, between 2 5]) := by rfl
  obtain ⟨hiff, hcounts⟩ := read_iff_denotes "? 02-5"
  exact ⟨hiff.1 ⟨_, hread⟩, (hcounts _ hread 4).1 (by decide)⟩

end Occurrence

end Graft
