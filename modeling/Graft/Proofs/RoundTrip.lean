import Graft.Occurrence.Printer
import Graft.Proofs.Tokens

/-!
# Round trips

The text form of an occurrence can be read again. Choices within choices are not written down as such: the text form of a choice
is that of everything that can be chosen in the end, one bar after the other. What is read answers every question about a count as
the occurrence did, and an occurrence that was itself read from some text is read again as it was.
-/

namespace Graft

namespace Occurrence

/-! ## Text forms of tokens -/

/-- Digits are neither bars nor white space. -/
theorem isSeparator_of_isDigit {c : Char} (h : c.isDigit = true) : (c == '|' || Text.isBlank c) = false := by
  simp only [Char.isDigit, Bool.and_eq_true, decide_eq_true_eq] at h
  have hc : 48 ≤ c.toNat ∧ c.toNat ≤ 57 := h
  rw [Bool.or_eq_false_iff]
  constructor
  · rw [beq_eq_false_iff_ne]
    rintro rfl
    exact absurd hc.2 (by decide)
  · simp only [Text.isBlank, Text.inRanges, Text.whiteSpace, List.any_cons, List.any_nil, Bool.or_false, Bool.or_eq_false_iff,
      Bool.and_eq_false_iff, decide_eq_false_iff_not]
    omega

namespace Denotes

variable {token : List Char} {counts : Nat → Prop}

/-- A token has characters. -/
theorem ne_nil (h : Denotes token counts) : token ≠ [] := by
  cases h with
  | exactly h => exact h.ne
  | optional | any | some | atLeast | atMost | between => simp

/-- No bar and no white space stands in a token. -/
theorem isSeparator (h : Denotes token counts) : ∀ c ∈ token, (c == '|' || Text.isBlank c) = false := by
  have hdigits : ∀ {digits n}, Numeral digits n → ∀ c ∈ digits, (c == '|' || Text.isBlank c) = false :=
    fun h c hc => isSeparator_of_isDigit (h.digit c hc)
  cases h with
  | optional | any | some => exact List.forall_mem_singleton.2 rfl
  | exactly h => exact hdigits h
  | atLeast h => exact List.forall_mem_append.2 ⟨hdigits h, List.forall_mem_singleton.2 rfl⟩
  | atMost h => exact List.forall_mem_append.2 ⟨hdigits h, List.forall_mem_singleton.2 rfl⟩
  | between hl hm => exact List.forall_mem_append.2 ⟨hdigits hl, List.forall_mem_cons.2 ⟨rfl, hdigits hm⟩⟩

end Denotes

/-- What is read as one token is not taken apart any further. -/
theorem tokens_of_readToken {text : String} {o : Occurrence} (h : readToken text.toList = .ok o) :
    tokens text = [text.toList] := by
  obtain ⟨counts, hcounts⟩ := denotes_of_readToken h
  rw [tokens, Text.fields_eq_filter, List.splitOnP_eq_singleton hcounts.isSeparator]
  simp [hcounts.ne_nil]

/-- An occurrence as its text form stands for it: at least none is any number. -/
def canonical : Occurrence → Occurrence
  | atLeast 0 => any
  | o => o

/-- The digits of a number that is a size are a numeral of it. -/
theorem numeral_toDigits {n : Nat} (h : n ≤ largestSize) : Numeral (Nat.toDigits 10 n) n :=
  ⟨Nat.toDigits_ne_nil, fun _ => Nat.isDigit_of_mem_toDigits (by decide) (by decide), Nat.ofDigitChars_ten_toDigits, h⟩

/-- A number is written with its decimal digits. -/
theorem toList_toString (n : Nat) : (toString n).toList = Nat.toDigits 10 n := by
  rw [Nat.toString_eq_ofList_toDigits, String.toList_ofList]

/-- The text form of a token is read as that token. -/
theorem Token.readToken_text {o : Occurrence} (h : o.Token) : readToken o.text.toList = .ok o.canonical := by
  cases h with
  | @exactly n size =>
    rw [text, toList_toString]
    exact readToken_numeral (numeral_toDigits size)
  | @atLeast n size =>
    rw [text]
    split
    · subst n
      rfl
    · rw [String.toList_append, toList_toString]
      refine (readToken_plus (numeral_toDigits size)).trans ?_
      cases n <;> rfl
  | @atMost n size =>
    rw [text]
    split
    · subst n
      rfl
    · rw [String.toList_append, toList_toString]
      exact readToken_dash (numeral_toDigits size)
  | @between least most ordered size =>
    rw [text, String.toList_append, String.toList_append, toList_toString, toList_toString, List.append_assoc]
    exact readToken_range (numeral_toDigits (Nat.le_trans ordered size)) (numeral_toDigits size) ordered
  | any => rfl

/-- What is read from a token stays what it is when it is written. -/
theorem canonical_of_readToken {token : List Char} {o : Occurrence} (h : readToken token = .ok o) : o.canonical = o := by
  obtain ⟨counts, hcounts⟩ := denotes_of_readToken h
  cases hcounts with
  | optional | any | some =>
    cases h
    rfl
  | exactly hn =>
    rw [readToken_numeral hn] at h
    cases h
    rfl
  | @atLeast _ n hn =>
    rw [readToken_plus hn] at h
    cases n <;> cases h <;> rfl
  | atMost hn =>
    rw [readToken_dash hn] at h
    cases h
    rfl
  | between hl hm ordered =>
    rw [readToken_range hl hm ordered] at h
    cases h
    rfl

/-! ## Text forms of choices -/

/-- Several occurrences are written one by one. -/
theorem texts_eq_map (choices : List Occurrence) : texts choices = choices.map text := by
  induction choices with
  | nil => rfl
  | cons choice rest ih => rw [texts, ih, List.map_cons]

/-- The tokens of texts with bars between them are those of the texts. -/
theorem tokens_intercalate (list : List String) : tokens (String.intercalate "|" list) = list.flatMap tokens := by
  induction list with
  | nil => rfl
  | cons first rest ih =>
    cases rest with
    | nil => simp
    | cons second more =>
      rw [List.flatMap_cons, ← ih, tokens, tokens, tokens, String.toList_intercalate, String.toList_intercalate, List.map_cons,
        List.map_cons, List.intercalate_cons_cons, List.append_assoc]
      simp only [Text.fields_eq_filter]
      change List.filter _ (List.splitOnP _ (_ ++ '|' :: _)) = _
      rw [List.splitOnP_append_cons _ _ (by rfl), List.filter_append]
      rfl

/-! ## Occurrences alike -/

/-- Two occurrences that answer every question about a count alike. -/
structure Alike (a b : Occurrence) : Prop where
  isValid : ∀ count, a.isValid count = b.isValid count
  acceptsMore : ∀ count, a.acceptsMore count = b.acceptsMore count
  mostMore : ∀ count, a.mostMore count = b.mostMore count
  leastMore : ∀ count, a.leastMore count = b.leastMore count

/-- A count is valid for one of two lists of choices if it is so for their union. -/
theorem anyValid_append (xs ys : List Occurrence) (count : Nat) :
    anyValid (xs ++ ys) count = (anyValid xs count || anyValid ys count) := by
  induction xs with
  | nil => simp [anyValid]
  | cons choice rest ih => rw [List.cons_append, anyValid, anyValid, ih, Bool.or_assoc]

/-- A count may grow under one of two lists of choices if it may under their union. -/
theorem anyAcceptsMore_append (xs ys : List Occurrence) (count : Nat) :
    anyAcceptsMore (xs ++ ys) count = (anyAcceptsMore xs count || anyAcceptsMore ys count) := by
  induction xs with
  | nil => simp [anyAcceptsMore]
  | cons choice rest ih => rw [List.cons_append, anyAcceptsMore, anyAcceptsMore, ih, Bool.or_assoc]

/-- The most that a count may grow under two lists of choices is the greater of what each leaves. -/
theorem greatestMostMore_append (xs ys : List Occurrence) (count : Nat) :
    greatestMostMore (xs ++ ys) count = max (greatestMostMore xs count) (greatestMostMore ys count) := by
  induction xs with
  | nil => simp [greatestMostMore]
  | cons choice rest ih => rw [List.cons_append, greatestMostMore, greatestMostMore, ih, Nat.max_assoc]

/-- The least of two lists of choices is found in one list after the other. -/
theorem smallestLeastMore_append (smallest : Nat) (xs ys : List Occurrence) (count : Nat) :
    smallestLeastMore smallest (xs ++ ys) count = smallestLeastMore (smallestLeastMore smallest xs count) ys count := by
  induction xs generalizing smallest with
  | nil => rfl
  | cons choice rest ih => rw [List.cons_append, smallestLeastMore, smallestLeastMore, ih]

/-- The bound that the search for the least starts from is part of the minimum. -/
theorem smallestLeastMore_min (a b : Nat) (choices : List Occurrence) (count : Nat) :
    smallestLeastMore (min a b) choices count = min a (smallestLeastMore b choices count) := by
  induction choices generalizing b with
  | nil => rfl
  | cons choice rest ih => rw [smallestLeastMore, smallestLeastMore, Nat.min_assoc, ih]

/-- The least that a count needs under two lists of choices is the smaller of what each needs. -/
theorem leastMore_append {xs ys : List Occurrence} (hx : xs ≠ []) (hy : ys ≠ []) (count : Nat) :
    (oneOf (xs ++ ys)).leastMore count = min ((oneOf xs).leastMore count) ((oneOf ys).leastMore count) := by
  obtain ⟨x, xs, rfl⟩ := List.exists_cons_of_ne_nil hx
  obtain ⟨y, ys, rfl⟩ := List.exists_cons_of_ne_nil hy
  rw [List.cons_append, leastMore, leastMore, leastMore, smallestLeastMore_append, smallestLeastMore, smallestLeastMore_min]

namespace Alike

variable {a b c : Occurrence}

theorem refl (a : Occurrence) : a.Alike a :=
  ⟨fun _ => rfl, fun _ => rfl, fun _ => rfl, fun _ => rfl⟩

theorem symm (h : a.Alike b) : b.Alike a :=
  ⟨fun count => (h.isValid count).symm, fun count => (h.acceptsMore count).symm, fun count => (h.mostMore count).symm,
    fun count => (h.leastMore count).symm⟩

theorem trans (h : a.Alike b) (k : b.Alike c) : a.Alike c :=
  ⟨fun count => (h.isValid count).trans (k.isValid count), fun count => (h.acceptsMore count).trans (k.acceptsMore count),
    fun count => (h.mostMore count).trans (k.mostMore count), fun count => (h.leastMore count).trans (k.leastMore count)⟩

/-- A choice of one is that one. -/
theorem single (o : Occurrence) : (oneOf [o]).Alike o where
  isValid count := by simp [Occurrence.isValid, anyValid]
  acceptsMore count := by simp [Occurrence.acceptsMore, anyAcceptsMore]
  mostMore count := by simp [Occurrence.mostMore, greatestMostMore]
  leastMore count := by simp [Occurrence.leastMore, smallestLeastMore]

/-- Choices side by side are alike where their parts are. -/
theorem append {xs xs' ys ys' : List Occurrence} (hx : (oneOf xs).Alike (oneOf xs')) (hy : (oneOf ys).Alike (oneOf ys'))
    (nx : xs ≠ []) (nx' : xs' ≠ []) (ny : ys ≠ []) (ny' : ys' ≠ []) : (oneOf (xs ++ ys)).Alike (oneOf (xs' ++ ys')) where
  isValid count := by
    have h := hx.isValid count
    have k := hy.isValid count
    simp only [Occurrence.isValid] at h k ⊢
    rw [anyValid_append, anyValid_append, h, k]
  acceptsMore count := by
    have h := hx.acceptsMore count
    have k := hy.acceptsMore count
    simp only [Occurrence.acceptsMore] at h k ⊢
    rw [anyAcceptsMore_append, anyAcceptsMore_append, h, k]
  mostMore count := by
    have h := hx.mostMore count
    have k := hy.mostMore count
    simp only [Occurrence.mostMore] at h k ⊢
    rw [greatestMostMore_append, greatestMostMore_append, h, k]
  leastMore count := by
    rw [leastMore_append nx ny, leastMore_append nx' ny', hx.leastMore, hy.leastMore]

/-- An occurrence answers as the one that its text form stands for. -/
theorem canonical (o : Occurrence) : o.canonical.Alike o := by
  rw [Occurrence.canonical.eq_def]
  split
  · constructor <;> intro count <;>
      simp [Occurrence.isValid, Occurrence.acceptsMore, Occurrence.mostMore, Occurrence.leastMore]
  · exact refl _

/-- Choices taken together, a single one as itself, are alike the choice of them. -/
theorem together (choices : List Occurrence) : (together choices).Alike (oneOf choices) := by
  match choices with
  | [] | _ :: _ :: _ => exact refl _
  | [o] => exact (single o).symm

end Alike

/-! ## Reading what was written -/

mutual

/-- An occurrence whose ranges are in order and whose choices all leave something to choose. -/
def Proper : Occurrence → Prop
  | between least most => least ≤ most
  | oneOf choices => choices ≠ [] ∧ AllProper choices
  | _ => True

/-- Occurrences whose ranges are in order and whose choices all leave something to choose. -/
def AllProper : List Occurrence → Prop
  | [] => True
  | choice :: rest => choice.Proper ∧ AllProper rest

end

/-- Tokens are read as choices that are, taken together, alike an occurrence. -/
def ReadsAs (list : List (List Char)) (o : Occurrence) : Prop :=
  ∃ choices, list.mapM readToken = .ok choices ∧ choices ≠ [] ∧ (oneOf choices).Alike o

namespace ReadsAs

variable {xs ys : List (List Char)} {o : Occurrence}

/-- Tokens are read as anything alike what they are read as. -/
theorem alike {o' : Occurrence} (h : ReadsAs xs o) (ha : o.Alike o') : ReadsAs xs o' := by
  obtain ⟨choices, hchoices, ne, halike⟩ := h
  exact ⟨choices, hchoices, ne, halike.trans ha⟩

/-- Tokens of a choice and of the others are read as all of them. -/
theorem cons {rest : List Occurrence} (hx : ReadsAs xs o) (hy : ReadsAs ys (oneOf rest)) (ne : rest ≠ []) :
    ReadsAs (xs ++ ys) (oneOf (o :: rest)) := by
  obtain ⟨first, hfirst, nfirst, afirst⟩ := hx
  obtain ⟨others, hothers, nothers, aothers⟩ := hy
  refine ⟨first ++ others, ?_, List.append_ne_nil_of_left_ne_nil nfirst _, ?_⟩
  · rw [List.mapM_append, hfirst, hothers]
    rfl
  · exact (afirst.trans (Alike.single o).symm).append aothers nfirst (List.cons_ne_nil _ _) nothers ne

/-- A text of such tokens is read as what is alike the occurrence. -/
theorem read {text : String} (h : ReadsAs (tokens text) o) : ∃ o', read text = .ok o' ∧ o'.Alike o := by
  obtain ⟨choices, hchoices, ne, halike⟩ := h
  refine ⟨_, read_eq_ok_iff.2 ⟨?_, choices, hchoices, rfl⟩, (Alike.together choices).trans halike⟩
  intro heq
  rw [heq] at hchoices
  cases hchoices
  exact ne rfl

end ReadsAs

/-- The text form of a token is read as something alike it. -/
theorem Token.readsAs {o : Occurrence} (h : o.Token) : ReadsAs (tokens o.text) o := by
  refine ⟨[o.canonical], ?_, List.cons_ne_nil _ _, (Alike.single _).trans (.canonical o)⟩
  rw [tokens_of_readToken h.readToken_text, List.mapM_cons, h.readToken_text]
  rfl

mutual

/-- The text form of a proper occurrence is read as something alike it. -/
theorem Proper.readsAs {o : Occurrence} (hp : o.Proper) (hs : o.Sized) : ReadsAs (tokens o.text) o := by
  cases o with
  | exactly n => exact (Token.exactly hs).readsAs
  | atLeast least => exact (Token.atLeast hs).readsAs
  | atMost most => exact (Token.atMost hs).readsAs
  | between least most => exact (Token.between hp hs.2).readsAs
  | any => exact Token.any.readsAs
  | oneOf choices =>
    rw [text, texts_eq_map, tokens_intercalate, List.flatMap_map]
    exact AllProper.readsAs hp.1 hp.2 hs

/-- The text forms of proper choices, one after the other, are read as something alike the choice of them. -/
theorem AllProper.readsAs {choices : List Occurrence} (ne : choices ≠ []) (hp : AllProper choices) (hs : AllSized choices) :
    ReadsAs (choices.flatMap fun o => tokens o.text) (oneOf choices) := by
  cases choices with
  | nil => exact absurd rfl ne
  | cons choice rest =>
    have hchoice := Proper.readsAs hp.1 hs.1
    rw [List.flatMap_cons]
    cases rest with
    | nil =>
      rw [List.flatMap_nil, List.append_nil]
      exact hchoice.alike (Alike.single choice).symm
    | cons other others =>
      exact hchoice.cons (AllProper.readsAs (List.cons_ne_nil _ _) hp.2 hs.2) (List.cons_ne_nil _ _)

end

/-- What was read from tokens is read from their text forms again. -/
theorem mapM_readToken_text {list : List (List Char)} {choices : List Occurrence} (h : list.mapM readToken = .ok choices) :
    (choices.flatMap fun o => tokens o.text).mapM readToken = .ok choices := by
  induction list generalizing choices with
  | nil =>
    cases h
    rfl
  | cons token rest ih =>
    rw [List.mapM_cons] at h
    obtain ⟨o, ho, h⟩ := Except.bind_eq_ok.1 h
    obtain ⟨os, hos, h⟩ := Except.bind_eq_ok.1 h
    cases h
    have htext : readToken o.text.toList = .ok o := by
      rw [(token_of_readToken ho).readToken_text, canonical_of_readToken ho]
    rw [List.flatMap_cons, tokens_of_readToken htext, List.mapM_append, ih hos, List.mapM_cons, htext]
    rfl

/-- Choices taken together have the tokens of each of them. -/
theorem tokens_text_together (choices : List Occurrence) :
    tokens (together choices).text = choices.flatMap fun o => tokens o.text := by
  match choices with
  | [o] => simp [together]
  | [] | _ :: _ :: _ => rw [together, text, texts_eq_map, tokens_intercalate, List.flatMap_map]; simp

/-- **Round trips.**
1. Where the numbers of an occurrence are sizes, its ranges are in order and its choices leave something to choose, its text form is
   read, and what is read answers every question about a count as the occurrence does.
2. What was read from some text is read from its own text form again. -/
theorem read_text :
    (∀ o : Occurrence, o.Sized → o.Proper → ∃ o', read o.text = .ok o' ∧ o'.Alike o) ∧
    ∀ text o, read text = .ok o → read o.text = .ok o := by
  refine ⟨fun o hs hp => (hp.readsAs hs).read, ?_⟩
  intro text o h
  obtain ⟨hne, choices, hchoices, rfl⟩ := read_eq_ok_iff.1 h
  have hagain := mapM_readToken_text hchoices
  rw [← tokens_text_together] at hagain
  refine read_eq_ok_iff.2 ⟨?_, choices, hagain, rfl⟩
  intro heq
  rw [heq] at hagain
  cases hagain
  exact hne (List.eq_nil_of_length_eq_zero (tokens_of_mapM hchoices).1.symm)

/-- A choice within a choice is written as `0+|2-3`; what is read from that is written as `*|2-3`, and read as it was. -/
theorem read_text_nested :
    (∃ o', read (oneOf [oneOf [atLeast 0], between 2 3]).text = .ok o' ∧
      o'.Alike (oneOf [oneOf [atLeast 0], between 2 3])) ∧
    read (oneOf [any, between 2 3]).text = .ok (oneOf [any, between 2 3]) := by
  obtain ⟨hread, hagain⟩ := read_text
  have hproper : (oneOf [oneOf [atLeast 0], between 2 3]).Proper := by simp [Proper, AllProper]
  have hsized : (oneOf [oneOf [atLeast 0], between 2 3]).Sized := by simp [Sized, AllSized, largestSize]
  exact ⟨hread _ hsized hproper, hagain "* 02-3" _ (by rfl)⟩

end Occurrence

end Graft
