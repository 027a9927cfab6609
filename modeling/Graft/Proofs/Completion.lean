import Graft.Occurrence.Reader
import Graft.Proofs.Counting
import Graft.Proofs.Letters
import Graft.Proofs.Loops
import Graft.Proofs.Visible
import Mathlib.Order.Bounds.Basic

/-!
# Completion

A child that reads nothing is counted as often as its occurrence still requires, so that the count satisfies the occurrence. For
what a text stands for, that is the least number which brings the count to one that satisfies it, with one exception: where the
count does not satisfy the occurrence, but has gone past a count that did. Then nothing seems to be required any more, although
more children might satisfy it again. Only a choice has such gaps.
-/

namespace Graft

open Engine

namespace Occurrence

/-! ## What texts stand for -/

/-- What one token stands for: its numbers are sizes, and a range holds some number. -/
inductive Token : Occurrence → Prop where
  | exactly {n : Nat} (size : n ≤ largestSize) : Token (exactly n)
  | atLeast {least : Nat} (size : least ≤ largestSize) : Token (atLeast least)
  | atMost {most : Nat} (size : most ≤ largestSize) : Token (atMost most)
  | between {least most : Nat} (ordered : least ≤ most) (size : most ≤ largestSize) : Token (between least most)
  | any : Token any

/-- What a text stands for: one token, or a choice of several. -/
inductive Written : Occurrence → Prop where
  | one {o : Occurrence} (token : o.Token) : Written o
  | choice {choices : List Occurrence} (ne : choices ≠ []) (tokens : ∀ o ∈ choices, o.Token) : Written (oneOf choices)

theorem size_of_readCount {token digits : List Char} {n : Nat} (h : readCount token digits = .ok n) : n ≤ largestSize := by
  rw [readCount] at h
  split at h
  · cases h
  · split at h
    · cases h
    · rename_i hsize
      cases h
      exact Nat.not_lt.1 hsize

theorem token_of_readRange {token least most : List Char} {o : Occurrence} (h : readRange token least most = .ok o) :
    o.Token := by
  obtain ⟨_, _, h⟩ := Except.bind_eq_ok.1 h
  obtain ⟨_, hmost, h⟩ := Except.bind_eq_ok.1 h
  split at h
  · cases h
  · rename_i hordered
    cases h
    exact .between (Nat.not_lt.1 hordered) (size_of_readCount hmost)

theorem token_of_readToken {token : List Char} {o : Occurrence} (h : readToken token = .ok o) : o.Token := by
  rw [readToken] at h
  split at h
  · cases h
    exact .atMost (by decide)
  split at h
  · cases h
    exact .any
  split at h
  · cases h
    exact .atLeast (by decide)
  split at h
  · obtain ⟨least, hleast, h⟩ := Except.bind_eq_ok.1 h
    cases h
    split
    · exact .any
    · exact .atLeast (size_of_readCount hleast)
  split at h
  · obtain ⟨most, hmost, h⟩ := Except.bind_eq_ok.1 h
    cases h
    exact .atMost (size_of_readCount hmost)
  split at h
  · exact token_of_readRange h
  · obtain ⟨count, hcount, h⟩ := Except.bind_eq_ok.1 h
    cases h
    exact .exactly (size_of_readCount hcount)

theorem tokens_of_mapM {tokens : List (List Char)} {choices : List Occurrence} (h : tokens.mapM readToken = .ok choices) :
    choices.length = tokens.length ∧ ∀ o ∈ choices, o.Token := by
  induction tokens generalizing choices with
  | nil =>
    cases h
    simp
  | cons token rest ih =>
    rw [List.mapM_cons] at h
    obtain ⟨o, ho, h⟩ := Except.bind_eq_ok.1 h
    obtain ⟨os, hos, h⟩ := Except.bind_eq_ok.1 h
    cases h
    obtain ⟨hlength, htokens⟩ := ih hos
    exact ⟨congrArg (· + 1) hlength, List.forall_mem_cons.2 ⟨token_of_readToken ho, htokens⟩⟩

theorem token_of_read {text : String} {token : List Char} (ht : tokens text = [token]) {o : Occurrence}
    (h : read text = .ok o) : o.Token := by
  rw [read, ht] at h
  exact token_of_readToken h

theorem written_of_read {text : String} {o : Occurrence} (h : read text = .ok o) : o.Written := by
  rw [read] at h
  split at h
  · cases h
  · exact .one (token_of_readToken h)
  · rename_i hne _
    obtain ⟨choices, hchoices, h⟩ := Except.bind_eq_ok.1 h
    cases h
    obtain ⟨hlength, htokens⟩ := tokens_of_mapM hchoices
    refine .choice ?_ htokens
    rintro rfl
    exact hne (List.eq_nil_of_length_eq_zero hlength.symm)

theorem Token.sized {o : Occurrence} (h : o.Token) : o.Sized := by
  cases h with
  | exactly size | atLeast size | atMost size => exact size
  | between ordered size => exact ⟨Nat.le_trans ordered size, size⟩
  | any => trivial

theorem Written.sized {o : Occurrence} (h : o.Written) : o.Sized := by
  cases h with
  | one token => exact token.sized
  | @choice choices ne tokens =>
    rw [Sized]
    clear ne
    induction choices with
    | nil => trivial
    | cons choice rest ih =>
      rw [List.forall_mem_cons] at tokens
      exact ⟨tokens.1.sized, ih tokens.2⟩

/-! ## The least count that satisfies an occurrence -/

mutual

/-- No count below what is required at first satisfies an occurrence. -/
theorem leastMore_le_of_isValid {o : Occurrence} {count : Nat} (h : o.isValid count = true) : o.leastMore 0 ≤ count := by
  cases o with
  | exactly n =>
    simp only [isValid, beq_iff_eq] at h
    simp [leastMore, h]
  | atLeast least => simpa [isValid, leastMore] using h
  | atMost most => simp [leastMore]
  | between least most =>
    simp only [isValid, Bool.and_eq_true, decide_eq_true_eq] at h
    simpa [leastMore] using h.1
  | any => simp [leastMore]
  | oneOf choices =>
    cases choices with
    | nil => simp [leastMore]
    | cons choice rest =>
      rw [isValid, anyValid, Bool.or_eq_true] at h
      rw [leastMore]
      rcases h with h | h
      · exact Nat.le_trans (smallestLeastMore_le _ _ _) (leastMore_le_of_isValid h)
      · exact smallestLeastMore_le_of_anyValid _ h

theorem smallestLeastMore_le_of_anyValid {choices : List Occurrence} {count : Nat} (smallest : Nat)
    (h : anyValid choices count = true) : smallestLeastMore smallest choices 0 ≤ count := by
  cases choices with
  | nil =>
    rw [anyValid] at h
    cases h
  | cons choice rest =>
    rw [anyValid, Bool.or_eq_true] at h
    rw [smallestLeastMore]
    rcases h with h | h
    · exact Nat.le_trans (smallestLeastMore_le _ _ _) (Nat.le_trans (Nat.min_le_right _ _) (leastMore_le_of_isValid h))
    · exact smallestLeastMore_le_of_anyValid _ h

end

theorem Token.isValid_leastMore {o : Occurrence} (h : o.Token) : o.isValid (o.leastMore 0) = true := by
  cases h with
  | exactly | atLeast | atMost | any => simp [isValid, leastMore]
  | between ordered => simp [isValid, leastMore, ordered]

/-- The smallest of a number and what each of several tokens requires is that number, or satisfies one of them. -/
theorem eq_or_anyValid_smallestLeastMore {choices : List Occurrence} (h : ∀ o ∈ choices, o.Token) (smallest : Nat) :
    smallestLeastMore smallest choices 0 = smallest ∨
      anyValid choices (smallestLeastMore smallest choices 0) = true := by
  induction choices generalizing smallest with
  | nil => exact Or.inl rfl
  | cons choice rest ih =>
    rw [List.forall_mem_cons] at h
    rw [smallestLeastMore, anyValid, Bool.or_eq_true]
    rcases ih h.2 (min smallest (choice.leastMore 0)) with hmin | hrest
    · rw [hmin]
      rcases Nat.le_total smallest (choice.leastMore 0) with hle | hle
      · exact Or.inl (Nat.min_eq_left hle)
      · rw [Nat.min_eq_right hle]
        exact Or.inr (Or.inl h.1.isValid_leastMore)
    · exact Or.inr (Or.inr hrest)

/-- What is required at first satisfies an occurrence that a text stands for. -/
theorem Written.isValid_leastMore {o : Occurrence} (h : o.Written) : o.isValid (o.leastMore 0) = true := by
  cases h with
  | one token => exact token.isValid_leastMore
  | @choice choices ne tokens =>
    cases choices with
    | nil => exact absurd rfl ne
    | cons choice rest =>
      rw [List.forall_mem_cons] at tokens
      rw [isValid, anyValid, leastMore, Bool.or_eq_true]
      rcases eq_or_anyValid_smallestLeastMore tokens.2 (choice.leastMore 0) with hfirst | hrest
      · rw [hfirst]
        exact Or.inl tokens.1.isValid_leastMore
      · exact Or.inr hrest

/-! ## Gaps -/

/-- A count that does not satisfy an occurrence, but has gone past one that does. -/
def Overshot (o : Occurrence) (count : Nat) : Prop :=
  o.isValid count = false ∧ ∃ passed, passed < count ∧ o.isValid passed = true

/-- What is still required brings the count to one that satisfies the occurrence, unless one was passed. -/
theorem Written.isValid_add_leastMore {o : Occurrence} (h : o.Written) (count : Nat) :
    o.isValid (count + o.leastMore count) = true ↔ ¬ o.Overshot count := by
  have hfirst := h.isValid_leastMore
  rw [leastMore_eq_sub]
  rcases Nat.lt_or_ge (o.leastMore 0) count with hlt | hle
  · rw [Nat.sub_eq_zero_of_le (Nat.le_of_lt hlt), Nat.add_zero]
    constructor
    · intro hvalid hovershot
      rw [hovershot.1] at hvalid
      cases hvalid
    · intro hnot
      by_contra hinvalid
      exact hnot ⟨Bool.eq_false_iff.2 hinvalid, _, hlt, hfirst⟩
  · rw [Nat.add_sub_cancel' hle]
    refine iff_of_true hfirst ?_
    rintro ⟨_, passed, hpassed, hvalid⟩
    have := leastMore_le_of_isValid hvalid
    omega

/-- What is still required is the least that brings the count to one that satisfies the occurrence, unless one was passed. -/
theorem Written.isLeast_leastMore {o : Occurrence} (h : o.Written) (count : Nat) :
    IsLeast {more | o.isValid (count + more) = true} (o.leastMore count) ↔ ¬ o.Overshot count := by
  rw [← h.isValid_add_leastMore]
  refine ⟨fun hleast => hleast.1, fun hvalid => ⟨hvalid, ?_⟩⟩
  intro more hmore
  have := leastMore_le_of_isValid hmore
  rw [leastMore_eq_sub]
  omega

/-- One token has no gaps: a count from which one that satisfies it can be reached has not gone past one. -/
theorem Token.not_overshot {o : Occurrence} (h : o.Token) {count more : Nat} (hmore : o.isValid (count + more) = true) :
    ¬ o.Overshot count := by
  rintro ⟨hinvalid, passed, hlt, hpassed⟩
  cases h with
  | exactly | atLeast | atMost | between => simp [isValid] at hinvalid hmore hpassed; omega
  | any => cases hinvalid

end Occurrence

/-! ## Counting all that are missing -/

theorem Counter.isValid_addMissing {c : Counter} (h : c.occurrence.Written) (hc : c.count ≤ largestSize) :
    c.addMissing.isValid = true ↔ ¬ c.occurrence.Overshot c.count := by
  rw [isValid, count_addMissing h.sized hc]
  exact h.isValid_add_leastMore c.count

section

variable [Pattern.Compiler]

namespace Engine

variable {p q : Progress} {a : Attempt} {statement : Statement}

/-- A child that reads nothing completes its edge, unless the count has gone past one that satisfies the occurrence. -/
theorem Progress.isValid_accept_empty (h : p.lane.counter.occurrence.Written) (hc : p.lane.counter.count ≤ largestSize)
    (hs : a.statement = some statement) (he : statement.region.isEmpty = true) :
    (p.accept a).2.lane.counter.isValid = true ↔ ¬ p.lane.counter.occurrence.Overshot p.lane.counter.count := by
  rw [accept_empty hs he]
  exact Counter.isValid_addMissing h hc

/-- Attempts of an edge from scratch, the last of which reads nothing, complete the edge, unless those before it have gone past a
count that satisfies the occurrence. -/
theorem FreshLoop.isValid_of_empty {A : Attempts} {s t : State} {made : List (Except Fault Attempt)}
    (hloop : FreshLoop A p s made (.ok (q, t))) (h : p.lane.counter.occurrence.Written)
    (hc : p.lane.counter.count ≤ largestSize) (hlast : made.getLast? = some (.ok a)) (hs : a.statement = some statement)
    (he : statement.region.isEmpty = true) :
    q.lane.counter.isValid = true ↔ ¬ p.lane.counter.occurrence.Overshot (p.lane.counter.count + (made.length - 1)) := by
  generalize hr : (Except.ok (q, t) : Except Fault (Progress × State)) = r at hloop
  induction hloop with
  | full => cases hlast
  | fault => cases hr
  | last more run spent =>
    cases hr
    cases hlast
    exact Progress.isValid_accept_empty h hc hs he
  | @turn p s u b made r more run consumed rest ih =>
    obtain ⟨child, hchild, hfull⟩ := Progress.statement_of_consumed consumed
    have hcount : (p.accept b).2.lane.counter.count = p.lane.counter.count + 1 := by
      rw [Progress.accept_consumed hchild hfull]
      exact Counter.count_addOne h.sized more
    have hoccurrence : (p.accept b).2.lane.counter.occurrence = p.lane.counter.occurrence := by
      rw [Progress.accept_consumed hchild hfull]
      rfl
    cases hmade : made with
    | nil =>
      -- the last attempt reads nothing, and this one reads something
      rw [hmade] at hlast
      cases hlast
      cases hchild.symm.trans hs
      rw [he] at hfull
      cases hfull
    | cons first others =>
      rw [hmade, List.getLast?_cons_cons, ← hmade] at hlast
      have hrest := ih (by rw [hoccurrence]; exact h)
        (by rw [hcount]; exact h.sized.lt_of_acceptsMore more) hlast hr
      rw [hoccurrence, hcount, hmade] at hrest
      simp only [List.length_cons, Nat.add_sub_cancel] at hrest ⊢
      rw [hrest, Nat.add_assoc, Nat.add_comm 1]

end Engine

/-- **Completion.** For what a text stands for:
1. What is still required is the least number that brings a count to one that satisfies the occurrence, unless the count does not
   satisfy it and has gone past one that does.
2. A child that reads nothing completes its edge, whatever was gathered before it, with the same exception.
3. So do attempts of an edge from scratch, the last of which reads nothing: each of those before it counts one child.
4. A text of one token has no such exceptions: no count that can still be brought to one that satisfies it has gone past one. -/
theorem completed_iff {text : String} {o : Occurrence} (h : Occurrence.read text = .ok o) :
    (∀ count, IsLeast {more | o.isValid (count + more) = true} (o.leastMore count) ↔ ¬ o.Overshot count) ∧
    (∀ (p : Progress) (a : Attempt) (s : Statement), p.lane.counter.occurrence = o → p.lane.counter.count ≤ largestSize →
      a.statement = some s → s.region.isEmpty = true →
        ((p.accept a).2.lane.counter.isValid = true ↔ ¬ o.Overshot p.lane.counter.count)) ∧
    (∀ (A : Attempts) (p q : Progress) (s t : State) (made : List (Except Fault Attempt)) (a : Attempt) (child : Statement),
      FreshLoop A p s made (.ok (q, t)) → p.lane.counter = .start o → made.getLast? = some (.ok a) →
        a.statement = some child → child.region.isEmpty = true →
          (q.lane.counter.isValid = true ↔ ¬ o.Overshot (made.length - 1))) ∧
    ∀ token, Occurrence.tokens text = [token] → ∀ count more, o.isValid (count + more) = true → ¬ o.Overshot count := by
  have hwritten := Occurrence.written_of_read h
  refine ⟨hwritten.isLeast_leastMore, ?_, ?_, ?_⟩
  · rintro p a s rfl hc hs he
    exact Progress.isValid_accept_empty hwritten hc hs he
  · intro A p q s t made a child hloop hstart hlast hs he
    have hcompleted := hloop.isValid_of_empty (by rw [hstart]; exact hwritten) (by rw [hstart]; exact Nat.zero_le _) hlast hs he
    rw [hstart] at hcompleted
    simpa [Counter.start] using hcompleted
  · exact fun token ht count more hmore => (Occurrence.token_of_read ht h).not_overshot hmore

end

/-! ## One match or three -/

/-- Once or three times. -/
def Occurrence.oneOrThree : Occurrence := .oneOf [.exactly 1, .exactly 3]

theorem Occurrence.read_oneOrThree : read "1|3" = .ok oneOrThree := by decide

open Pattern.Regex

/-- Where nothing was counted, one is required, and a child that reads nothing is counted once. -/
theorem completed_iff_oneOrThree :
    IsLeast {more | Occurrence.oneOrThree.isValid (0 + more) = true} (Occurrence.oneOrThree.leastMore 0) ∧
      ∃ (p : Progress) (a : Attempt), p.lane.counter = .start .oneOrThree ∧ a.statement = some (.leaf ⟨0⟩ ⟨0, 0⟩ "") ∧
        (p.accept a).2.lane.counter.isValid = true := by
  have hzero : ¬ Occurrence.oneOrThree.Overshot 0 := by
    rintro ⟨_, passed, hlt, _⟩
    cases hlt
  obtain ⟨hleast, haccept, _⟩ := completed_iff Occurrence.read_oneOrThree
  exact ⟨(hleast 0).2 hzero, ⟨.begin 0, ⟨0, ⟨⟨0⟩, .occurrence .oneOrThree, .empty⟩, .empty, .start .oneOrThree⟩, false⟩,
    .success (.leaf ⟨0⟩ ⟨0, 0⟩ "") (.leaf ⟨0⟩ ⟨0, 1⟩), rfl, rfl,
    (haccept _ _ _ rfl (Nat.zero_le _) rfl rfl).2 hzero⟩

/-- A grammar whose root has one match of a pattern or three. -/
def Grammar.oneOrThree [Pattern.Compiler] (p : Pattern) : Grammar where
  rules := #[⟨none, [], .empty, .consume .keep (.pattern p)⟩,
    ⟨none, [], .empty, .container .inOrder [⟨⟨0⟩, .occurrence .oneOrThree, .empty⟩]⟩]
  root := ⟨1⟩

/-- The lane of the pattern that has to match once or three times. -/
abbrev oneOrThreeLane [Pattern.Compiler] (count : Nat) : Lane := ⟨0, ⟨⟨0⟩, .occurrence .oneOrThree, .empty⟩, .empty, ⟨.oneOrThree, count⟩⟩

/-- Both letters are read. -/
theorem oneOrThree_letters : (∀ i, Run.Gives 1 i (i + 1)
      ((attempts (.make (.oneOrThree .maybeA) "aa" .plain {}) 512).fresh ⟨0⟩ 0 .empty)
        (.success (.leaf ⟨i⟩ ⟨0, 1⟩ "a") (.leaf ⟨0⟩ ⟨0, 2⟩))) ∧
    ∀ i, Run.Gives 1 i (i + 1) ((attempts (.make (.oneOrThree .maybeA) "aa" .plain {}) 512).fresh ⟨0⟩ 1 .empty)
      (.success (.leaf ⟨i⟩ ⟨1, 1⟩ "a") (.leaf ⟨0⟩ ⟨1, 2⟩)) := by
  have hbytes : Text.bytes "aa" = [97, 97] := by decide +kernel
  have hboundary : Text.isBoundary "aa" 0 = true ∧ Text.isBoundary "aa" 1 = true := by decide +kernel
  have hcut : Text.slice? "aa" 0 (0 + 1) = some "a" ∧ Text.slice? "aa" 1 (1 + 1) = some "a" := by decide +kernel
  refine ⟨fun i => leaf_hit rfl hboundary.1 ?_ hcut.1, fun i => leaf_hit rfl hboundary.2 ?_ hcut.2⟩
  · rw [hbytes]
    exact Pattern.matchFront_maybeA (by decide)
  · rw [hbytes]
    exact Pattern.matchFront_maybeA (by decide)

/-- Behind both letters nothing is read. -/
theorem oneOrThree_nothing {i : Nat} : Run.Gives 1 i (i + 1)
    ((attempts (.make (.oneOrThree .maybeA) "aa" .plain {}) 512).fresh ⟨0⟩ 2 .empty)
      (.success (.leaf ⟨i⟩ ⟨2, 0⟩ "") (.leaf ⟨0⟩ ⟨2, 1⟩)) := by
  have hbytes : Text.bytes "aa" = [97, 97] := by decide +kernel
  have hboundary : Text.isBoundary "aa" 2 = true := by decide +kernel
  have hcut : Text.slice? "aa" 2 (2 + 0) = some "" := by decide +kernel
  refine leaf_hit rfl hboundary ?_ hcut
  rw [hbytes]
  exact Pattern.matchFront_maybeA_nil

/-- What has been gathered when both letters were read. -/
def twoGathered : Gathering :=
  ⟨0, 2, ⟨0, 3⟩, #[⟨0, .leaf ⟨0⟩ ⟨0, 1⟩ "a", .leaf ⟨0⟩ ⟨0, 2⟩⟩, ⟨0, .leaf ⟨1⟩ ⟨1, 1⟩ "a", .leaf ⟨0⟩ ⟨1, 2⟩⟩]⟩

/-- Both letters are counted, and what reads nothing behind them is not. -/
theorem oneOrThree_readLane : Run.Gives 1 0 3
    (readLane (.make (.oneOrThree .maybeA) "aa" .plain {}) (attempts (.make (.oneOrThree .maybeA) "aa" .plain {}) 512) ⟨1⟩ []
      { gathering := .begin 0, lane := oneOrThreeLane 0 })
    ⟨twoGathered, oneOrThreeLane 2, true⟩ := by
  have hremaining : (Setting.make (.oneOrThree .maybeA) "aa" .plain {}).remaining 0 = 2 := by decide +kernel
  have hlast : Run.Gives 1 2 3
      (readFresh (attempts (.make (.oneOrThree .maybeA) "aa" .plain {}) 512) ⟨1⟩ 1 ⟨twoGathered, oneOrThreeLane 2, true⟩)
      ⟨twoGathered, oneOrThreeLane 2, true⟩ :=
    readFresh_empty (p := ⟨twoGathered, oneOrThreeLane 2, true⟩) rfl oneOrThree_nothing rfl rfl
  refine readLane_fresh ?_
  rw [show (Gathering.begin 0).cursor = 0 from rfl, hremaining]
  exact readFresh_consumed rfl (oneOrThree_letters.1 0) rfl rfl
    (readFresh_consumed rfl (oneOrThree_letters.2 1) rfl rfl hlast)

/-- Two letters that were counted, with nothing behind them, are neither one match nor three. -/
theorem exists_incomplete : ∃ o, Occurrence.read "1|3" = .ok o ∧ o.isValid (2 + 1) = true ∧ o.leastMore 2 = 0 ∧
    (∃ (p : Progress) (s t : State) (a : Attempt) (child : Statement), p.lane.counter = ⟨o, 2⟩ ∧
      p.next (attempts (.make (.oneOrThree .maybeA) "aa" .plain {}) 512) s = .ok (a, t) ∧ a.statement = some child ∧
        child.region.isEmpty = true ∧ (p.accept a).2.lane.counter.isValid = false) ∧
      ∃ fault, (Grammar.oneOrThree .maybeA).parse "aa" .plain ⟨0⟩ = .error fault ∧ fault.kind = .parseFailed := by
  refine ⟨.oneOrThree, Occurrence.read_oneOrThree, rfl, rfl, ?_, ?_⟩
  · obtain ⟨t, ht, _⟩ := oneOrThree_nothing { depth := 1, nextId := ⟨2⟩ } ⟨rfl, rfl, trivial⟩
    exact ⟨{ gathering := twoGathered, lane := oneOrThreeLane 2 }, _, t, _, _, rfl, ht, rfl, rfl, rfl⟩
  · have hsize : Text.size "aa" ≤ Options.plain.limits.maxInputSize := by decide +kernel
    have hread : Run.Gives 1 0 3 (readInOrder (.make (.oneOrThree .maybeA) "aa" .plain {})
        (attempts (.make (.oneOrThree .maybeA) "aa" .plain {}) 512) ⟨1⟩ .empty {}
        [(⟨⟨0⟩, .occurrence .oneOrThree, .empty⟩, 0)] (.begin 0)) (false, twoGathered) :=
      .lift (a := oneOrThreeLane 0) rfl (.bind oneOrThree_readLane (.pure _))
    have hfail : Run.Gives 0 0 3 ((atRoot (.make (.oneOrThree .maybeA) "aa" .plain {})).fresh ⟨1⟩ 0 .empty)
        (twoGathered.fail ⟨1⟩) := by
      refine attempt_gives rfl rfl (Nat.succ_pos 511) ?_
      refine .lift (a := ⟨none, [], .empty, .container .inOrder [⟨⟨0⟩, .occurrence .oneOrThree, .empty⟩]⟩) rfl ?_
      refine .mark fun _ => .bind hread ?_
      exact .rollback (.pure _)
    exact parse_of_gives_short hsize hfail (fun statement hs => by cases hs)

end Graft
