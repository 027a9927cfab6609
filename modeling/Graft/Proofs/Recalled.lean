import Graft.Proofs.Letters

/-!
# A match that is found in the memo

A value begins with two matches that may be left out together, and goes on with the first of them alone. Where the second one is
missing, the first one is attempted twice at one offset, and a call that remembers finds it in the memo.
-/

namespace Graft

open Engine Run

variable [Pattern.Compiler]

/-- A grammar whose root is a value: of one match with another behind it, or without both, and then of the one match. -/
def Grammar.pairAndOne (p q : Pattern) : Grammar where
  rules := #[⟨none, [], .empty, .consume .keep (.pattern p)⟩, ⟨none, [], .empty, .consume .keep (.pattern q)⟩,
    ⟨none, [], .empty, .container .inOrder [⟨⟨1⟩, .occurrence .once, .empty⟩, ⟨⟨0⟩, .occurrence .once, .empty⟩]⟩,
    ⟨some "v", [], .empty,
      .container (.value false) [⟨⟨2⟩, .occurrence .optional, .empty⟩, ⟨⟨1⟩, .occurrence .once, .empty⟩]⟩]
  root := ⟨3⟩

/-- The one match, which is all of the text, and for which the end of the text was looked at. -/
def oneMatch (input : String) (id : Nat) : Attempt :=
  .success (.leaf ⟨id⟩ ⟨0, Text.size input⟩ input) (.leaf ⟨1⟩ ⟨0, Text.size input + 1⟩)

/-- The lane of a rule that has to match once. -/
abbrev onceLane (index : Nat) (rule : RuleId) (count : Nat) : Lane :=
  ⟨index, ⟨rule, .occurrence .once, .empty⟩, .empty, ⟨.once, count⟩⟩

/-- The lane of the two matches that may be left out. -/
abbrev pairLane : Lane := ⟨0, ⟨⟨2⟩, .occurrence .optional, .empty⟩, .empty, ⟨.optional, 0⟩⟩

section

variable (setting : Setting) {A : Attempts} {input : String} {P Q : State → Prop} {known : Knowledge} {depth j m : Nat}

/-- The two matches fail together where the other one is missing behind the one. -/
theorem inOrder_pair (hr : setting.remaining 0 = Text.size input) (hne : Text.size input ≠ 0)
    (hone : Carries P Q (A.fresh ⟨1⟩ 0 .empty) (oneMatch input m))
    (hother : Carries Q (Stands known depth j) (A.fresh ⟨0⟩ (Text.size input) .empty) (.failure ⟨0⟩ ⟨Text.size input, 1⟩)) :
    Carries P (Stands known depth j)
      (inOrder setting A ⟨2⟩ [⟨⟨1⟩, .occurrence .once, .empty⟩, ⟨⟨0⟩, .occurrence .once, .empty⟩] {} 0 .empty)
      (.failure ⟨2⟩ ⟨0, Text.size input + 1⟩) := by
  let g := ((Gathering.begin 0).look ⟨0, Text.size input + 1⟩).push
    ⟨0, .leaf ⟨m⟩ ⟨0, Text.size input⟩ input, .leaf ⟨1⟩ ⟨0, Text.size input + 1⟩⟩
  have hfirst : Carries P Q (readLane setting A ⟨2⟩ [] { gathering := .begin 0, lane := onceLane 0 ⟨1⟩ 0 })
      ⟨g, onceLane 0 ⟨1⟩ 1, true⟩ :=
    readLane_once (a := oneMatch input m) (hr.trans (Nat.succ_pred_eq_of_ne_zero hne).symm) hone rfl (beq_false_of_ne hne)
  have hcursor : g.cursor = Text.size input := Nat.zero_add _
  have hlast : Carries Q (Stands known depth j) (readLane setting A ⟨2⟩ [] { gathering := g, lane := onceLane 1 ⟨0⟩ 0 })
      ⟨g.look ⟨Text.size input, 1⟩, onceLane 1 ⟨0⟩ 0, false⟩ :=
    readLane_failed (a := .failure ⟨0⟩ ⟨Text.size input, 1⟩) rfl (by rw [hcursor]; exact hother) rfl
  have hread : Carries P (Stands known depth j)
      (readInOrder setting A ⟨2⟩ .empty {} [(⟨⟨1⟩, .occurrence .once, .empty⟩, 0), (⟨⟨0⟩, .occurrence .once, .empty⟩, 1)]
        (.begin 0)) (false, g.look ⟨Text.size input, 1⟩) :=
    .lift (a := onceLane 0 ⟨1⟩ 0) rfl (.bind hfirst (.lift (a := onceLane 1 ⟨0⟩ 0) rfl (.bind hlast (.pure _))))
  have hfail : (g.look ⟨Text.size input, 1⟩).fail ⟨2⟩ = .failure ⟨2⟩ ⟨0, Text.size input + 1⟩ := by
    simp [g, Gathering.fail, Gathering.begin, Gathering.look, Gathering.push, Region.expandTo, Region.stop]
  rw [← hfail]
  exact .mark fun _ => .bind hread (.rollback (.pure _))

/-- The body of the value is the one match where the two fail together. -/
theorem inOrder_one (hr : setting.remaining 0 = Text.size input) (hne : Text.size input ≠ 0)
    (hpair : Carries P Q (A.fresh ⟨2⟩ 0 .empty) (.failure ⟨2⟩ ⟨0, Text.size input + 1⟩))
    (hone : Carries Q (Stands known depth j) (A.fresh ⟨1⟩ 0 .empty) (oneMatch input m)) :
    Carries P (Stands known depth (j + 1))
      (inOrder setting A ⟨3⟩ [⟨⟨2⟩, .occurrence .optional, .empty⟩, ⟨⟨1⟩, .occurrence .once, .empty⟩] {} 0 .empty)
      (.success ((onlyOneGathered ⟨m⟩ input).statement ⟨j⟩) ((onlyOneGathered ⟨m⟩ input).derivation ⟨3⟩ none)) := by
  have hfirst : Carries P Q (readLane setting A ⟨3⟩ [] { gathering := .begin 0, lane := pairLane })
      ⟨(Gathering.begin 0).look ⟨0, Text.size input + 1⟩, pairLane, false⟩ :=
    readLane_failed (a := .failure ⟨2⟩ ⟨0, Text.size input + 1⟩) rfl hpair rfl
  have hlast : Carries Q (Stands known depth j)
      (readLane setting A ⟨3⟩ [] { gathering := (Gathering.begin 0).look ⟨0, Text.size input + 1⟩, lane := onceLane 1 ⟨1⟩ 0 })
      ⟨onlyOneGathered ⟨m⟩ input, onceLane 1 ⟨1⟩ 1, true⟩ := by
    have hlooked : (((Gathering.begin 0).look ⟨0, Text.size input + 1⟩).look ⟨0, Text.size input + 1⟩).push
        ⟨1, .leaf ⟨m⟩ ⟨0, Text.size input⟩ input, .leaf ⟨1⟩ ⟨0, Text.size input + 1⟩⟩ = onlyOneGathered ⟨m⟩ input := by
      rw [Gathering.look_look, onlyOneGathered_push]
    rw [← hlooked]
    exact readLane_once (a := oneMatch input m) (hr.trans (Nat.succ_pred_eq_of_ne_zero hne).symm) hone rfl (beq_false_of_ne hne)
  have hread : Carries P (Stands known depth j)
      (readInOrder setting A ⟨3⟩ .empty {} [(⟨⟨2⟩, .occurrence .optional, .empty⟩, 0), (⟨⟨1⟩, .occurrence .once, .empty⟩, 1)]
        (.begin 0)) (true, onlyOneGathered ⟨m⟩ input) :=
    .lift (a := pairLane) rfl (.bind hfirst (.lift (a := onceLane 1 ⟨1⟩ 0) rfl (.bind hlast (.pure _))))
  exact .mark fun _ => .bind hread (.freshId (.pure _))

end

/-! ## One attempt in the memo -/

/-- The options of a call that remembers one attempt, or none. -/
def Options.brief (memoize : Bool) : Options := { memoize, limits := { maxMemoEntries := 1 } }

/-- A call that remembers has not yet remembered anything. -/
def Unlearned (memoize : Bool) : Knowledge :=
  fun memo hits => memoize = true → memo = {} ∧ hits = 0

/-- A call that remembers has the one match in its memo, and has found it there so many times. -/
def Learned (memoize : Bool) (a : Attempt) (times : Nat) : Knowledge :=
  fun memo hits => memoize = true →
    (∃ text, memo = ({} : Std.HashMap MemoKey MemoEntry).insert ⟨⟨1⟩, 0, .empty⟩ ⟨a, text⟩) ∧ hits = times

section

variable {memoize : Bool} {a : Attempt} {times hits : Nat} {memo : Std.HashMap MemoKey MemoEntry} {s : State} {grammar : Grammar}
  {input : String}

/-- Before the pair is learned, nothing is found. -/
theorem Unlearned.missed (h : Unlearned memoize memo hits) (hon : memoize = true) (key : MemoKey) : memo[key]? = none := by
  rw [(h hon).1]
  exact Std.HashMap.getElem?_empty

/-- The first attempt is remembered. -/
theorem Unlearned.learn (h : Unlearned memoize s.memo s.statistics.hits) (a : Attempt) (text : String) :
    Learned memoize a 0
      (s.remembering (.make grammar input (.brief memoize) {}) ⟨⟨1⟩, 0, .empty⟩ ⟨a, text⟩).memo s.statistics.hits := by
  rintro rfl
  obtain ⟨hmemo, hhits⟩ := h rfl
  refine ⟨⟨text, ?_⟩, hhits⟩
  rw [State.remembering, if_pos (by rw [hmemo]; rfl), hmemo]

/-- Other rules than the learned one are not found. -/
theorem Learned.missed (h : Learned memoize a times memo hits) (hon : memoize = true) {key : MemoKey} (hkey : key.rule ≠ ⟨1⟩) :
    memo[key]? = none := by
  obtain ⟨⟨text, rfl⟩, -⟩ := h hon
  have hother : ((⟨⟨1⟩, 0, .empty⟩ : MemoKey) == key) = false :=
    beq_false_of_ne fun heq => hkey (heq ▸ rfl)
  rw [Std.HashMap.getElem?_insert, if_neg (by rw [hother]; exact Bool.false_ne_true), Std.HashMap.getElem?_empty]

/-- The learned rule is found at the beginning. -/
theorem Learned.found (h : Learned memoize a times memo hits) (hon : memoize = true) :
    ∃ text, memo[(⟨⟨1⟩, 0, .empty⟩ : MemoKey)]? = some ⟨a, text⟩ := by
  obtain ⟨⟨text, rfl⟩, -⟩ := h hon
  exact ⟨text, Std.HashMap.getElem?_insert_self⟩

/-- There is no room for another attempt. -/
theorem Learned.keep (h : Learned memoize a times s.memo s.statistics.hits) (key : MemoKey) (entry : MemoEntry) :
    Learned memoize a times (s.remembering (.make grammar input (.brief memoize) {}) key entry).memo s.statistics.hits := by
  intro hon
  obtain ⟨⟨text, hmemo⟩, hhits⟩ := h hon
  refine ⟨⟨text, ?_⟩, hhits⟩
  have hfull : ¬s.memo.size < 1 := by
    rw [hmemo, Std.HashMap.size_insert]
    simp
  rw [State.remembering, if_neg (by simp [Setting.make, Options.brief, hfull]), hmemo]

end

/-! ## Calls -/

section

variable {p q : Pattern} {input : String} {memoize : Bool} {known : Knowledge} {A : Attempts} {depth i : Nat}

section

variable (hq : q.matchFront (Text.bytes input) = ⟨some (Text.size input), Text.size input + 1⟩)
include hq

/-- The rule of the one match reads it. -/
theorem pairAndOne_read :
    Carries (Stands known depth i) (Stands known depth (i + 1))
      (readBody (.make (.pairAndOne p q) input (.brief memoize) {}) A ⟨1⟩ 0 .empty) (oneMatch input i) :=
  .lift (a := ⟨none, [], .empty, .consume .keep (.pattern q)⟩) rfl (consume_whole hq)

/-- The one match is read a first time, and remembered. -/
theorem pairAndOne_first :
    Carries (Stands (Unlearned memoize) 2 i) (Stands (Learned memoize (oneMatch input i) 0) 2 (i + 1))
      ((attempts (.make (.pairAndOne p q) input (.brief memoize) {}) 511).fresh ⟨1⟩ 0 .empty) (oneMatch input i) :=
  attempt_missed rfl (Nat.lt_of_sub_eq_succ rfl) (fun hon _ _ h => h.missed hon _) (pairAndOne_read hq)
    fun text _ h => Unlearned.learn h _ text

/-- The one match is found in the memo, or read again where there is none. -/
theorem pairAndOne_again (p : Pattern) (memoize : Bool) (i : Nat) : ∃ m j,
    Carries (Stands (Learned memoize (oneMatch input i) 0) 1 (i + 1)) (Stands (Learned memoize (oneMatch input i) 1) 1 j)
      ((attempts (.make (.pairAndOne p q) input (.brief memoize) {}) 512).fresh ⟨1⟩ 0 .empty) (oneMatch input m) := by
  cases memoize with
  | true =>
    refine ⟨i, i + 1, attempt_found rfl (Nat.lt_of_sub_eq_succ rfl) rfl (fun _ _ h => h.found rfl) fun memo hits h hon => ?_⟩
    obtain ⟨hmemo, rfl⟩ := h hon
    exact ⟨hmemo, rfl⟩
  | false =>
    exact ⟨i + 1, i + 2, attempt_missed rfl (Nat.lt_of_sub_eq_succ rfl) nofun (pairAndOne_read hq) fun _ _ _ => nofun⟩

end

/-- The two matches fail together where all of the document is the one match. -/
theorem pairAndOne_pair (hq : q.matchFront (Text.bytes input) = ⟨some (Text.size input), Text.size input + 1⟩)
    (hend : p.matchFront [] = ⟨none, 1⟩) (hne : Text.size input ≠ 0) :
    Carries (Stands (Unlearned memoize) 1 i) (Stands (Learned memoize (oneMatch input i) 0) 1 (i + 1))
      ((attempts (.make (.pairAndOne p q) input (.brief memoize) {}) 512).fresh ⟨2⟩ 0 .empty)
      (.failure ⟨2⟩ ⟨0, Text.size input + 1⟩) := by
  have hmiss : Carries (Stands (Learned memoize (oneMatch input i) 0) 3 (i + 1))
      (Stands (Learned memoize (oneMatch input i) 0) 3 (i + 1))
      (readBody (.make (.pairAndOne p q) input (.brief memoize) {})
        (attempts (.make (.pairAndOne p q) input (.brief memoize) {}) 510) ⟨0⟩ (Text.size input) .empty)
      (.failure ⟨0⟩ ⟨Text.size input, 1⟩) :=
    .lift (a := ⟨none, [], .empty, .consume .keep (.pattern p)⟩) rfl (consume_end hend)
  have hother : Carries (Stands (Learned memoize (oneMatch input i) 0) 2 (i + 1))
      (Stands (Learned memoize (oneMatch input i) 0) 2 (i + 1))
      ((attempts (.make (.pairAndOne p q) input (.brief memoize) {}) 511).fresh ⟨0⟩ (Text.size input) .empty)
      (.failure ⟨0⟩ ⟨Text.size input, 1⟩) :=
    attempt_missed rfl (Nat.lt_of_sub_eq_succ rfl) (fun hon _ _ h => h.missed hon (by simp)) hmiss
      fun _ _ h => Learned.keep h _ _
  have hread : Carries (Stands (Unlearned memoize) 2 i) (Stands (Learned memoize (oneMatch input i) 0) 2 (i + 1))
      (readBody (.make (.pairAndOne p q) input (.brief memoize) {})
        (attempts (.make (.pairAndOne p q) input (.brief memoize) {}) 511) ⟨2⟩ 0 .empty)
      (.failure ⟨2⟩ ⟨0, Text.size input + 1⟩) := by
    refine .lift (a := ⟨none, [], .empty, .container .inOrder
      [⟨⟨1⟩, .occurrence .once, .empty⟩, ⟨⟨0⟩, .occurrence .once, .empty⟩]⟩) rfl ?_
    exact inOrder_pair _ rfl hne (pairAndOne_first hq) hother
  exact attempt_missed rfl (Nat.lt_of_sub_eq_succ rfl) (fun hon _ _ h => h.missed hon _) hread fun _ _ h => Learned.keep h _ _

/-- Where the one match is all of a document, it is parsed as the value. A call that remembers finds it in the memo once. -/
theorem parse_pairAndOne (memoize : Bool) (hq : q.matchFront (Text.bytes input) = ⟨some (Text.size input), Text.size input + 1⟩)
    (hend : p.matchFront [] = ⟨none, 1⟩) (hne : Text.size input ≠ 0)
    (hsize : Text.size input ≤ (Options.brief memoize).limits.maxInputSize) (first : Nat) :
    ∃ tree next, (Grammar.pairAndOne p q).parse input (.brief memoize) ⟨first⟩ = .ok (tree, next) ∧
      (memoize = true → tree.statistics.hits = 1) := by
  obtain ⟨m, j, hagain⟩ := pairAndOne_again hq p memoize first
  have hbody := inOrder_one (.make (.pairAndOne p q) input (.brief memoize) {}) rfl hne (pairAndOne_pair hq hend hne) hagain
  let s := (State.entered { nextId := ⟨first⟩ }).unfound (.make (.pairAndOne p q) input (.brief memoize) {})
  have hs : Stands (Unlearned memoize) 1 first s.opened :=
    ⟨State.depth_unfound .., State.nextId_unfound .., fun _ => ⟨State.memo_unfound .., State.hits_unfound ..⟩⟩
  obtain ⟨text, t, ht, hstands⟩ := value_run hbody "v" hs
  obtain ⟨u, hu, _, hhits⟩ : ∃ u, (atRoot (.make (.pairAndOne p q) input (.brief memoize) {})).fresh ⟨3⟩ 0 .empty
      { nextId := ⟨first⟩ } = .ok (.success (.value _ ⟨0, Text.size input⟩ "v" text _) _, u) ∧ u.nextId = t.nextId ∧
      u.statistics.hits = t.statistics.hits :=
    attempt_run rfl (Nat.succ_pos 511) (fun _ => Std.HashMap.getElem?_empty) ht
  refine ⟨_, _, parse_of_run hsize hu (Nat.zero_add _), fun hon => ?_⟩
  rw [hhits]
  exact (hstands.known hon).2

end

end Graft
