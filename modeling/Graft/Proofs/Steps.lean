import Graft.Proofs.Bytes
import Graft.Run

/-!
# Steps of a run

What each step of a run makes of the state before the rest of the run goes on. A run is a function of its state; none of
the steps here looks at more of it than is said.
-/

namespace Graft

variable [Pattern.Compiler]

/-- A state in which the innermost value has collected some more text. -/
def State.adding (text : String) (s : State) : State :=
  { s with collected := Run.withInnermost (Run.innermost s.collected ++ text) s.collected }

namespace State

/-- Adding no text changes nothing. -/
theorem adding_empty (s : State) : s.adding "" = s := by
  obtain ⟨memo, collected, depth, furthest, statistics, nextId⟩ := s
  cases collected <;> simp [adding, Run.withInnermost, Run.innermost]

/-- Texts that are added one after the other are added as one. -/
theorem adding_adding (a b : String) (s : State) : (s.adding a).adding b = s.adding (a ++ b) := by
  obtain ⟨memo, collected, depth, furthest, statistics, nextId⟩ := s
  cases collected <;> simp [adding, Run.withInnermost, Run.innermost, String.append_assoc]

variable {s t u : State} {a b : String}

/-- What is added after something else is added with it. -/
theorem collected_trans (h : t.collected = (s.adding a).collected) (h' : u.collected = (t.adding b).collected) :
    u.collected = (s.adding (a ++ b)).collected := by
  rw [h', ← adding_adding, State.adding, State.adding, h]

/-- The text added since a mark is what was added. -/
theorem beyond_of_collected (h : t.collected = (s.adding a).collected) (hs : s.collected ≠ []) :
    Text.beyond (Run.innermost t.collected) (Text.size (Run.innermost s.collected)) = a := by
  rw [h]
  obtain ⟨memo, collected, depth, furthest, statistics, nextId⟩ := s
  cases collected with
  | nil => exact absurd rfl hs
  | cons top outer => exact Text.beyond_append top a

/-- Taking back the text added since a mark leaves the texts as they were. -/
theorem rollback_of_collected (h : t.collected = (s.adding a).collected) :
    Run.withInnermost (Text.upTo (Run.innermost t.collected) (Text.size (Run.innermost s.collected))) t.collected =
      s.collected := by
  rw [h]
  obtain ⟨memo, collected, depth, furthest, statistics, nextId⟩ := s
  cases collected with
  | nil => rfl
  | cons top outer =>
    simp only [adding, Run.innermost, Run.withInnermost, List.headD_cons]
    rw [Text.upTo_append]

end State

omit [Pattern.Compiler] in
/-- Two steps come to a result when the first does and the second does with it. -/
theorem Except.bind_eq_ok {ε α β : Type} {x : Except ε α} {f : α → Except ε β} {b : β} :
    (x >>= f) = .ok b ↔ ∃ a, x = .ok a ∧ f a = .ok b := by
  cases x with
  | error e => simp [bind, Except.bind]
  | ok a => simp [bind, Except.bind]

namespace Run

variable {α β : Type}

/-- A run of two parts hands on its state. -/
theorem bind_apply (x : Run α) (f : α → Run β) (s : State) : (x >>= f) s = (x s >>= fun r => f r.1 r.2) := rfl

/-- What comes to a result goes on with it. -/
theorem ok_bind (a : α) (f : α → Except Fault β) : (Except.ok a >>= f) = f a := rfl

/-- A fault ends what would go on. -/
theorem error_bind (fault : Fault) (f : α → Except Fault β) : (Except.error fault >>= f) = .error fault := rfl

/-- A result leaves the state as it is. -/
theorem pure_apply (a : α) (s : State) : (pure a : Run α) s = .ok (a, s) := rfl

/-- The state can be read. -/
theorem get_apply (s : State) : (get : Run State) s = .ok (s, s) := rfl

/-- The state can be changed. -/
theorem modify_apply (g : State → State) (s : State) : (modify g : Run PUnit) s = .ok (.unit, g s) := rfl

/-- A step that needs no state goes on in the state it is in. -/
theorem lift_bind (x : Except Fault α) (f : α → Run β) (s : State) :
    ((liftM x : Run α) >>= f) s = (x >>= fun a => f a s) := by
  cases x <;> rfl

/-- A step that needs no state leaves it. -/
theorem lift_eq_ok {e : Except Fault α} {a : α} {s t : State} : (liftM e : Run α) s = .ok (a, t) ↔ e = .ok a ∧ t = s := by
  cases e with
  | error fault => exact ⟨fun h => (by cases h), fun h => (by cases h.1)⟩
  | ok b =>
    constructor
    · intro h
      cases h
      exact ⟨rfl, rfl⟩
    · rintro ⟨h, rfl⟩
      cases h
      rfl

/-- Steps that the grammar alone resolves, taken one after the other, are one such step. -/
theorem mapM_liftM (f : α → Except Fault β) (list : List α) :
    (list.mapM fun a => (liftM (f a) : Run β)) = liftM (list.mapM f) := by
  induction list with
  | nil => rfl
  | cons a list ih =>
    rw [List.mapM_cons, List.mapM_cons, ih]
    funext s
    rw [lift_bind]
    cases f a with
    | error fault => rfl
    | ok b => cases list.mapM f <;> rfl

/-- A run that fails ends in its cause, whatever its state. -/
theorem fail_apply (cause : Fault.Cause) (s : State) : (fail cause : Run α) s = .error (.of cause) := rfl

/-- The next identity is given out, and the one after it is next. -/
theorem freshId_bind (f : NodeId → Run β) (s : State) :
    (freshId >>= f) s = f s.nextId { s with nextId := s.nextId.next } := rfl

/-- Counting changes the statistics only. -/
theorem count_bind (g : Statistics → Statistics) (f : Unit → Run β) (s : State) :
    (count g >>= f) s = f () { s with statistics := g s.statistics } := rfl

/-- Leaving a rule takes the run one level up. -/
theorem leave_bind (f : Unit → Run β) (s : State) : (leave >>= f) s = f () { s with depth := s.depth - 1 } := rfl

/-- A mark is the length of what the innermost value has collected. -/
theorem mark_bind (f : Nat → Run β) (s : State) : (mark >>= f) s = f (Text.size (innermost s.collected)) s := rfl

/-- What was collected since a mark lies beyond it. -/
theorem since_bind (mark : Nat) (f : String → Run β) (s : State) :
    (since mark >>= f) s = f (Text.beyond (innermost s.collected) mark) s := rfl

/-- Text is added to the innermost value. -/
theorem append_apply (text : String) (s : State) : append text s = .ok ((), s.adding text) := rfl

/-- A value begins with no text. -/
theorem openValue_bind (f : Unit → Run β) (s : State) :
    (openValue >>= f) s = f () { s with collected := "" :: s.collected } := rfl

/-- A value ends with the text it has collected, and the value around it goes on. -/
theorem closeValue_bind (f : String → Run β) (s : State) :
    (closeValue >>= f) s = f (innermost s.collected) { s with collected := s.collected.drop 1 } := rfl

/-- Noting how far an attempt reached changes nothing but that. -/
theorem reach_bind (a : Attempt) (f : Unit → Run β) (s : State) :
    ∃ furthest, (reach a >>= f) s = f () { s with furthest } := by
  rw [reach]
  cases a.statement with
  | none => exact ⟨s.furthest, rfl⟩
  | some statement => exact ⟨max s.furthest statement.region.stop, rfl⟩

/-- Entering a rule either goes on one level deeper or ends the run by cancellation or by the limit of depth. -/
theorem enter_bind (setting : Setting) (rule : RuleId) (f : Unit → Run β) (s : State) :
    (enter setting rule >>= f) s =
      if setting.cancelled then .error (.of .cancelled)
      else if setting.limits.maxRuleDepth ≤ s.depth then .error (.of (.depth setting.limits.maxRuleDepth rule))
      else
        f () { s with depth := s.depth + 1, statistics := { s.statistics with entered := s.statistics.entered + 1 } } := by
  rw [enter]
  cases hc : setting.cancelled with
  | true => rfl
  | false =>
    by_cases hd : setting.limits.maxRuleDepth ≤ s.depth
    · simp [hd, bind_apply, get_apply, fail_apply, ok_bind, error_bind]
    · simp [hd, bind_apply, get_apply, modify_apply, count, ok_bind]

/-- Asking the memo either finds an attempt, whose text is added, or counts a miss. -/
theorem lookUp_bind (setting : Setting) (key : MemoKey) (f : Option Attempt → Run β) (s : State) :
    (lookUp setting key >>= f) s =
      if setting.memoize then
        match s.memo[key]? with
        | some entry =>
          f (some entry.attempt)
            (State.adding entry.appended { s with statistics := { s.statistics with hits := s.statistics.hits + 1 } })
        | none => f none { s with statistics := { s.statistics with misses := s.statistics.misses + 1 } }
      else f none s := by
  rw [lookUp]
  cases hm : setting.memoize with
  | false => rfl
  | true =>
    cases he : s.memo[key]? with
    | none => simp [-bind_pure_comp, bind_apply, get_apply, pure_apply, count, modify_apply, he, ok_bind]
    | some entry => simp [-bind_pure_comp, bind_apply, get_apply, pure_apply, count, modify_apply, append_apply, he, ok_bind]

/-- Remembering an attempt changes nothing but the memo, and adds nothing to it but that attempt. -/
theorem remember_bind (setting : Setting) (key : MemoKey) (entry : MemoEntry) (f : Unit → Run β) (s : State) :
    ∃ memo, (remember setting key entry >>= f) s = f () { s with memo } ∧
      (memo = s.memo ∨ setting.memoize = true ∧ memo = s.memo.insert key entry) := by
  by_cases hm : setting.memoize = true ∧ s.memo.size < setting.limits.maxMemoEntries
  · refine ⟨s.memo.insert key entry, ?_, Or.inr ⟨hm.1, rfl⟩⟩
    simp [remember, bind_apply, get_apply, modify_apply, hm.1, hm.2, ok_bind]
  · refine ⟨s.memo, ?_, Or.inl rfl⟩
    simp [remember, bind_apply, get_apply, pure_apply, hm, ok_bind]

/-- A pattern is matched at boundaries only. -/
theorem matchAt_bind (setting : Setting) (pattern : Pattern) (offset : Nat) (f : Pattern.Outcome → Run β) (s : State) :
    (matchAt setting pattern offset >>= f) s =
      if Text.isBoundary setting.input offset then
        f (pattern.matchFront ((Text.bytes setting.input).drop offset)) s
      else .error (.of (.outsideInput offset (Text.size setting.input))) := by
  rw [matchAt, setting.behind_eq]
  split
  · rfl
  · rfl

end Run

end Graft
