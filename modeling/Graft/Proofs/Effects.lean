import Graft.Proofs.Yields

/-!
# States that runs leave

The steps of a run that comes to a result, told backwards: the result of a run of several steps was come to through states between
them. Each state is that of one step before or after another, with what the step makes of it.
-/

namespace Graft

open Engine

variable [Pattern.Compiler]

/-! ## States -/

namespace State

/-- An identity has been given out. -/
def issued (s : State) : State :=
  { s with nextId := s.nextId.next }

/-- The text of a value has begun. -/
def opened (s : State) : State :=
  { s with collected := "" :: s.collected }

/-- The text of the innermost value has ended. -/
def closed (s : State) : State :=
  { s with collected := s.collected.drop 1 }

/-- The text that was collected since another state has been taken back. -/
def restored (before s : State) : State :=
  { s with
    collected := Run.withInnermost (Text.upTo (Run.innermost s.collected) (Text.size (Run.innermost before.collected)))
      s.collected }

/-- The text that was collected since another state. -/
def since (before s : State) : String :=
  Text.beyond (Run.innermost s.collected) (Text.size (Run.innermost before.collected))

/-- A rule has been entered. -/
def entered (s : State) : State :=
  { s with depth := s.depth + 1, statistics := { s.statistics with entered := s.statistics.entered + 1 } }

/-- A rule has been left. -/
def left (s : State) : State :=
  { s with depth := s.depth - 1 }

/-- An attempt was found in the memo. -/
def found (entry : MemoEntry) (s : State) : State :=
  State.adding entry.appended { s with statistics := { s.statistics with hits := s.statistics.hits + 1 } }

/-- An attempt was not found in the memo, if there is one. -/
def unfound (setting : Setting) (s : State) : State :=
  if setting.memoize then { s with statistics := { s.statistics with misses := s.statistics.misses + 1 } } else s

/-- An attempt is remembered, while there is room. -/
def remembering (setting : Setting) (key : MemoKey) (entry : MemoEntry) (s : State) : State :=
  if setting.memoize && s.memo.size < setting.limits.maxMemoEntries then { s with memo := s.memo.insert key entry } else s

/-- It is noted how far an attempt reached. -/
def reaching (a : Attempt) (s : State) : State :=
  match a.statement with
  | some statement => { s with furthest := max s.furthest statement.region.stop }
  | none => s

/-- A node is attempted again. -/
def rederiving (s : State) : State :=
  { s with statistics := { s.statistics with rederived := s.statistics.rederived + 1 } }

/-- A node is kept. -/
def reusing (grammar : Grammar) (node : Earlier) (s : State) : State :=
  let t := (s.adding (node.1.kept grammar node.2)).reaching (.success node.1 node.2)
  { t with statistics := { t.statistics with reused := t.statistics.reused + 1 } }

/-- A piece of text was consumed. -/
def consuming (kind : ConsumeKind) (text : String) (s : State) : State :=
  if kind = .keep then s.adding text else s

/-! Of the fields of a state, each of these steps leaves alone those that it does not name. -/

variable (setting : Setting) (key : MemoKey) (entry : MemoEntry) (a : Attempt) (s : State)

@[simp] theorem memo_entered : s.entered.memo = s.memo := rfl

@[simp] theorem collected_entered : s.entered.collected = s.collected := rfl

@[simp] theorem nextId_entered : s.entered.nextId = s.nextId := rfl

@[simp] theorem memo_left : s.left.memo = s.memo := rfl

@[simp] theorem collected_left : s.left.collected = s.collected := rfl

@[simp] theorem nextId_left : s.left.nextId = s.nextId := rfl

@[simp] theorem memo_rederiving : s.rederiving.memo = s.memo := rfl

@[simp] theorem collected_rederiving : s.rederiving.collected = s.collected := rfl

@[simp] theorem nextId_rederiving : s.rederiving.nextId = s.nextId := rfl

@[simp] theorem memo_unfound : (s.unfound setting).memo = s.memo := by
  rw [unfound]
  split <;> rfl

@[simp] theorem collected_unfound : (s.unfound setting).collected = s.collected := by
  rw [unfound]
  split <;> rfl

@[simp] theorem nextId_unfound : (s.unfound setting).nextId = s.nextId := by
  rw [unfound]
  split <;> rfl

@[simp] theorem depth_unfound : (s.unfound setting).depth = s.depth := by
  rw [unfound]
  split <;> rfl

@[simp] theorem hits_unfound : (s.unfound setting).statistics.hits = s.statistics.hits := by
  rw [unfound]
  split <;> rfl

@[simp] theorem memo_reaching : (s.reaching a).memo = s.memo := by
  rw [reaching]
  split <;> rfl

@[simp] theorem collected_reaching : (s.reaching a).collected = s.collected := by
  rw [reaching]
  split <;> rfl

@[simp] theorem nextId_reaching : (s.reaching a).nextId = s.nextId := by
  rw [reaching]
  split <;> rfl

@[simp] theorem depth_reaching : (s.reaching a).depth = s.depth := by
  rw [reaching]
  split <;> rfl

@[simp] theorem statistics_reaching : (s.reaching a).statistics = s.statistics := by
  rw [reaching]
  split <;> rfl

@[simp] theorem collected_remembering : (s.remembering setting key entry).collected = s.collected := by
  rw [remembering]
  split <;> rfl

@[simp] theorem nextId_remembering : (s.remembering setting key entry).nextId = s.nextId := by
  rw [remembering]
  split <;> rfl

@[simp] theorem depth_remembering : (s.remembering setting key entry).depth = s.depth := by
  rw [remembering]
  split <;> rfl

@[simp] theorem statistics_remembering : (s.remembering setting key entry).statistics = s.statistics := by
  rw [remembering]
  split <;> rfl

@[simp] theorem memo_reusing (grammar : Grammar) (node : Earlier) : (s.reusing grammar node).memo = s.memo :=
  memo_reaching _ _

@[simp] theorem collected_reusing (grammar : Grammar) (node : Earlier) :
    (s.reusing grammar node).collected = (s.adding (node.1.kept grammar node.2)).collected :=
  collected_reaching _ _

@[simp] theorem nextId_reusing (grammar : Grammar) (node : Earlier) : (s.reusing grammar node).nextId = s.nextId :=
  nextId_reaching _ _

@[simp] theorem memo_consuming (kind : ConsumeKind) (text : String) : (s.consuming kind text).memo = s.memo := by
  rw [consuming]
  split <;> rfl

@[simp] theorem nextId_consuming (kind : ConsumeKind) (text : String) : (s.consuming kind text).nextId = s.nextId := by
  rw [consuming]
  split <;> rfl

/-- What is remembered has just been remembered, or was before. -/
theorem getElem?_remembering {setting : Setting} {key other : MemoKey} {entry e : MemoEntry} {s : State}
    (h : (s.remembering setting key entry).memo[other]? = some e) : other = key ∧ e = entry ∨ s.memo[other]? = some e := by
  rw [remembering] at h
  split at h
  · rw [Std.HashMap.getElem?_insert] at h
    split at h
    · rename_i heq
      cases h
      exact Or.inl ⟨(beq_iff_eq.1 heq).symm, rfl⟩
    · exact Or.inr h
  · exact Or.inr h

end State

namespace Run

variable {α β : Type} {s t : State}

/-- A run of two parts that comes to a result goes through a state between them. -/
theorem bind_eq_ok {x : Run α} {f : α → Run β} {r : β × State} :
    (x >>= f) s = .ok r ↔ ∃ a u, x s = .ok (a, u) ∧ f a u = .ok r := by
  rw [bind_apply, Except.bind_eq_ok, Prod.exists]

/-- A run that begins with a step that needs no state goes on from the state it is in. -/
theorem lift_bind_eq_ok {e : Except Fault α} {f : α → Run β} {r : β × State} :
    ((liftM e : Run α) >>= f) s = .ok r ↔ ∃ a, e = .ok a ∧ f a s = .ok r := by
  rw [lift_bind, Except.bind_eq_ok]

/-- Entering a rule that may be entered goes on one level further in. -/
theorem enter_eq_ok {setting : Setting} {rule : RuleId} {f : Unit → Run β} {r : β × State}
    (h : (enter setting rule >>= f) s = .ok r) : f () s.entered = .ok r := by
  rw [enter_bind] at h
  split at h
  · cases h
  · split at h
    · cases h
    · exact h

/-- Reaching as far as an attempt did always goes on. -/
theorem reach_eq (a : Attempt) (f : Unit → Run β) (s : State) : (reach a >>= f) s = f () (s.reaching a) := by
  rw [reach, State.reaching]
  cases a.statement with
  | none => rfl
  | some statement => rfl

/-- Remembering always goes on, whether or not there was room in the memo. -/
theorem remember_eq (setting : Setting) (key : MemoKey) (entry : MemoEntry) (f : Unit → Run β) (s : State) :
    (remember setting key entry >>= f) s = f () (s.remembering setting key entry) := by
  by_cases hm : setting.memoize = true ∧ s.memo.size < setting.limits.maxMemoEntries
  · simp [State.remembering, remember, bind_apply, get_apply, modify_apply, hm.1, hm.2, ok_bind]
  · simp [State.remembering, remember, bind_apply, get_apply, pure_apply, hm, ok_bind]

/-- Where an attempt is not remembered, if there is a memo, it is not found. -/
theorem lookUp_unfound {setting : Setting} {key : MemoKey} (h : setting.memoize = true → s.memo[key]? = none)
    (f : Option Attempt → Run β) : (lookUp setting key >>= f) s = f none (s.unfound setting) := by
  rw [lookUp_bind, State.unfound]
  split
  · rename_i hon
    rw [h hon]
  · rfl

/-- Asking the memo finds an attempt, or none. -/
theorem lookUp_eq_ok {setting : Setting} {key : MemoKey} {f : Option Attempt → Run β} {r : β × State}
    (h : (lookUp setting key >>= f) s = .ok r) :
    (∃ entry, setting.memoize = true ∧ s.memo[key]? = some entry ∧ f (some entry.attempt) (s.found entry) = .ok r) ∨
      (setting.memoize = true → s.memo[key]? = none) ∧ f none (s.unfound setting) = .ok r := by
  by_cases hmiss : setting.memoize = true → s.memo[key]? = none
  · rw [lookUp_unfound hmiss] at h
    exact Or.inr ⟨hmiss, h⟩
  · obtain ⟨hon, hentry⟩ := Classical.not_imp.1 hmiss
    obtain ⟨entry, hentry⟩ := Option.ne_none_iff_exists'.1 hentry
    rw [lookUp_bind, if_pos hon, hentry] at h
    exact Or.inl ⟨entry, hon, hentry, h⟩

/-- A match that is made is made at a boundary, and the run goes on with its outcome in the state it was in. -/
theorem matchAt_eq_ok {setting : Setting} {pattern : Pattern} {offset : Nat} {f : Pattern.Outcome → Run β} {r : β × State}
    (h : (matchAt setting pattern offset >>= f) s = .ok r) :
    Text.isBoundary setting.input offset = true ∧
      f (pattern.matchFront ((Text.bytes setting.input).drop offset)) s = .ok r := by
  rw [matchAt_bind] at h
  split at h
  · rename_i hb
    exact ⟨hb, h⟩
  · cases h

end Run

end Graft
