import Graft.Proofs.Effects

/-!
# How deep rules are nested

The levels of the engine are one more than the rules that may be nested, so the limit of depth is always met before the levels
are used up: whatever would be attempted below the last level makes no difference. This is seen by running two engines side by
side from one state. They do the same as long as they may enter the same rules. A limit that lets more rules be nested may only
matter where the first engine was stopped by a limit.
-/

namespace Graft

open Engine

variable [Pattern.Compiler]

/-! ## Runs that concur -/

/-- What two runs come to that concur: the same, at one depth, unless the first of them ends in a fault that excuses the other. -/
inductive Concurs {α : Type} (excuses : Fault → Prop) (depth : Nat) :
    Except Fault (α × State) → Except Fault (α × State) → Prop where
  | ok {a : α} {s : State} (level : s.depth = depth) : Concurs excuses depth (.ok (a, s)) (.ok (a, s))
  | same (fault : Fault) : Concurs excuses depth (.error fault) (.error fault)
  | excused {fault : Fault} {r : Except Fault (α × State)} (given : excuses fault) : Concurs excuses depth (.error fault) r

/-- Two runs that concur from every state of one depth. -/
def Run.Concurs {α : Type} (excuses : Fault → Prop) (depth : Nat) (x y : Run α) : Prop :=
  ∀ s, s.depth = depth → Graft.Concurs excuses depth (x s) (y s)

/-- Attempts of rules that concur. -/
structure Engine.Attempts.Concur (excuses : Fault → Prop) (depth : Nat) (A B : Attempts) : Prop where
  fresh (rule : RuleId) (offset : Nat) (context : Context) :
    Run.Concurs excuses depth (A.fresh rule offset context) (B.fresh rule offset context)
  again (rule : RuleId) (s : Statement) (d : Derivation) (offset : Nat) (context : Context) :
    Run.Concurs excuses depth (A.again rule s d offset context) (B.again rule s d offset context)

/-- A setting under other limits. -/
def Setting.under (setting : Setting) (limits : Limits) : Setting :=
  { setting with limits }

/-- Limits that stop no rule that others let in, but may let in more where a fault at a limit excuses it. The memo has as much
room. -/
structure Limits.Eases (excuses : Fault → Prop) (limits limits' : Limits) : Prop where
  entries : limits'.maxMemoEntries = limits.maxMemoEntries
  depth : limits'.maxRuleDepth = limits.maxRuleDepth ∨
    limits.maxRuleDepth ≤ limits'.maxRuleDepth ∧ ∀ fault : Fault, fault.kind = .limitExceeded → excuses fault

/-- No limit is eased where all stay. -/
theorem Limits.Eases.refl (excuses : Fault → Prop) (limits : Limits) : limits.Eases excuses limits :=
  ⟨rfl, Or.inl rfl⟩

/-- What two runs that never excuse come to is the same. -/
theorem Concurs.eq {α : Type} {depth : Nat} {r r' : Except Fault (α × State)} (h : Concurs (fun _ => False) depth r r') :
    r = r' := by
  cases h with
  | ok _ => rfl
  | same _ => rfl
  | excused given => exact given.elim

namespace Run.Concurs

variable {α β : Type} {excuses : Fault → Prop} {depth : Nat} {x y : Run α} {f g : α → Run β}

/-- A run that leaves the depth as it was concurs with itself. -/
theorem refl (h : ∀ s a t, x s = .ok (a, t) → t.depth = s.depth) : Concurs excuses depth x x := by
  intro s hs
  match hr : x s with
  | .ok (a, t) => exact .ok ((h s a t hr).trans hs)
  | .error fault => exact .same fault

/-- A result concurs with itself. -/
theorem pure (a : α) : Concurs excuses depth (pure a : Run α) (pure a) :=
  refl fun _ _ _ h => by cases h; rfl

/-- A step that needs no state concurs with itself. -/
theorem lift (e : Except Fault α) : Concurs excuses depth (liftM e : Run α) (liftM e) := by
  refine refl fun s a t h => ?_
  rw [(Run.lift_eq_ok.1 h).2]

/-- A fault concurs with itself. -/
theorem fail (cause : Fault.Cause) : Concurs excuses depth (Run.fail cause : Run α) (Run.fail cause) :=
  refl fun _ _ _ h => by cases h

/-- Runs of two parts concur where their parts do. -/
theorem bind (h : Concurs excuses depth x y) (hf : ∀ a, Concurs excuses depth (f a) (g a)) :
    Concurs excuses depth (x >>= f) (y >>= g) := by
  intro s hs
  rw [Run.bind_apply, Run.bind_apply]
  have h1 := h s hs
  generalize x s = r at h1
  generalize y s = r' at h1
  cases h1 with
  | ok level => exact hf _ _ level
  | same fault => exact .same fault
  | excused given => exact .excused given

theorem freshId : Concurs excuses depth Run.freshId Run.freshId := refl fun _ _ _ h => by cases h; rfl

theorem count (k : Statistics → Statistics) : Concurs excuses depth (Run.count k) (Run.count k) :=
  refl fun _ _ _ h => by cases h; rfl

theorem mark : Concurs excuses depth Run.mark Run.mark := refl fun _ _ _ h => by cases h; rfl

theorem since (mark : Nat) : Concurs excuses depth (Run.since mark) (Run.since mark) := refl fun _ _ _ h => by cases h; rfl

theorem rollback (mark : Nat) : Concurs excuses depth (Run.rollback mark) (Run.rollback mark) :=
  refl fun _ _ _ h => by cases h; rfl

theorem append (text : String) : Concurs excuses depth (Run.append text) (Run.append text) :=
  refl fun _ _ _ h => by cases h; rfl

theorem openValue : Concurs excuses depth Run.openValue Run.openValue := refl fun _ _ _ h => by cases h; rfl

theorem closeValue : Concurs excuses depth Run.closeValue Run.closeValue := refl fun _ _ _ h => by cases h; rfl

/-- How far an attempt reached is noted alike. -/
theorem reach (a : Attempt) : Concurs excuses depth (Run.reach a) (Run.reach a) := by
  refine refl fun s b t h => ?_
  rw [← bind_pure (Run.reach a), Run.reach_eq] at h
  cases h
  exact State.depth_reaching ..

/-- A pattern is matched alike. -/
theorem matchAt (setting : Setting) (pattern : Pattern) (offset : Nat) :
    Concurs excuses depth (Run.matchAt setting pattern offset) (Run.matchAt setting pattern offset) := by
  refine refl fun s b t h => ?_
  rw [← bind_pure (Run.matchAt setting pattern offset)] at h
  obtain ⟨_, h⟩ := Run.matchAt_eq_ok h
  cases h
  rfl

/-- Both engines find the same in one memo. -/
theorem lookUp (setting : Setting) (key : MemoKey) :
    Concurs excuses depth (Run.lookUp setting key) (Run.lookUp setting key) := by
  refine refl fun s b t h => ?_
  rw [← bind_pure (Run.lookUp setting key)] at h
  rcases Run.lookUp_eq_ok h with ⟨entry, _, _, h⟩ | ⟨_, h⟩
  · cases h
    rfl
  · cases h
    exact State.depth_unfound ..

/-- Limits with as much room in the memo let the same be remembered. -/
theorem remember {setting : Setting} {limits : Limits} (h : limits.maxMemoEntries = setting.limits.maxMemoEntries)
    (key : MemoKey) (entry : MemoEntry) :
    Concurs excuses depth (Run.remember setting key entry) (Run.remember (setting.under limits) key entry) := by
  have hsame : Run.remember (setting.under limits) key entry = Run.remember setting key entry := by
    simp only [Run.remember, Setting.under, h]
  rw [hsame]
  refine refl fun s b t hr => ?_
  rw [← bind_pure (Run.remember setting key entry), Run.remember_eq] at hr
  cases hr
  exact State.depth_remembering ..

/-- What is done between entering and leaving a rule concurs where it concurs one level deeper, if the first engine may go there
at all. -/
theorem inside {setting : Setting} {limits : Limits} (hlimits : setting.limits.Eases excuses limits) (rule : RuleId)
    (h : depth < setting.limits.maxRuleDepth → Concurs excuses (depth + 1) x y) (hf : ∀ a, Concurs excuses depth (f a) (g a)) :
    Concurs excuses depth (Run.enter setting rule >>= fun _ => x >>= fun a => Run.leave >>= fun _ => f a)
      (Run.enter (setting.under limits) rule >>= fun _ => y >>= fun a => Run.leave >>= fun _ => g a) := by
  intro s hs
  have hcancelled : (setting.under limits).cancelled = setting.cancelled := rfl
  have hunder : (setting.under limits).limits = limits := rfl
  rw [Run.enter_bind, Run.enter_bind, hcancelled, hunder]
  cases setting.cancelled with
  | true => exact .same _
  | false =>
    simp only [Bool.false_eq_true, if_false]
    by_cases hdepth : setting.limits.maxRuleDepth ≤ s.depth
    · rw [if_pos hdepth]
      rcases hlimits.depth with heq | ⟨_, hexcuses⟩
      · rw [heq, if_pos hdepth]
        exact .same _
      · exact .excused (hexcuses _ rfl)
    · have hle : ¬limits.maxRuleDepth ≤ s.depth := by
        rcases hlimits.depth with heq | ⟨hle, _⟩ <;> omega
      rw [if_neg hdepth, if_neg hle]
      have h1 := h (by omega) s.entered (congrArg (· + 1) hs)
      change Graft.Concurs excuses depth ((x >>= fun a => Run.leave >>= fun _ => f a) s.entered)
        ((y >>= fun a => Run.leave >>= fun _ => g a) s.entered)
      rw [Run.bind_apply, Run.bind_apply]
      generalize x s.entered = r at h1
      generalize y s.entered = r' at h1
      cases h1 with
      | ok level => exact hf _ _ (by simp only [level, Nat.add_sub_cancel])
      | same fault => exact .same fault
      | excused given => exact .excused given

end Run.Concurs

/-! ## Loops and bodies -/

namespace Engine

variable {excuses : Fault → Prop} {depth : Nat} {A B : Attempts} {setting : Setting} {limits : Limits} {live : Context}
  {earliers : Earliers}

section

variable (hA : A.Concur excuses depth B)
include hA

/-- Attempts that concur make an edge that is read from scratch concur. -/
theorem readFresh_concurs (owner : RuleId) (budget : Nat) (p : Progress) :
    Run.Concurs excuses depth (readFresh A owner budget p) (readFresh B owner budget p) := by
  induction budget generalizing p with
  | zero => exact .fail _
  | succ budget ih =>
    rw [readFresh_succ, readFresh_succ]
    split
    · refine (hA.fresh _ _ _).bind fun a => ?_
      split
      · exact ih _
      · exact .pure _
    · exact .pure p

/-- So they make earlier children that are read again. -/
theorem readAgain_concurs (earlier : List Earlier) (p : Progress) :
    Run.Concurs excuses depth (readAgain A earlier p) (readAgain B earlier p) := by
  induction earlier generalizing p with
  | nil => exact .pure _
  | cons e rest ih =>
    rw [readAgain_cons, readAgain_cons]
    split
    · refine (hA.again _ _ _ _ _).bind fun a => ?_
      split
      · exact ih _
      · exact .pure _
    · exact .pure _

/-- An edge is read again first, then from scratch, within a budget that no limit tells. -/
theorem readLane_concurs (owner : RuleId) (earlier : List Earlier) (p : Progress) :
    Run.Concurs excuses depth (readLane setting A owner earlier p) (readLane (setting.under limits) B owner earlier p) := by
  rw [readLane, readLane]
  refine (readAgain_concurs hA earlier p).bind ?_
  rintro ⟨done, q⟩
  cases done with
  | true => exact .pure q
  | false => exact readFresh_concurs hA owner _ q

/-- Edges that are read one after the other concur. -/
theorem readInOrder_concurs (owner : RuleId) (entries : List (Edge × Nat)) (g : Gathering) :
    Run.Concurs excuses depth (readInOrder setting A owner live earliers entries g)
      (readInOrder (setting.under limits) B owner live earliers entries g) := by
  induction entries generalizing g with
  | nil => exact .pure _
  | cons entry entries ih =>
    rw [readInOrder, readInOrder]
    refine (Run.Concurs.lift _).bind fun lane => (readLane_concurs hA owner _ _).bind fun q => ?_
    split
    · exact ih q.gathering
    · exact .pure _

/-- So do the edges up to the first that will do. -/
theorem readFirst_concurs (owner : RuleId) (entries : List (Edge × Nat)) (g : Gathering) :
    Run.Concurs excuses depth (readFirst setting A owner live earliers entries g)
      (readFirst (setting.under limits) B owner live earliers entries g) := by
  induction entries generalizing g with
  | nil => exact .pure _
  | cons entry entries ih =>
    rw [readFirst, readFirst]
    refine (Run.Concurs.lift _).bind fun lane => (readLane_concurs hA owner _ _).bind fun q => ?_
    split
    · exact .pure _
    · split
      · exact .pure _
      · exact ih q.gathering

/-- Earlier children that are replayed concur. -/
theorem replay_concurs (children : List (Nat × Earlier)) (lanes : List Lane) (g : Gathering) :
    Run.Concurs excuses depth (replay A children lanes g) (replay B children lanes g) := by
  induction children generalizing lanes g with
  | nil => exact .pure _
  | cons child rest ih =>
    rw [replay, replay]
    split
    · exact .pure _
    · split
      · refine (hA.again _ _ _ _ _).bind fun a => ?_
        simp only
        split
        · exact .pure _
        · exact ih _ _
      · exact .pure _

/-- Scans concur where the attempts of the edges do. -/
theorem scan_concurs (lanes : List Lane) (g : Gathering) :
    Run.Concurs excuses depth (scan A lanes g) (scan B lanes g) := by
  induction lanes generalizing g with
  | nil => exact .pure _
  | cons lane lanes ih =>
    rw [scan, scan]
    split
    · refine (hA.fresh _ _ _).bind fun a => ?_
      simp only
      split
      · exact .pure _
      · exact (ih _).bind fun _ => .pure _
    · exact (ih _).bind fun _ => .pure _

/-- So do scans that go on until nothing is found. -/
theorem scanAll_concurs (owner : RuleId) (budget : Nat) (lanes : List Lane) (g : Gathering) :
    Run.Concurs excuses depth (scanAll A owner budget lanes g) (scanAll B owner budget lanes g) := by
  induction budget generalizing lanes g with
  | zero => exact .fail _
  | succ budget ih =>
    rw [scanAll, scanAll]
    refine (scan_concurs hA lanes g).bind ?_
    rintro ⟨found, lanes1, g1⟩
    simp only
    split
    · exact ih lanes1 g1
    · exact .pure _

omit hA in
/-- Lanes are opened alike. -/
theorem openAll_concurs (entries : List (Edge × Nat)) :
    Run.Concurs excuses depth (entries.mapM fun entry => (liftM (Lane.open entry.2 entry.1 live) : Run Lane))
      (entries.mapM fun entry => (liftM (Lane.open entry.2 entry.1 live) : Run Lane)) := by
  rw [Run.mapM_liftM]
  exact .lift _

omit hA in
/-- A container succeeds alike. -/
theorem succeed_concurs (g : Gathering) (rule : RuleId) (chosen : Option Nat) :
    Run.Concurs excuses depth (g.succeed rule chosen) (g.succeed rule chosen) :=
  Run.Concurs.freshId.bind fun _ => .pure _

variable {rule : RuleId} {edges : List Edge} {offset : Nat}

/-- A container in order concurs where the attempts of its edges do. -/
theorem inOrder_concurs : Run.Concurs excuses depth (inOrder setting A rule edges earliers offset live)
    (inOrder (setting.under limits) B rule edges earliers offset live) := by
  rw [inOrder, inOrder]
  refine Run.Concurs.mark.bind fun mark => (readInOrder_concurs hA rule _ _).bind ?_
  rintro ⟨complete, g⟩
  cases complete with
  | true => exact succeed_concurs g rule none
  | false => exact (Run.Concurs.rollback mark).bind fun _ => .pure _

/-- So does a container in any order. -/
theorem anyOrder_concurs : Run.Concurs excuses depth (anyOrder setting A rule edges earliers offset live)
    (anyOrder (setting.under limits) B rule edges earliers offset live) := by
  rw [anyOrder, anyOrder]
  refine Run.Concurs.mark.bind fun mark => (openAll_concurs _).bind fun lanes => (replay_concurs hA _ _ _).bind ?_
  rintro ⟨lanes1, g1⟩
  refine (scanAll_concurs hA rule _ _ _).bind ?_
  rintro ⟨lanes2, g2⟩
  simp only
  split
  · exact succeed_concurs g2 rule none
  · exact (Run.Concurs.rollback mark).bind fun _ => .pure _

/-- So does a container of the first of its children that fits. -/
theorem firstOrder_concurs : Run.Concurs excuses depth (firstOrder setting A rule edges earliers offset live)
    (firstOrder (setting.under limits) B rule edges earliers offset live) := by
  rw [firstOrder, firstOrder]
  refine Run.Concurs.mark.bind fun mark => (readFirst_concurs hA rule _ _).bind ?_
  rintro ⟨choice, g⟩
  cases choice with
  | chosen index => exact succeed_concurs g rule (some index)
  | broken => exact (Run.Concurs.rollback mark).bind fun _ => .pure _
  | none => exact .pure _

/-- A value concurs where its children do. -/
theorem value_concurs (name : String) (nonEmpty : Bool) :
    Run.Concurs excuses depth (value setting A rule name nonEmpty edges earliers offset live)
      (value (setting.under limits) B rule name nonEmpty edges earliers offset live) := by
  rw [value, value]
  refine Run.Concurs.openValue.bind fun _ => (inOrder_concurs hA).bind fun body => ?_
  refine Run.Concurs.closeValue.bind fun text => ?_
  split
  · exact .pure _
  · split
    · exact .pure _
    · exact Run.Concurs.freshId.bind fun _ => .pure _

/-- Containers of every kind concur. -/
theorem container_concurs (known : Rule) (kind : ContainerKind) :
    Run.Concurs excuses depth (container setting A rule known kind edges earliers offset live)
      (container (setting.under limits) B rule known kind edges earliers offset live) := by
  cases kind with
  | inOrder => exact inOrder_concurs hA
  | anyOrder => exact anyOrder_concurs hA
  | firstOrder => exact firstOrder_concurs hA
  | value nonEmpty => exact value_concurs hA _ nonEmpty

omit hA in
/-- A rule that matches a pattern attempts nothing. -/
theorem consume_concurs (kind : ConsumeKind) (binding : Binding) :
    Run.Concurs excuses depth (consume setting rule kind binding offset live)
      (consume (setting.under limits) rule kind binding offset live) := by
  change Run.Concurs excuses depth (consume setting rule kind binding offset live)
    (consume setting rule kind binding offset live)
  rw [consume]
  refine (Run.Concurs.lift _).bind fun pattern => (Run.Concurs.matchAt setting pattern offset).bind fun outcome => ?_
  simp only
  split
  · exact .pure _
  · split
    · exact .fail _
    · split
      · exact (Run.Concurs.append _).bind fun _ => Run.Concurs.freshId.bind fun _ => .pure _
      · exact Run.Concurs.freshId.bind fun _ => .pure _

omit hA in
/-- What a call comes to is shown alike. -/
theorem wrap_concurs (call : Invocation) (a : Attempt) :
    Run.Concurs excuses depth (wrap rule call a) (wrap rule call a) := by
  rw [wrap]
  split
  · exact .pure _
  · exact Run.Concurs.freshId.bind fun _ => .pure _

/-- A call concurs where the attempt of its target does. -/
theorem invoke_concurs (call : Invocation) (earlier : Option Earlier) :
    Run.Concurs excuses depth (invoke setting A rule call earlier offset live)
      (invoke (setting.under limits) B rule call earlier offset live) := by
  rw [invoke, invoke]
  refine (Run.Concurs.lift _).bind ?_
  rintro ⟨target, inside⟩
  cases earlier with
  | none => exact (hA.fresh _ _ _).bind fun a => wrap_concurs call a
  | some e => exact (hA.again _ _ _ _ _).bind fun a => wrap_concurs call a

/-- A body that is read from scratch concurs where the attempts in it do. -/
theorem readBody_concurs : Run.Concurs excuses depth (readBody setting A rule offset live)
    (readBody (setting.under limits) B rule offset live) := by
  rw [readBody, readBody]
  refine (Run.Concurs.lift _).bind fun known => ?_
  split
  · exact consume_concurs _ _
  · exact container_concurs hA known _
  · exact invoke_concurs hA _ none

/-- So does a body that is read on an earlier node. -/
theorem rereadBody_concurs (s : Statement) (d : Derivation) :
    Run.Concurs excuses depth (rereadBody setting A rule s d offset live)
      (rereadBody (setting.under limits) B rule s d offset live) := by
  rw [rereadBody, rereadBody]
  refine (Run.Concurs.lift _).bind fun known => ?_
  split
  · exact consume_concurs _ _
  · exact container_concurs hA known _
  · exact invoke_concurs hA _ _

end

/-! ## Attempts -/

variable {rule : RuleId} {offset : Nat}

/-- Adding again what a node had added is the same for both engines. -/
theorem recollect_concurs (grammar : Grammar) (s : Statement) (d : Derivation) :
    Run.Concurs excuses depth (recollect grammar s d) (recollect grammar s d) := by
  obtain ⟨text, _, h⟩ := recollect_adds grammar s d
  rw [h]
  exact (Run.Concurs.lift text).bind fun added => .append added

/-- So is keeping a node. -/
theorem reuse_concurs (s : Statement) (d : Derivation) :
    Run.Concurs excuses depth (reuse setting s d) (reuse (setting.under limits) s d) := by
  rw [reuse, reuse]
  refine (recollect_concurs setting.grammar s d).bind fun _ => ?_
  exact (Run.Concurs.reach _).bind fun _ => (Run.Concurs.count _).bind fun _ => .pure _

variable (hlimits : setting.limits.Eases excuses limits)
include hlimits

/-- An attempt that is not remembered concurs where its body does; both engines remember it then. -/
theorem lookUpOrRead_concurs (hA : A.Concur excuses depth B) :
    Run.Concurs excuses depth (lookUpOrRead setting A rule offset live)
      (lookUpOrRead (setting.under limits) B rule offset live) := by
  rw [lookUpOrRead, lookUpOrRead]
  refine Run.Concurs.bind (.lookUp setting _) fun found => ?_
  cases found with
  | some a => exact .pure a
  | none =>
    refine Run.Concurs.mark.bind fun mark => (readBody_concurs hA).bind fun a => (Run.Concurs.reach a).bind fun _ => ?_
    refine (Run.Concurs.since mark).bind fun text => ?_
    exact (Run.Concurs.remember hlimits.entries _ _).bind fun _ => .pure a

/-- An attempt concurs where the attempts inside the rule do, if the rule may be entered at all. -/
theorem attempt_concurs (hA : depth < setting.limits.maxRuleDepth → A.Concur excuses (depth + 1) B) :
    Run.Concurs excuses depth (attempt setting A rule offset live) (attempt (setting.under limits) B rule offset live) :=
  .inside hlimits rule (fun hd => lookUpOrRead_concurs hlimits (hA hd)) fun a => .pure a

/-- An attempt on an earlier node concurs: the node is kept by both, or its body is read one level deeper. -/
theorem reattempt_concurs (hA : depth < setting.limits.maxRuleDepth → A.Concur excuses (depth + 1) B) (s : Statement)
    (d : Derivation) :
    Run.Concurs excuses depth (reattempt setting A rule s d offset live)
      (reattempt (setting.under limits) B rule s d offset live) := by
  have hmodified : (setting.under limits).modified = setting.modified := rfl
  rw [reattempt, reattempt, hmodified]
  split
  · exact attempt_concurs hlimits hA
  · split
    · exact reuse_concurs s d
    · have hread : depth < setting.limits.maxRuleDepth → Run.Concurs excuses (depth + 1)
          (Run.count (fun s => { s with rederived := s.rederived + 1 }) >>= fun _ => rereadBody setting A rule s d offset live)
          (Run.count (fun s => { s with rederived := s.rederived + 1 }) >>= fun _ =>
            rereadBody (setting.under limits) B rule s d offset live) :=
        fun hd => (Run.Concurs.count _).bind fun _ => rereadBody_concurs (hA hd) s d
      have hinside := Run.Concurs.inside hlimits rule hread fun a => (Run.Concurs.reach a).bind fun _ => .pure a
      simpa only [bind_assoc] using hinside

end Engine

/-! ## The last level -/

/-- Attempts over a number of levels, with any other attempts below the last of them. -/
def Engine.attemptsOver (setting : Setting) (deepest : Attempts) : Nat → Attempts
  | 0 => deepest
  | levels + 1 =>
    { fresh := fun rule offset context => attempt setting (attemptsOver setting deepest levels) rule offset context
      again := fun rule statement derivation offset context =>
        reattempt setting (attemptsOver setting deepest levels) rule statement derivation offset context }

/-- The levels of the engine stand over one on which the limit of depth is always met. -/
theorem Engine.attempts_eq_attemptsOver (setting : Setting) (levels : Nat) :
    attempts setting levels = attemptsOver setting (exhausted setting) levels := by
  induction levels with
  | zero => rfl
  | succ levels ih => rw [attempts, attemptsOver, ih]

/-- From where the rest of the limit is one level less than what is left, the deepest level is never reached. -/
theorem Engine.attemptsOver_concur (setting : Setting) (deepest deepest' : Attempts) (levels : Nat) {depth : Nat}
    (h : depth + levels = setting.limits.maxRuleDepth) :
    (attemptsOver setting deepest (levels + 1)).Concur (fun _ => False) depth (attemptsOver setting deepest' (levels + 1)) := by
  induction levels generalizing depth with
  | zero =>
    have hA : depth < setting.limits.maxRuleDepth → deepest.Concur (fun _ => False) (depth + 1) deepest' :=
      fun hd => absurd hd (by omega)
    exact ⟨fun rule offset context => attempt_concurs (.refl _ _) hA,
      fun rule s d offset context => reattempt_concurs (.refl _ _) hA s d⟩
  | succ levels ih =>
    have hA := @ih (depth + 1) (by omega)
    exact ⟨fun rule offset context => attempt_concurs (.refl _ _) fun _ => hA,
      fun rule s d offset context => reattempt_concurs (.refl _ _) (fun _ => hA) s d⟩

/-- Where the limit of depth is reached no rule is attempted from scratch. -/
theorem Engine.fresh_at_limit {setting : Setting} {s : State} (h : setting.limits.maxRuleDepth ≤ s.depth) (levels : Nat)
    (rule : RuleId) (offset : Nat) (context : Context) :
    ∃ fault, (attempts setting levels).fresh rule offset context s = .error fault ∧
      (fault.kind = .cancelled ∨ fault.kind = .limitExceeded) := by
  cases levels with
  | zero => exact ⟨_, rfl, Or.inr rfl⟩
  | succ levels =>
    change ∃ fault, attempt setting (attempts setting levels) rule offset context s = .error fault ∧ _
    rw [attempt, Run.enter_bind]
    cases setting.cancelled with
    | true => exact ⟨_, rfl, Or.inl rfl⟩
    | false =>
      rw [if_neg Bool.false_ne_true, if_pos h]
      exact ⟨_, rfl, Or.inr rfl⟩

/-- No rule is entered at the limit of depth, and nothing is attempted below the last level: from the root on, any other attempts
could stand there. -/
structure Setting.Nests (setting : Setting) : Prop where
  refused (levels : Nat) (rule : RuleId) (offset : Nat) (context : Context) (s : State)
    (deep : setting.limits.maxRuleDepth ≤ s.depth) :
    ∃ fault, (attempts setting levels).fresh rule offset context s = .error fault ∧
      (fault.kind = .cancelled ∨ fault.kind = .limitExceeded)
  fresh (deepest : Attempts) (rule : RuleId) (offset : Nat) (context : Context) (s : State) (root : s.depth = 0) :
    (atRoot setting).fresh rule offset context s =
      (attemptsOver setting deepest (setting.limits.maxRuleDepth + 1)).fresh rule offset context s
  again (deepest : Attempts) (rule : RuleId) (node : Earlier) (offset : Nat) (context : Context) (s : State)
    (root : s.depth = 0) :
    (atRoot setting).again rule node.1 node.2 offset context s =
      (attemptsOver setting deepest (setting.limits.maxRuleDepth + 1)).again rule node.1 node.2 offset context s

/-- **Rules are never nested deeper than the limit of depth.** -/
theorem Setting.nests (setting : Setting) : setting.Nests := by
  have hroot : ∀ deepest, (atRoot setting).Concur (fun _ => False) 0
      (attemptsOver setting deepest (setting.limits.maxRuleDepth + 1)) := by
    intro deepest
    rw [atRoot, attempts_eq_attemptsOver]
    exact attemptsOver_concur setting _ deepest _ (Nat.zero_add _)
  exact ⟨fun levels rule offset context _ deep => fresh_at_limit deep levels rule offset context,
    fun deepest rule offset context s root => ((hroot deepest).fresh rule offset context s root).eq,
    fun deepest rule node offset context s root => ((hroot deepest).again rule node.1 node.2 offset context s root).eq⟩

end Graft
