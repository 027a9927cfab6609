import Graft.Proofs.Letters

/-!
# Backtracking

An attempt that fails leaves no trace in what is being read around it: the texts of the values and the depth of the rules are
what they were, however far the attempt got before it failed. An attempt that succeeds adds to the innermost text only, and only
at its end. That is so from scratch and on earlier nodes of any kind, and with anything in the memo that attempts of the same
call have put there.
-/

namespace Graft

open Engine

section

variable [Pattern.Compiler]

/-! ## The attempts of a call -/

/-- An attempt that a call may make at an offset: of a rule from scratch, or again on one of some earlier nodes. -/
inductive Engine.IsAttempt (setting : Setting) (nodes : List Earlier) : Nat → Run Attempt → Prop where
  | fresh (levels : Nat) (rule : RuleId) (offset : Nat) (context : Context) :
      IsAttempt setting nodes offset ((attempts setting levels).fresh rule offset context)
  | again (levels : Nat) (rule : RuleId) {node : Earlier} (earlier : node ∈ nodes) (offset : Nat) (context : Context) :
      IsAttempt setting nodes offset ((attempts setting levels).again rule node.1 node.2 offset context)

/-- A memo that was filled by attempts of one call. -/
inductive Engine.Fills (setting : Setting) (nodes : List Earlier) : Std.HashMap MemoKey MemoEntry → Prop where
  | empty : Fills setting nodes {}
  | attempt {offset : Nat} {x : Run Attempt} {s t : State} {a : Attempt} (filled : Fills setting nodes s.memo)
      (attempted : IsAttempt setting nodes offset x) (run : x s = .ok (a, t)) : Fills setting nodes t.memo

/-- What an attempt leaves of the texts being collected and of the depth. -/
structure State.LeftBy (s : State) (a : Attempt) (t : State) : Prop where
  depth : t.depth = s.depth
  failed : a.statement = none → t.collected = s.collected
  height : t.collected.length = s.collected.length
  below : t.collected.drop 1 = s.collected.drop 1
  top : ∃ text, Run.innermost t.collected = Run.innermost s.collected ++ text

/-! ## Gaining text -/

/-- A failed attempt that is remembered has added no text. -/
def State.Tidy (s : State) : Prop :=
  ∀ (key : MemoKey) (entry : MemoEntry), s.memo[key]? = some entry → entry.attempt.statement = none → entry.appended = ""

/-- From one state to another the innermost value gains a text, and nothing else happens to the texts and the depth. -/
structure State.Gains (s : State) (text : String) (t : State) : Prop where
  collected : t.collected = (s.adding text).collected
  depth : t.depth = s.depth
  tidy : t.Tidy

/-- A failed attempt gains no text. -/
def Engine.Silent (a : Attempt) (text : String) : Prop :=
  a.statement = none → text = ""

/-- A run that comes to a result gains a text that satisfies `Q` beside it. -/
def Run.Gains {α : Type} (Q : α → String → Prop) (x : Run α) : Prop :=
  ∀ s a t, s.Tidy → x s = .ok (a, t) → ∃ text, s.Gains text t ∧ Q a text

/-- A run that comes to a result leaves the memo, the texts and the depth alone. -/
def Run.Quiet {α : Type} (x : Run α) : Prop :=
  ∀ s a t, x s = .ok (a, t) → t.memo = s.memo ∧ t.collected = s.collected ∧ t.depth = s.depth

namespace State

variable {s t u : State} {a : Attempt} {text more : String}

/-- Tidiness is a matter of the memo alone. -/
theorem Tidy.of_eq (h : s.Tidy) (hm : t.memo = s.memo) : t.Tidy := by
  rw [Tidy, hm]
  exact h

/-- From a state to itself no text is gained. -/
theorem Gains.refl (h : s.Tidy) : s.Gains "" s :=
  ⟨by rw [adding_empty], rfl, h⟩

/-- What is gained on two ways, one after the other, is gained in their order. -/
theorem Gains.trans (h : s.Gains text t) (h' : t.Gains more u) : s.Gains (text ++ more) u :=
  ⟨collected_trans h.collected h'.collected, h'.depth.trans h.depth, h'.tidy⟩

/-- A step that leaves memo, texts and depth alone may follow. -/
theorem Gains.of_eq (h : s.Gains text t) (hm : u.memo = t.memo) (hc : u.collected = t.collected) (hd : u.depth = t.depth) :
    s.Gains text u :=
  ⟨hc.trans h.collected, hd.trans h.depth, h.tidy.of_eq hm⟩

/-- Taking back what was gained leaves nothing gained. -/
theorem Gains.restored (h : s.Gains text t) : s.Gains "" (s.restored t) :=
  ⟨by rw [adding_empty]; exact rollback_of_collected h.collected, h.depth, h.tidy.of_eq rfl⟩

/-- What is gained inside a rule is gained around it. -/
theorem Gains.inside (h : s.entered.Gains text t) : s.Gains text t.left :=
  ⟨h.collected, by simp [left, h.depth, entered], h.tidy.of_eq rfl⟩

/-- What a failed attempt is remembered with is no text, since it has gained none. -/
theorem Gains.remembering (h : s.Gains text t) (key : MemoKey)
    {setting : Setting}
    (ha : Silent a text) : s.Gains text (t.remembering setting key ⟨a, s.since t⟩) := by
  refine ⟨(collected_remembering ..).trans h.collected, (depth_remembering ..).trans h.depth, ?_⟩
  intro other entry he hs
  rcases getElem?_remembering he with ⟨_, rfl⟩ | he
  · have hnone := h.collected
    rw [ha hs, adding_empty] at hnone
    have hempty := Text.beyond_append (Run.innermost s.collected) ""
    rw [String.append_empty] at hempty
    simp only [since, hnone, hempty]
  · exact h.tidy other entry he hs

/-- What is gained by an attempt that gains nothing if it fails. -/
theorem Gains.leftBy (h : s.Gains text t) (hfailed : Silent a text) : s.LeftBy a t := by
  have hc := h.collected
  refine ⟨h.depth, ?_, ?_, ?_, ?_⟩
  · intro hs
    rw [hc, hfailed hs, adding_empty]
  · rw [hc, adding]
    cases s.collected <;> rfl
  · rw [hc, adding]
    cases s.collected <;> rfl
  · cases hs : s.collected with
    | nil => exact ⟨"", by rw [hc, adding, hs]; rfl⟩
    | cons top outer => exact ⟨text, by rw [hc, adding, hs]; rfl⟩

end State

namespace Run

variable {α β : Type} {Q : α → String → Prop} {Q' : β → String → Prop} {x : Run α} {f : α → Run β}

namespace Quiet

theorem lift (e : Except Fault α) : Quiet (liftM e : Run α) := by
  intro s a t hr
  obtain ⟨_, rfl⟩ := Run.lift_eq_ok.1 hr
  exact ⟨rfl, rfl, rfl⟩

theorem freshId : Quiet Run.freshId := by
  intro s a t hr
  cases hr
  exact ⟨rfl, rfl, rfl⟩

theorem count (g : Statistics → Statistics) : Quiet (Run.count g) := by
  intro s a t hr
  cases hr
  exact ⟨rfl, rfl, rfl⟩

theorem reach (a : Attempt) : Quiet (Run.reach a) := by
  intro s b t hr
  rw [Run.reach] at hr
  cases hs : a.statement with
  | none =>
    rw [hs] at hr
    cases hr
    exact ⟨rfl, rfl, rfl⟩
  | some statement =>
    rw [hs] at hr
    cases hr
    exact ⟨rfl, rfl, rfl⟩

/-- A match touches no state. -/
theorem matchAt (setting : Setting) (pattern : Pattern) (offset : Nat) : Quiet (Run.matchAt setting pattern offset) := by
  intro s a t hr
  rw [← bind_pure (Run.matchAt setting pattern offset)] at hr
  obtain ⟨_, hr⟩ := matchAt_eq_ok hr
  cases hr
  exact ⟨rfl, rfl, rfl⟩

end Quiet

namespace Gains

/-- A result may come with no text gained. -/
theorem pure {a : α} (h : Q a "") : Gains Q (pure a : Run α) := by
  intro s b t hs hr
  cases hr
  exact ⟨"", .refl hs, h⟩

/-- A fault gains anything. -/
theorem fail (cause : Fault.Cause) : Gains Q (Run.fail cause) := by
  intro s a t _ hr
  cases hr

/-- An appended text is what is gained. -/
theorem append (text : String) : Gains (fun _ more => more = text) (Run.append text) := by
  intro s a t hs hr
  cases hr
  exact ⟨text, ⟨rfl, rfl, hs.of_eq rfl⟩, rfl⟩

/-- What the parts of a run gain, the run gains. -/
theorem bind (hx : Gains Q x) (hf : ∀ a text, Q a text → Gains (fun b more => Q' b (text ++ more)) (f a)) :
    Gains Q' (x >>= f) := by
  intro s b t hs hr
  obtain ⟨a, u, hu, hr⟩ := Run.bind_eq_ok.1 hr
  obtain ⟨text, hgains, hq⟩ := hx s a u hs hu
  obtain ⟨more, hmore, hq'⟩ := hf a text hq u b t hgains.tidy hr
  exact ⟨text ++ more, hgains.trans hmore, hq'⟩

/-- A part that leaves memo, texts and depth alone gains nothing. -/
theorem quietly (hx : Quiet x) (hf : ∀ a, Gains Q' (f a)) : Gains Q' (x >>= f) := by
  intro s b t hs hr
  obtain ⟨a, u, hu, hr⟩ := Run.bind_eq_ok.1 hr
  obtain ⟨hm, hc, hd⟩ := hx s a u hu
  obtain ⟨text, hgains, hq⟩ := hf a u b t (hs.of_eq hm) hr
  have hstep : s.Gains "" u := (State.Gains.refl hs).of_eq hm hc hd
  exact ⟨text, by simpa using hstep.trans hgains, hq⟩

/-- What gains with a property gains with a weaker one. -/
theorem mono {Q' : α → String → Prop} (hx : Gains Q x) (h : ∀ a text, Q a text → Q' a text) : Gains Q' x := by
  intro s a t hs hr
  obtain ⟨text, hgains, hq⟩ := hx s a t hs hr
  exact ⟨text, hgains, h a text hq⟩

/-- Whatever is gained. -/
theorem any (hx : Gains Q x) : Gains (fun _ _ => True) x :=
  hx.mono fun _ _ _ => trivial

/-- Two parts of a run of which it does not matter what they gain. -/
theorem andThen (hx : Gains Q x) (hf : ∀ a, Gains (fun _ _ => True) (f a)) : Gains (fun _ _ => True) (x >>= f) :=
  hx.bind fun a _ _ => hf a

end Gains

end Run

/-! ## Loops -/

/-- Failed attempts of other rules gain no text. -/
structure Engine.Attempts.Silent (A : Attempts) : Prop where
  fresh (rule : RuleId) (offset : Nat) (context : Context) : Run.Gains Engine.Silent (A.fresh rule offset context)
  again (rule : RuleId) (s : Statement) (d : Derivation) (offset : Nat) (context : Context) :
    Run.Gains Engine.Silent (A.again rule s d offset context)

namespace Engine

namespace Progress

/-- Without a match no text is gained on the way from one progress to another. -/
def Idle (p q : Progress) (text : String) : Prop :=
  q.matched = false → p.matched = false ∧ text = ""

variable {p q r : Progress} {text more : String}

/-- No progress gains no text. -/
theorem Idle.refl (p : Progress) : p.Idle p "" :=
  fun h => ⟨h, rfl⟩

/-- Progress without a match after progress without a match gains no text. -/
theorem Idle.trans (h : p.Idle q text) (h' : q.Idle r more) : p.Idle r (text ++ more) := by
  intro hr
  obtain ⟨hq, rfl⟩ := h' hr
  obtain ⟨hp, rfl⟩ := h hq
  exact ⟨hp, rfl⟩

/-- Accepting an attempt that gains nothing if it fails is idle. -/
theorem Idle.accept (p : Progress) {a : Attempt} (ha : Silent a text) : p.Idle (p.accept a).2 text := by
  intro h
  obtain ⟨hp, hs⟩ := (p.matched_accept a).1 h
  exact ⟨hp, ha hs⟩

end Progress

variable {A : Attempts} {setting : Setting} {live : Context} {earliers : Earliers}

/-- Without a match the attempts on an edge from scratch gain no text. -/
theorem readFresh_gains (hA : A.Silent) (owner : RuleId) (budget : Nat) (p : Progress) :
    Run.Gains p.Idle (readFresh A owner budget p) := by
  induction budget generalizing p with
  | zero => exact .fail _
  | succ budget ih =>
    rw [readFresh_succ]
    split
    · refine (hA.fresh _ _ _).bind fun a text ha => ?_
      have hidle := Progress.Idle.accept p ha
      split
      · exact (ih _).mono fun r more h => hidle.trans h
      · exact .pure (hidle.trans (.refl _))
    · exact .pure (.refl p)

/-- Without a match the attempts on earlier children gain no text. -/
theorem readAgain_gains (hA : A.Silent) (earlier : List Earlier) (p : Progress) :
    Run.Gains (fun r => p.Idle r.2) (readAgain A earlier p) := by
  induction earlier generalizing p with
  | nil => exact .pure (.refl p)
  | cons e rest ih =>
    rw [readAgain_cons]
    split
    · refine (hA.again _ _ _ _ _).bind fun a text ha => ?_
      have hidle := Progress.Idle.accept p ha
      split
      · exact (ih _).mono fun r more h => hidle.trans h
      · exact .pure (hidle.trans (.refl _))
    · exact .pure (.refl p)

/-- An edge that is read without a match gains no text. -/
theorem readLane_gains (hA : A.Silent) (owner : RuleId) (earlier : List Earlier) (p : Progress) :
    Run.Gains p.Idle (readLane setting A owner earlier p) := by
  rw [readLane]
  refine (readAgain_gains hA earlier p).bind ?_
  rintro ⟨done, q⟩ text hidle
  cases done with
  | true => exact .pure (hidle.trans (.refl q))
  | false => exact (readFresh_gains hA owner _ q).mono fun r more h => hidle.trans h

/-- Edges read one after the other gain some text, which a container that fails takes back. -/
theorem readInOrder_gains (hA : A.Silent) (owner : RuleId) (entries : List (Edge × Nat)) (g : Gathering) :
    Run.Gains (fun _ _ => True) (readInOrder setting A owner live earliers entries g) := by
  induction entries generalizing g with
  | nil => exact .pure trivial
  | cons entry entries ih =>
    rw [readInOrder]
    refine .quietly (.lift _) fun lane => (readLane_gains hA owner _ _).andThen fun q => ?_
    split
    · exact ih q.gathering
    · exact .pure trivial

/-- Where no edge fits and none breaks, every attempt has failed. -/
theorem readFirst_gains (hA : A.Silent) (owner : RuleId) (entries : List (Edge × Nat)) (g : Gathering) :
    Run.Gains (fun r text => r.1 = .none → text = "") (readFirst setting A owner live earliers entries g) := by
  induction entries generalizing g with
  | nil => exact .pure fun _ => rfl
  | cons entry entries ih =>
    rw [readFirst]
    refine .quietly (.lift _) fun lane => (readLane_gains hA owner _ _).bind fun q text hidle => ?_
    split
    · exact .pure fun h => by cases h
    · split
      · exact .pure fun h => by cases h
      · rename_i hmatched
        obtain ⟨_, rfl⟩ := hidle (Bool.eq_false_iff.2 hmatched)
        exact (ih q.gathering).mono fun r more h hr => h hr

/-- Opening the edges of a container touches no state. -/
theorem openAll_quiet (entries : List (Edge × Nat)) :
    Run.Quiet (entries.mapM fun entry => (liftM (Lane.open entry.2 entry.1 live) : Run Lane)) := by
  rw [Run.mapM_liftM]
  exact .lift _

/-- Replaying earlier children gains some text. -/
theorem replay_gains (hA : A.Silent) (children : List (Nat × Earlier)) (lanes : List Lane) (g : Gathering) :
    Run.Gains (fun _ _ => True) (replay A children lanes g) := by
  induction children generalizing lanes g with
  | nil => exact .pure trivial
  | cons child rest ih =>
    rw [replay]
    split
    · exact .pure trivial
    · split
      · refine (hA.again _ _ _ _ _).andThen fun a => ?_
        simp only
        split
        · exact .pure trivial
        · exact ih _ _
      · exact .pure trivial

/-- A pass over the open edges gains some text. -/
theorem scan_gains (hA : A.Silent) (lanes : List Lane) (g : Gathering) :
    Run.Gains (fun _ _ => True) (scan A lanes g) := by
  induction lanes generalizing g with
  | nil => exact .pure trivial
  | cons lane lanes ih =>
    rw [scan]
    split
    · refine (hA.fresh _ _ _).andThen fun a => ?_
      simp only
      split
      · exact .pure trivial
      · exact (ih _).andThen fun _ => .pure trivial
    · exact (ih _).andThen fun _ => .pure trivial

/-- Passes over the open edges gain some text. -/
theorem scanAll_gains (hA : A.Silent) (owner : RuleId) (budget : Nat) (lanes : List Lane) (g : Gathering) :
    Run.Gains (fun _ _ => True) (scanAll A owner budget lanes g) := by
  induction budget generalizing lanes g with
  | zero => exact .fail _
  | succ budget ih =>
    rw [scanAll]
    refine (scan_gains hA lanes g).andThen ?_
    rintro ⟨found, lanes1, g1⟩
    simp only
    split
    · exact ih lanes1 g1
    · exact .pure trivial

/-! ## Bodies of rules -/

section

variable {rule : RuleId} {edges : List Edge} {offset : Nat} {g : Gathering} {s t u : State} {a : Attempt} {text : String}

/-- A container that succeeds keeps what was gained. -/
theorem Gathering.gains_succeed (h : s.Gains text u) {chosen : Option Nat} (hr : g.succeed rule chosen u = .ok (a, t)) :
    ∃ text, s.Gains text t ∧ Silent a text := by
  cases hr
  refine ⟨text, h.of_eq rfl rfl rfl, ?_⟩
  intro hs
  cases hs

/-- A container that fails takes back what was gained. -/
theorem Gathering.gains_fail (h : s.Gains text u)
    (hr : (Run.rollback (Text.size (Run.innermost s.collected)) >>= fun _ => pure (g.fail rule)) u = .ok (a, t)) :
    ∃ text, s.Gains text t ∧ Silent a text := by
  cases hr
  exact ⟨"", h.restored, fun _ => rfl⟩

end

variable {rule : RuleId} {edges : List Edge} {offset : Nat}

/-- A container in order that fails takes back the text that it gained. -/
theorem inOrder_gains (hA : A.Silent) : Run.Gains Silent (inOrder setting A rule edges earliers offset live) := by
  intro s a t hs hr
  rw [inOrder, Run.mark_bind] at hr
  obtain ⟨⟨complete, g⟩, u, hu, hr⟩ := Run.bind_eq_ok.1 hr
  obtain ⟨text, hgains, _⟩ := readInOrder_gains hA rule _ _ s _ u hs hu
  cases complete with
  | true => exact Gathering.gains_succeed hgains hr
  | false => exact Gathering.gains_fail hgains hr

/-- A container without order that fails takes back the text that it gained. -/
theorem anyOrder_gains (hA : A.Silent) : Run.Gains Silent (anyOrder setting A rule edges earliers offset live) := by
  intro s a t hs hr
  rw [anyOrder, Run.mark_bind] at hr
  obtain ⟨lanes, s1, h1, hr⟩ := Run.bind_eq_ok.1 hr
  obtain ⟨⟨lanes2, g2⟩, s2, h2, hr⟩ := Run.bind_eq_ok.1 hr
  obtain ⟨⟨lanes3, g3⟩, s3, h3, hr⟩ := Run.bind_eq_ok.1 hr
  obtain ⟨hm, hc, hd⟩ := openAll_quiet _ s lanes s1 h1
  obtain ⟨_, hreplay, _⟩ := replay_gains hA _ _ _ s1 _ s2 (hs.of_eq hm) h2
  obtain ⟨_, hscan, _⟩ := scanAll_gains hA _ _ _ _ s2 _ s3 hreplay.tidy h3
  have hgains := (((State.Gains.refl hs).of_eq hm hc hd).trans hreplay).trans hscan
  simp only at hr
  split at hr
  · exact Gathering.gains_succeed hgains hr
  · exact Gathering.gains_fail hgains hr

/-- A choice that fails takes back the text that it gained. -/
theorem firstOrder_gains (hA : A.Silent) : Run.Gains Silent (firstOrder setting A rule edges earliers offset live) := by
  intro s a t hs hr
  rw [firstOrder, Run.mark_bind] at hr
  obtain ⟨⟨choice, g⟩, u, hu, hr⟩ := Run.bind_eq_ok.1 hr
  obtain ⟨text, hgains, hnone⟩ := readFirst_gains hA rule _ _ s _ u hs hu
  cases choice with
  | chosen index => exact Gathering.gains_succeed hgains hr
  | broken => exact Gathering.gains_fail hgains hr
  | none =>
    -- nothing is taken back here, and nothing was added
    cases hr
    exact ⟨text, hgains, fun _ => hnone rfl⟩

/-- A value sets its text aside, whether it succeeds or not. -/
theorem value_gains (hA : A.Silent) (name : String) (nonEmpty : Bool) :
    Run.Gains Silent (value setting A rule name nonEmpty edges earliers offset live) := by
  intro s a t hs hr
  rw [value, Run.openValue_bind] at hr
  obtain ⟨body, u, hu, hr⟩ := Run.bind_eq_ok.1 hr
  obtain ⟨text, hgains, _⟩ := inOrder_gains hA s.opened body u (hs.of_eq rfl) hu
  have hclosed : s.Gains "" u.closed := by
    refine ⟨?_, hgains.depth, hgains.tidy.of_eq rfl⟩
    rw [State.adding_empty]
    exact (congrArg (List.drop 1) hgains.collected).trans rfl
  rw [Run.closeValue_bind] at hr
  refine ⟨"", ?_, fun _ => rfl⟩
  cases hb : body.statement with
  | none =>
    rw [hb] at hr
    cases hr
    exact hclosed
  | some statement =>
    simp only [hb] at hr
    split at hr
    · cases hr
      exact hclosed
    · cases hr
      exact hclosed.of_eq rfl rfl rfl

/-- A container of any kind gains no text if it fails. -/
theorem container_gains (hA : A.Silent) (known : Rule) (kind : ContainerKind) :
    Run.Gains Silent (container setting A rule known kind edges earliers offset live) := by
  cases kind with
  | inOrder => exact inOrder_gains hA
  | anyOrder => exact anyOrder_gains hA
  | firstOrder => exact firstOrder_gains hA
  | value nonEmpty => exact value_gains hA _ nonEmpty

/-- A pattern that does not match gains no text. -/
theorem consume_gains (kind : ConsumeKind) (binding : Binding) :
    Run.Gains Silent (consume setting rule kind binding offset live) := by
  rw [consume]
  refine .quietly (.lift _) fun pattern => .quietly (.matchAt setting pattern offset) fun outcome => ?_
  simp only
  split
  · exact .pure fun _ => rfl
  · split
    · exact .fail _
    · have hread : ∀ leaf : NodeId → Statement, Run.Gains (fun (a : Attempt) _ => a.statement ≠ none)
          (Run.freshId >>= fun id => pure (.success (leaf id) (.leaf rule ⟨offset, outcome.examined⟩))) :=
        fun leaf => .quietly .freshId fun id => .pure (by simp [Attempt.success])
      split
      · exact (Run.Gains.append _).bind fun _ text _ => (hread _).mono fun a more h hs => absurd hs h
      · exact (hread _).mono fun a more h hs => absurd hs h

/-- A call that is wrapped fails with what it called. -/
theorem wrap_gains (call : Invocation) {a : Attempt} {text : String} (ha : Silent a text) :
    Run.Gains (fun b more => Silent b (text ++ more)) (wrap rule call a) := by
  rw [wrap]
  split
  · rename_i hs
    exact .pure fun _ => by rw [ha hs, String.append_empty]
  · refine .quietly .freshId fun id => .pure ?_
    intro hs
    cases hs

/-- A call gains no text if it fails, from scratch or on an earlier node. -/
theorem invoke_gains (hA : A.Silent) (call : Invocation) (earlier : Option Earlier) :
    Run.Gains Silent (invoke setting A rule call earlier offset live) := by
  rw [invoke]
  refine .quietly (.lift _) ?_
  rintro ⟨target, inside⟩
  cases earlier with
  | none => exact (hA.fresh _ _ _).bind fun a text ha => wrap_gains call ha
  | some e => exact (hA.again _ _ _ _ _).bind fun a text ha => wrap_gains call ha

/-- The body of a rule gains no text if it fails. -/
theorem readBody_gains (hA : A.Silent) : Run.Gains Silent (readBody setting A rule offset live) := by
  rw [readBody]
  refine .quietly (.lift _) fun known => ?_
  split
  · exact consume_gains _ _
  · exact container_gains hA known _
  · exact invoke_gains hA _ none

/-- The body of a rule, read again on an earlier node, gains no text if it fails. -/
theorem rereadBody_gains (hA : A.Silent) (s : Statement) (d : Derivation) :
    Run.Gains Silent (rereadBody setting A rule s d offset live) := by
  rw [rereadBody]
  refine .quietly (.lift _) fun known => ?_
  split
  · exact consume_gains _ _
  · exact container_gains hA known _
  · exact invoke_gains hA _ _

/-! ## Attempts -/

/-- A failed attempt gains no text, whether it was found in the memo or made. -/
theorem lookUpOrRead_gains (hA : A.Silent) : Run.Gains Silent (lookUpOrRead setting A rule offset live) := by
  intro s a t hs hr
  rw [lookUpOrRead] at hr
  rcases Run.lookUp_eq_ok hr with ⟨entry, _, he, hr⟩ | ⟨_, hr⟩
  · -- a failed attempt in the memo is answered without any text
    cases hr
    exact ⟨entry.appended, ⟨rfl, rfl, hs.of_eq rfl⟩, hs _ entry he⟩
  · simp only [Run.mark_bind] at hr
    have hbegin : s.Gains "" (s.unfound setting) :=
      (State.Gains.refl hs).of_eq (State.memo_unfound ..) (State.collected_unfound ..) (State.depth_unfound ..)
    obtain ⟨b, u, hu, hr⟩ := Run.bind_eq_ok.1 hr
    obtain ⟨text, hbody, hb⟩ := readBody_gains hA _ b u hbegin.tidy hu
    have hgains := hbegin.trans hbody
    rw [String.empty_append] at hgains
    have hreach : s.Gains text (u.reaching b) :=
      hgains.of_eq (State.memo_reaching ..) (State.collected_reaching ..) (State.depth_reaching ..)
    rw [Run.reach_eq, Run.since_bind, Run.remember_eq, State.collected_unfound] at hr
    cases hr
    exact ⟨text, hreach.remembering _ hb, hb⟩

/-- An attempt from scratch gains no text if it fails. -/
theorem attempt_gains (hA : A.Silent) : Run.Gains Silent (attempt setting A rule offset live) := by
  intro s a t hs hr
  rw [attempt] at hr
  obtain ⟨b, u, hu, hr⟩ := Run.bind_eq_ok.1 (Run.enter_eq_ok hr)
  obtain ⟨text, hgains, hb⟩ := lookUpOrRead_gains hA s.entered b u (hs.of_eq rfl) hu
  cases hr
  exact ⟨text, hgains.inside, hb⟩

/-- Collecting the texts of a kept node gains some text. -/
theorem recollect_gains (grammar : Grammar) (s : Statement) (d : Derivation) :
    Run.Gains (fun _ _ => True) (recollect grammar s d) := by
  obtain ⟨text, _, h⟩ := recollect_adds grammar s d
  rw [h]
  exact .quietly (.lift text) fun added => (Run.Gains.append added).any

/-- An earlier node that is kept is a success. -/
theorem reuse_gains (s : Statement) (d : Derivation) : Run.Gains Silent (reuse setting s d) := by
  rw [reuse]
  refine (recollect_gains setting.grammar s d).bind fun _ text _ => ?_
  refine .quietly (.reach _) fun _ => .quietly (.count _) fun _ => .pure ?_
  intro hs
  cases hs

/-- An attempt on an earlier node gains no text if it fails. -/
theorem reattempt_gains (hA : A.Silent) (s : Statement) (d : Derivation) :
    Run.Gains Silent (reattempt setting A rule s d offset live) := by
  rw [reattempt]
  split
  · exact attempt_gains hA
  · split
    · exact reuse_gains s d
    · intro before a t hs hr
      have hr := Run.enter_eq_ok hr
      rw [Run.count_bind] at hr
      obtain ⟨b, u, hu, hr⟩ := Run.bind_eq_ok.1 hr
      obtain ⟨text, hgains, hb⟩ := rereadBody_gains hA s d before.entered.rederiving b u (hs.of_eq rfl) hu
      rw [Run.leave_bind, Run.reach_eq] at hr
      cases hr
      have hinside : before.Gains text u.left :=
        State.Gains.inside ⟨hgains.collected, hgains.depth, hgains.tidy⟩
      exact ⟨text, hinside.of_eq (State.memo_reaching ..) (State.collected_reaching ..) (State.depth_reaching ..), hb⟩

/-- Attempts gain no text where they fail, however many levels are left. -/
theorem attempts_silent (levels : Nat) : (attempts setting levels).Silent := by
  induction levels with
  | zero => exact ⟨fun _ _ _ => .fail _, fun _ _ _ _ _ => .fail _⟩
  | succ levels ih => exact ⟨fun _ _ _ => attempt_gains ih, fun _ s d _ _ => reattempt_gains ih s d⟩

end Engine

variable {setting : Setting} {nodes : List Earlier}

/-- Whatever attempt a call may make gains no text if it fails. -/
theorem Engine.IsAttempt.gains {offset : Nat} {x : Run Attempt} (h : IsAttempt setting nodes offset x) : Run.Gains Silent x := by
  cases h with
  | fresh levels rule offset context => exact (attempts_silent levels).fresh rule offset context
  | again levels rule _ offset context => exact (attempts_silent levels).again rule _ _ offset context

/-- A memo that was filled by attempts of one call is tidy. -/
theorem Engine.Fills.tidy {s : State} (h : Fills setting nodes s.memo) : s.Tidy := by
  generalize hm : s.memo = memo at h
  induction h generalizing s with
  | empty =>
    intro key entry he
    simp [hm] at he
  | attempt _ hx hr ih =>
    obtain ⟨_, hgains, _⟩ := hx.gains _ _ _ (ih rfl) hr
    exact hgains.tidy.of_eq hm

/-- **A failed attempt leaves no trace**, and one that succeeds adds to the end of the innermost text only. -/
theorem attempt_leaves_no_trace {offset : Nat} {x : Run Attempt} {s t : State} {a : Attempt}
    (hx : IsAttempt setting nodes offset x) (hs : Fills setting nodes s.memo) (hr : x s = .ok (a, t)) : s.LeftBy a t := by
  obtain ⟨text, hgains, hfailed⟩ := hx.gains s a t hs.tidy hr
  exact hgains.leftBy hfailed

end

open Pattern.Regex

/-- A root that reads a letter before it fails leaves the texts around it as they were, also when it is attempted once more. -/
theorem attempt_leaves_no_trace_anyAndOne :
    ∃ a t b u, (atRoot (.make (.anyAndOne .letterA .letterB) "a" .plain {})).fresh ⟨2⟩ 0 .empty
        { collected := ["so far", "around"], nextId := ⟨0⟩ } = .ok (a, t) ∧
      (atRoot (.make (.anyAndOne .letterA .letterB) "a" .plain {})).fresh ⟨2⟩ 0 .empty t = .ok (b, u) ∧
      a.statement = none ∧ b.statement = none ∧ u.collected = ["so far", "around"] ∧ u.depth = 0 := by
  have hsize : Text.size "a" ≠ 0 := by decide +kernel
  have hfails := anyAndOne_taken (p := .letterA) (q := .letterB) (by rw [Pattern.matchFront_letterA]; decide +kernel)
    Pattern.letterA_reads.matchFront_nil Pattern.letterB_reads.matchFront_nil hsize
  obtain ⟨g, hg⟩ := hfails 0
  obtain ⟨t, ht, hstands⟩ := hg { collected := ["so far", "around"], nextId := ⟨0⟩ } ⟨rfl, rfl, trivial⟩
  obtain ⟨g', hg'⟩ := hfails 1
  obtain ⟨u, hu, _⟩ := hg' t hstands
  have hfirst : IsAttempt (.make (.anyAndOne .letterA .letterB) "a" .plain {}) [] 0
    ((atRoot (.make (.anyAndOne .letterA .letterB) "a" .plain {})).fresh ⟨2⟩ 0 .empty) := .fresh _ _ _ _
  have hleft := attempt_leaves_no_trace hfirst .empty ht
  have hleft' := attempt_leaves_no_trace hfirst (.attempt .empty hfirst ht) hu
  exact ⟨_, t, _, u, ht, hu, rfl, rfl, (hleft'.failed rfl).trans (hleft.failed rfl), hleft'.depth.trans hleft.depth⟩

end Graft
