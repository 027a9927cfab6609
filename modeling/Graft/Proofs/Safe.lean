import Graft.Proofs.Decides
import Graft.Proofs.Tiles

/-!
# Safe runs

Some faults say that the engine broke a rule of its own: a match asked for inside a character, a match that ends inside one, or a
loop that outlasts its text. A run is safe when it never ends in such a fault. Attempts that begin at a boundary are: every node
tiles the text, so the next attempt begins at a boundary again, and a loop goes on only as long as the cursor moves.
-/

namespace Graft

open Engine

variable [Pattern.Compiler]

/-- A step that may fail, but not by the violation of an invariant. -/
def Except.Intact {α : Type} (x : Except Fault α) : Prop :=
  ∀ fault, x = .error fault → fault.kind ≠ .invariantViolation

/-- A run that is intact as long as it remembers nothing but attempts that satisfy `P`. -/
def Safe {α : Type} (P : Claim) (x : Run α) : Prop :=
  ∀ s, s.Remembers P → Except.Intact (x s)

variable {α β : Type} {P : Claim} {Q : α → Prop} {x : Run α}

namespace Except.Intact

/-- What the grammar alone resolves violates no invariant where it fails. -/
theorem of_resolves {e : Except Fault α} (h : Except.Resolves e) : Except.Intact e := by
  intro fault he
  rw [h fault he]
  decide

/-- Steps that are intact are intact one after the other. -/
theorem bind {e : Except Fault α} {f : α → Except Fault β} (he : Except.Intact e)
    (hf : ∀ a, e = .ok a → Except.Intact (f a)) : Except.Intact (e >>= f) := by
  intro fault h
  cases e with
  | error other =>
    cases h
    exact he fault rfl
  | ok a => exact hf a rfl fault h

end Except.Intact

namespace Safe

/-- A run that always comes to a result. -/
theorem of_ok (h : ∀ s, ∃ r, x s = .ok r) : Safe P x := by
  intro s _ fault hr
  obtain ⟨r, hok⟩ := h s
  rw [hok] at hr
  cases hr

/-- A result is at fault for nothing. -/
theorem pure (a : α) : Safe P (pure a) :=
  of_ok fun s => ⟨(a, s), rfl⟩

/-- Runs are safe one after the other, where the second is for what the first yields. -/
theorem bind {f : α → Run β} (hx : Safe P x) (hy : Yields P Q x) (hf : ∀ a, Q a → Safe P (f a)) : Safe P (x >>= f) := by
  intro s hs fault hr
  rw [Run.bind_apply] at hr
  match ha : x s with
  | .error other =>
    rw [ha] at hr
    cases hr
    exact hx s hs fault ha
  | .ok (a, s1) =>
    rw [ha] at hr
    obtain ⟨hq, hs1⟩ := hy s a s1 hs ha
    exact hf a hq s1 hs1 fault hr

/-- A fault of another kind is no violation. -/
theorem fail {cause : Fault.Cause} (h : cause.kind ≠ .invariantViolation) : Safe P (Run.fail cause : Run α) := by
  intro s _ fault hr
  cases hr
  exact h

/-- A step that is resolved by the grammar alone. -/
theorem lift {e : Except Fault α} (h : Except.Resolves e) : Safe P (liftM e : Run α) := by
  intro s _ fault hr
  cases e with
  | ok a => cases hr
  | error other =>
    cases hr
    exact Except.Intact.of_resolves h fault rfl

/-- There is always one more identity. -/
theorem freshId : Safe P Run.freshId :=
  of_ok fun _ => ⟨_, rfl⟩

theorem count (g : Statistics → Statistics) : Safe P (Run.count g) :=
  of_ok fun _ => ⟨_, rfl⟩

theorem leave : Safe P Run.leave :=
  of_ok fun _ => ⟨_, rfl⟩

theorem mark : Safe P Run.mark :=
  of_ok fun _ => ⟨_, rfl⟩

theorem since (mark : Nat) : Safe P (Run.since mark) :=
  of_ok fun _ => ⟨_, rfl⟩

theorem rollback (mark : Nat) : Safe P (Run.rollback mark) :=
  of_ok fun _ => ⟨_, rfl⟩

theorem append (text : String) : Safe P (Run.append text) :=
  of_ok fun _ => ⟨_, rfl⟩

theorem openValue : Safe P Run.openValue :=
  of_ok fun _ => ⟨_, rfl⟩

theorem closeValue : Safe P Run.closeValue :=
  of_ok fun _ => ⟨_, rfl⟩

/-- That an attempt has reached further is noted without fault. -/
theorem reach (a : Attempt) : Safe P (Run.reach a) := by
  rw [Run.reach]
  cases a.statement with
  | none => exact pure _
  | some statement => exact of_ok fun _ => ⟨_, rfl⟩

/-- A rule that may not be entered is cancelled or nested too deep, which is no violation. -/
theorem enter (setting : Setting) (rule : RuleId) : Safe P (Run.enter setting rule) := by
  intro s _ fault hr
  have h := Run.enter_bind setting rule Pure.pure s
  rw [bind_pure, hr] at h
  split at h
  · cases h
    exact Fault.Kind.noConfusion
  · split at h
    · cases h
      exact Fault.Kind.noConfusion
    · cases h

/-- A match at a boundary is no violation. -/
theorem matchAt {setting : Setting} {offset : Nat} (hb : Text.isBoundary setting.input offset = true) (pattern : Pattern) :
    Safe P (Run.matchAt setting pattern offset) :=
  of_ok fun s => ⟨_, by rw [Run.matchAt, if_pos hb]; rfl⟩

/-- Looking into the memo is at no fault, whether or not something is found. -/
theorem lookUp (setting : Setting) (key : MemoKey) : Safe P (Run.lookUp setting key) := by
  refine of_ok fun s => ?_
  have h := Run.lookUp_bind setting key Pure.pure s
  rw [bind_pure] at h
  rw [h]
  split
  · split <;> exact ⟨_, rfl⟩
  · exact ⟨_, rfl⟩

/-- A memo that is full remembers no more, without fault. -/
theorem remember (setting : Setting) (key : MemoKey) (entry : MemoEntry) : Safe P (Run.remember setting key entry) := by
  refine of_ok fun s => ?_
  obtain ⟨memo, h, _⟩ := Run.remember_bind setting key entry Pure.pure s
  rw [bind_pure] at h
  exact ⟨_, h⟩

end Safe

/-! ## Gathering -/

/-- What tiles the text where it is attempted starts there. -/
theorem Tiled.starts {input : String} {rule : RuleId} {offset : Nat} {context : Context} {a : Attempt}
    (h : Tiled input rule offset context a) (hb : Text.isBoundary input offset = true) : a.Starts offset :=
  fun s hs => (h hb s hs).1

/-- Attempts from scratch that tile the text, and are safe at its boundaries. -/
structure FreshSafe (P : Claim) (input : String) (attempts : Attempts) : Prop where
  tiled : ∀ r o c a, P r o c a → Tiled input r o c a
  yields : FreshYields P attempts
  safe : ∀ r o c, Text.isBoundary input o = true → Safe P (attempts.fresh r o c)

/-- Attempts on an earlier node, which is shown under some name, that are safe at the boundaries of a text. -/
structure AgainSafe (P : Claim) (input : String) (attempts : Attempts) (shownAs : Option String) (r : RuleId) (e : Earlier)
    (c : Context) : Prop where
  yields : AgainYields P attempts shownAs r e c
  safe : ∀ o, Text.isBoundary input o = true → Safe P (attempts.again r e.1 e.2 o c)

/-- Attempts on earlier children of a container are safe. -/
def EarliersSafe (P : Claim) (input : String) (attempts : Attempts) (edges : List Edge) (live : Context)
    (earliers : Earliers) : Prop :=
  ∀ index edge, edges[index]? = some edge → ∀ e ∈ earliers.ofEdge index,
    AgainSafe P input attempts none edge.rule e (edge.context live)

/-- Without earlier children there is nothing to be attempted again. -/
theorem EarliersSafe.none {input : String} {attempts : Attempts} {edges : List Edge} {live : Context} :
    EarliersSafe P input attempts edges live {} := by
  intro index edge _ e hm
  simp [Earliers.ofEdge] at hm

/-- Attempts again that are safe yield what may be remembered. -/
theorem EarliersSafe.yields {input : String} {attempts : Attempts} {edges : List Edge} {live : Context}
    {earliers : Earliers} (h : EarliersSafe P input attempts edges live earliers) :
    EarliersYield P attempts edges live earliers :=
  fun index edge hedge e hm => (h index edge hedge e hm).yields

section

variable {attempts : Attempts} {setting : Setting} {edges : List Edge} {live : Context} {offset : Nat}
variable (hA : FreshSafe P setting.input attempts) (hb : Text.isBoundary setting.input offset = true)
include hA hb

/-- What is gathered is never past the end of the text. -/
theorem Gathered.boundary {g : Gathering} (h : Gathered P edges live offset g) :
    Text.isBoundary setting.input g.cursor = true :=
  (h.tiled hA.tiled hb).cursor

/-- Each turn of the loop takes the cursor further, so the loop does not outlast the text. -/
theorem readFresh_safe (owner : RuleId) {budget : Nat} {p : Progress} (hl : p.lane.Opens edges live)
    (hg : Gathered P edges live offset p.gathering)
    (hbudget : Text.size setting.input - p.gathering.cursor < budget) : Safe P (readFresh attempts owner budget p) := by
  induction budget generalizing p with
  | zero => omega
  | succ budget ih =>
    rw [readFresh_succ]
    split
    · have hcursor := hg.boundary hA hb
      refine (hA.safe _ _ _ hcursor).bind (hA.yields _ _ _) fun a ha => ?_
      have hg' := Gathered.accept hg hl ha
      split
      · rename_i hstep
        have hlt := Reading.cursor_lt_of_consumed ((hA.tiled _ _ _ _ ha).starts hcursor) hstep
        have hle := Text.le_size_of_isBoundary (hg'.boundary hA hb)
        exact ih (hl.accept a) hg' (by omega)
      · exact .pure _
    · exact .pure _

/-- Each earlier child is read again where the one before it ended, so at a boundary. -/
theorem readAgain_safe {earlier : List Earlier} {p : Progress} (hl : p.lane.Opens edges live)
    (hE : ∀ e ∈ earlier, AgainSafe P setting.input attempts none p.lane.edge.rule e p.lane.context)
    (hg : Gathered P edges live offset p.gathering) : Safe P (readAgain attempts earlier p) := by
  induction earlier generalizing p with
  | nil => exact .pure _
  | cons e rest ih =>
    obtain ⟨hfirst, hrest⟩ := List.forall_mem_cons.1 hE
    rw [readAgain_cons]
    split
    · refine (hfirst.safe _ (hg.boundary hA hb)).bind (hfirst.yields.plain _) fun a ha => ?_
      split
      · obtain ⟨_, hedge, hcontext⟩ := p.lane_accept a
        rw [← hedge, ← hcontext] at hrest
        exact ih (hl.accept a) hrest (Gathered.accept hg hl ha)
      · exact .pure _
    · exact .pure _

/-- Reading an edge of a container from its beginning. -/
theorem readLane_safe (owner : RuleId) {earlier : List Earlier} {edge : Edge} {index : Nat} {lane : Lane}
    (he : edges[index]? = some edge) (hl : Lane.open index edge live = .ok lane)
    (hE : ∀ e ∈ earlier, AgainSafe P setting.input attempts none edge.rule e (edge.context live)) {g : Gathering}
    (hg : Gathered P edges live offset g) :
    Safe P (readLane setting attempts owner earlier { gathering := g, lane }) := by
  have hopens := Lane.opens_of_open he hl
  obtain ⟨occurrence, _, rfl⟩ := Lane.eq_of_open hl
  rw [readLane]
  refine (readAgain_safe hA hb hopens hE hg).bind (readAgain_yields hopens (fun e hm => (hE e hm).yields) hg) ?_
  rintro ⟨done, p⟩ ⟨hg', hl'⟩
  cases done with
  | true => exact .pure _
  | false => exact readFresh_safe hA hb owner hl' hg' (Nat.lt_succ_self _)

/-- Edges that are read one after the other are read at boundaries. -/
theorem readInOrder_safe (owner : RuleId) {earliers : Earliers}
    (hE : EarliersSafe P setting.input attempts edges live earliers) {entries : List (Edge × Nat)}
    (he : ∀ entry ∈ entries, edges[entry.2]? = some entry.1) {g : Gathering} (hg : Gathered P edges live offset g) :
    Safe P (readInOrder setting attempts owner live earliers entries g) := by
  induction entries generalizing g with
  | nil => exact .pure _
  | cons entry entries ih =>
    obtain ⟨hedge, hedges⟩ := List.forall_mem_cons.1 he
    rw [readInOrder]
    refine (Safe.lift (Lane.open_resolves _ _ _)).bind (Yields.lift _) fun lane hl => ?_
    refine (readLane_safe hA hb owner hedge hl (hE _ _ hedge) hg).bind
      (readLane_yields hA.yields owner hedge hl (hE.yields _ _ hedge) hg) fun q hq => ?_
    split
    · exact ih hedges hq
    · exact .pure _

/-- The edges before the first that will do leave the cursor at a boundary. -/
theorem readFirst_safe (owner : RuleId) {earliers : Earliers}
    (hE : EarliersSafe P setting.input attempts edges live earliers) {entries : List (Edge × Nat)}
    (he : ∀ entry ∈ entries, edges[entry.2]? = some entry.1) {g : Gathering} (hg : Gathered P edges live offset g) :
    Safe P (readFirst setting attempts owner live earliers entries g) := by
  induction entries generalizing g with
  | nil => exact .pure _
  | cons entry entries ih =>
    obtain ⟨hedge, hedges⟩ := List.forall_mem_cons.1 he
    have hearlier := Earliers.forall_mem_chosen (hE _ _ hedge)
    rw [readFirst]
    refine (Safe.lift (Lane.open_resolves _ _ _)).bind (Yields.lift _) fun lane hl => ?_
    refine (readLane_safe hA hb owner hedge hl hearlier hg).bind
      (readLane_yields hA.yields owner hedge hl (fun e hm => (hearlier e hm).yields) hg) fun q hq => ?_
    split
    · exact .pure _
    · split
      · exact .pure _
      · exact ih hedges hq

omit hA hb in
/-- An edge whose occurrence cannot be resolved is at fault, but breaks no rule of the engine. -/
theorem openAll_safe (entries : List (Edge × Nat)) :
    Safe P (entries.mapM fun entry => (liftM (Lane.open entry.2 entry.1 live) : Run Lane)) := by
  rw [Run.mapM_liftM]
  exact .lift (Lane.mapM_open_resolves entries live)

/-- Earlier children are replayed at boundaries. -/
theorem replay_safe {children : List (Nat × Earlier)}
    (hE : ∀ child ∈ children, ∀ edge, edges[child.1]? = some edge →
      AgainSafe P setting.input attempts none edge.rule child.2 (edge.context live))
    {lanes : List Lane} (hl : ReadAll edges live lanes) {g : Gathering} (hg : Gathered P edges live offset g) :
    Safe P (replay attempts children lanes g) := by
  induction children generalizing lanes g with
  | nil => exact .pure _
  | cons child rest ih =>
    obtain ⟨index, earlier⟩ := child
    rw [replay]
    cases hi : lanes[index]? with
    | none => exact .pure _
    | some lane =>
      have hlane := hl index lane hi
      have hagain := hE _ (List.mem_cons_self ..) _ hlane.edge
      rw [← hlane.opens.context] at hagain
      simp only
      split
      · refine (hagain.safe _ (hg.boundary hA hb)).bind (hagain.yields.plain _) fun a ha => ?_
        have hg' := Gathered.accept (p := { gathering := g, lane }) hg hlane.opens ha
        have hl' := hl.set (hlane.accept (p := { gathering := g, lane }) a)
        split
        · exact .pure _
        · exact ih (fun child hm => hE child (List.mem_cons_of_mem _ hm)) hl' hg'
      · exact .pure _

/-- A scan tries its edges at one boundary after the other. -/
theorem scan_safe {lanes : List Lane} (hl : ∀ lane ∈ lanes, lane.Opens edges live) {g : Gathering}
    (hg : Gathered P edges live offset g) : Safe P (scan attempts lanes g) := by
  induction lanes generalizing g with
  | nil => exact .pure _
  | cons lane lanes ih =>
    obtain ⟨hlane, hlanes⟩ := List.forall_mem_cons.1 hl
    rw [scan]
    split
    · refine (hA.safe _ _ _ (hg.boundary hA hb)).bind (hA.yields _ _ _) fun a ha => ?_
      have hg' := Gathered.accept (p := { gathering := g, lane }) hg hlane ha
      simp only
      split
      · exact .pure _
      · exact (ih hlanes hg').bind (scan_yields hA.yields hlanes hg') fun _ _ => .pure _
    · exact (ih hlanes hg).bind (scan_yields hA.yields hlanes hg) fun _ _ => .pure _

/-- A scan that finds something takes the cursor further. -/
theorem scan_advances {lanes : List Lane} (hl : ∀ lane ∈ lanes, lane.Opens edges live) {g : Gathering}
    (hg : Gathered P edges live offset g) :
    Yields P (fun r => r.1 = true → g.cursor < r.2.2.cursor) (scan attempts lanes g) := by
  induction lanes generalizing g with
  | nil => exact .pure (by simp)
  | cons lane lanes ih =>
    obtain ⟨hlane, hlanes⟩ := List.forall_mem_cons.1 hl
    rw [scan]
    split
    · refine (hA.yields _ _ _).bind fun a ha => ?_
      have hg' := Gathered.accept (p := { gathering := g, lane }) hg hlane ha
      have hstarts : a.Starts g.cursor := (hA.tiled _ _ _ _ ha).starts (hg.boundary hA hb)
      simp only
      split
      · rename_i hstep
        exact .pure fun _ => Reading.cursor_lt_of_consumed (q := { gathering := g, lane }) hstarts hstep
      · refine (ih hlanes hg').bind fun r hr => .pure fun hfound => ?_
        have hle := Reading.cursor_le_accept (q := { gathering := g, lane }) hstarts
        exact Nat.lt_of_le_of_lt hle (hr hfound)
    · exact (ih hlanes hg).bind fun r hr => .pure hr

/-- So the scans of a container do not outlast the text either. -/
theorem scanAll_safe (owner : RuleId) {budget : Nat} {lanes : List Lane} (hl : ∀ lane ∈ lanes, lane.Opens edges live)
    {g : Gathering} (hg : Gathered P edges live offset g) (hbudget : Text.size setting.input - g.cursor < budget) :
    Safe P (scanAll attempts owner budget lanes g) := by
  induction budget generalizing lanes g with
  | zero => omega
  | succ budget ih =>
    rw [scanAll]
    refine (scan_safe hA hb hl hg).bind ((scan_yields hA.yields hl hg).and (scan_advances hA hb hl hg)) ?_
    rintro ⟨found, lanes1, g1⟩ ⟨⟨h1, h2⟩, hfaster⟩
    simp only
    split
    · rename_i hfound
      have hlt := hfaster hfound
      have hle := Text.le_size_of_isBoundary (h2.boundary hA hb)
      simp only at hlt hle
      exact ih h1 h2 (by omega)
    · exact .pure _

end

/-! ## Bodies of rules -/

section

variable {attempts : Attempts} {setting : Setting} {edges : List Edge} {live : Context} {offset : Nat}

/-- A container succeeds without fault. -/
theorem succeed_safe (g : Gathering) (rule : RuleId) (chosen : Option Nat) : Safe P (g.succeed rule chosen) :=
  Safe.freshId.bind .freshId fun _ _ => .pure _

/-- Showing what a call comes to takes an identity at most. -/
theorem wrap_safe (rule : RuleId) (call : Invocation) (a : Attempt) : Safe P (wrap rule call a) := by
  rw [wrap]
  cases a.statement with
  | none => exact .pure _
  | some statement => exact Safe.freshId.bind .freshId fun _ _ => .pure _

variable (hA : FreshSafe P setting.input attempts) (hb : Text.isBoundary setting.input offset = true)

section

include hA hb

/-- A container in order that begins at a boundary is safe. -/
theorem inOrder_safe (rule : RuleId) {earliers : Earliers} (hE : EarliersSafe P setting.input attempts edges live earliers) :
    Safe P (inOrder setting attempts rule edges earliers offset live) := by
  rw [inOrder]
  refine Safe.mark.bind .mark fun mark _ => ?_
  refine (readInOrder_safe hA hb rule hE Reading.getElem?_of_mem_zipIdx .begin).bind
    (readInOrder_yields hA.yields rule hE.yields Reading.getElem?_of_mem_zipIdx .begin) ?_
  rintro ⟨complete, g⟩ _
  cases complete with
  | true => exact succeed_safe g rule none
  | false => exact (Safe.rollback mark).bind (.rollback mark) fun _ _ => .pure _

/-- A container in any order that begins at a boundary is safe. What is left of the text bounds its scans. -/
theorem anyOrder_safe (rule : RuleId) {earliers : Earliers} (hE : EarliersSafe P setting.input attempts edges live earliers) :
    Safe P (anyOrder setting attempts rule edges earliers offset live) := by
  have hchildren : ∀ child ∈ earliers.children, ∀ edge, edges[child.1]? = some edge →
      AgainSafe P setting.input attempts none edge.rule child.2 (edge.context live) :=
    fun child hm edge hedge => hE child.1 edge hedge child.2 (Earliers.mem_ofEdge.2 hm)
  rw [anyOrder]
  refine Safe.mark.bind .mark fun mark _ => ?_
  refine (openAll_safe _).bind (openAll_yields _) fun lanes hlanes => ?_
  refine (replay_safe hA hb hchildren (ReadAll.of_edges hlanes) .begin).bind
    (replay_yields (fun child hm edge hedge => (hchildren child hm edge hedge).yields) (ReadAll.of_edges hlanes) .begin) ?_
  rintro ⟨lanes1, g1⟩ ⟨h1, h2⟩
  refine (scanAll_safe hA hb rule h1 h2 (Nat.lt_succ_self _)).bind (scanAll_yields hA.yields rule _ h1 h2) ?_
  rintro ⟨lanes2, g⟩ _
  simp only
  split
  · exact succeed_safe g rule none
  · exact (Safe.rollback mark).bind (.rollback mark) fun _ _ => .pure _

/-- A container of the first of its children that fits is safe at a boundary. -/
theorem firstOrder_safe (rule : RuleId) {earliers : Earliers}
    (hE : EarliersSafe P setting.input attempts edges live earliers) :
    Safe P (firstOrder setting attempts rule edges earliers offset live) := by
  rw [firstOrder]
  refine Safe.mark.bind .mark fun mark _ => ?_
  refine (readFirst_safe hA hb rule hE Reading.getElem?_of_mem_zipIdx .begin).bind
    (readFirst_yields hA.yields rule hE.yields Reading.getElem?_of_mem_zipIdx .begin) ?_
  rintro ⟨choice, g⟩ _
  cases choice with
  | chosen index => exact succeed_safe g rule (some index)
  | broken => exact (Safe.rollback mark).bind (.rollback mark) fun _ _ => .pure _
  | none => exact .pure _

/-- A value is safe where its children are. -/
theorem value_safe (rule : RuleId) (name : String) (nonEmpty : Bool) {earliers : Earliers}
    (hE : EarliersSafe P setting.input attempts edges live earliers) :
    Safe P (value setting attempts rule name nonEmpty edges earliers offset live) := by
  rw [value]
  refine Safe.openValue.bind .openValue fun _ _ => ?_
  refine (inOrder_safe hA hb rule hE).bind (inOrder_yields hA.yields rule hE.yields) fun body _ => ?_
  refine Safe.closeValue.bind .closeValue fun text _ => ?_
  cases body.statement with
  | none => exact .pure _
  | some statement =>
    simp only
    split
    · exact .pure _
    · exact Safe.freshId.bind .freshId fun _ _ => .pure _

/-- A container of any kind is safe at a boundary. -/
theorem container_safe (rule : RuleId) (known : Rule) (kind : ContainerKind) {earliers : Earliers}
    (hE : EarliersSafe P setting.input attempts edges live earliers) :
    Safe P (container setting attempts rule known kind edges earliers offset live) := by
  cases kind with
  | inOrder => exact inOrder_safe hA hb rule hE
  | anyOrder => exact anyOrder_safe hA hb rule hE
  | firstOrder => exact firstOrder_safe hA hb rule hE
  | value nonEmpty => exact value_safe hA hb rule _ nonEmpty hE

/-- A call attempts its target where it begins itself. -/
theorem invoke_safe (rule : RuleId) (call : Invocation) {earlier : Option Earlier} (context : Context)
    (hE : ∀ e target inside, earlier = some e → resolveCall setting.grammar call context = .ok (target, inside) →
      AgainSafe P setting.input attempts call.shownAs target e inside) :
    Safe P (invoke setting attempts rule call earlier offset context) := by
  rw [invoke]
  refine (Safe.lift ((resolveCall_resolves _ _ _).mapError _)).bind (Yields.lift_mapError _ _) ?_
  rintro ⟨target, inside⟩ hc
  cases earlier with
  | none => exact (hA.safe target offset inside hb).bind (hA.yields _ _ _) fun a _ => wrap_safe rule call a
  | some e =>
    have hagain := hE e target inside rfl hc
    exact (hagain.safe offset hb).bind (hagain.yields offset) fun a _ => wrap_safe rule call a

end

include hb in
/-- A match at a boundary ends at one, so its text can be cut out. -/
theorem consume_safe (rule : RuleId) (kind : ConsumeKind) (binding : Binding) (context : Context) :
    Safe P (consume setting rule kind binding offset context) := by
  rw [consume]
  refine (Safe.lift ((context.resolvePattern_resolves _).mapError _)).bind (Yields.lift _) fun pattern _ => ?_
  refine (Safe.matchAt hb pattern).bind (Yields.matchAt setting pattern offset) ?_
  rintro outcome ⟨_, rfl⟩
  simp only
  cases hl : (pattern.matchFront ((Text.bytes setting.input).drop offset)).length with
  | none => exact .pure _
  | some length =>
    obtain ⟨text, hc⟩ := Text.exists_slice? hb (pattern.isBoundary_of_matchFront hb hl) (Nat.le_add_right offset length)
    simp only [hc]
    cases kind with
    | keep => exact (Safe.append text).bind (.append text) fun _ _ => Safe.freshId.bind .freshId fun _ _ => .pure _
    | skip => exact Safe.freshId.bind .freshId fun _ _ => .pure _

end

/-- A match that violates no invariant starts at a boundary of the text, and ends at one. -/
theorem boundary_of_consume_intact {setting : Setting} {rule : RuleId} {kind : ConsumeKind} {binding : Binding}
    {offset : Nat} {context : Context} {s : State} {pattern : Pattern} (hp : context.resolvePattern binding = .ok pattern)
    (h : Except.Intact (consume setting rule kind binding offset context s)) :
    Text.isBoundary setting.input offset = true ∧
      ∀ length, (pattern.matchFront ((Text.bytes setting.input).drop offset)).length = some length →
        Text.isBoundary setting.input (offset + length) = true := by
  have hb : Text.isBoundary setting.input offset = true := by
    by_contra hb
    refine h (.of (.outsideInput offset (Text.size setting.input))) ?_ rfl
    rw [consume, Run.lift_bind, Except.mapError_eq_ok.2 hp, Run.ok_bind, Run.matchAt_bind]
    exact if_neg hb
  exact ⟨hb, fun length hl => pattern.isBoundary_of_matchFront hb hl⟩

/-! ## Attempts -/

section

variable {attempts : Attempts} {setting : Setting} {rule : RuleId} {offset : Nat} {context : Context}

/-- The body of a rule is safe at a boundary when it is read from scratch. -/
theorem readBody_safe (hA : FreshSafe P setting.input attempts) (hb : Text.isBoundary setting.input offset = true) :
    Safe P (readBody setting attempts rule offset context) := by
  rw [readBody]
  refine (Safe.lift (setting.grammar.getRule_resolves rule)).bind (Yields.lift _) fun known _ => ?_
  cases known.body with
  | consume kind pattern => exact consume_safe hb rule kind pattern context
  | container kind edges => exact container_safe hA hb rule known kind .none
  | invoke call => exact invoke_safe hA hb rule call context fun e _ _ he => by cases he

/-- So it is on an earlier node, whose children and call are attempted again. -/
theorem rereadBody_safe (hA : FreshSafe P setting.input attempts) (hb : Text.isBoundary setting.input offset = true)
    {s : Statement} {d : Derivation}
    (hE : ∀ kind edges, setting.grammar.body? rule = some (.container kind edges) →
      EarliersSafe P setting.input attempts edges context (earliersOf kind s d))
    (hC : ∀ call, setting.grammar.body? rule = some (.invoke call) → ∀ e target inside, earlierCall? s d = some e →
      resolveCall setting.grammar call context = .ok (target, inside) →
      AgainSafe P setting.input attempts call.shownAs target e inside) :
    Safe P (rereadBody setting attempts rule s d offset context) := by
  rw [rereadBody]
  refine (Safe.lift (setting.grammar.getRule_resolves rule)).bind (Yields.lift _) fun known hk => ?_
  have hr := Grammar.body?_of_getRule hk
  cases hbody : known.body with
  | consume kind pattern => exact consume_safe hb rule kind pattern context
  | container kind edges =>
    rw [hbody] at hr
    exact container_safe hA hb rule known kind (hE kind edges hr)
  | invoke call =>
    rw [hbody] at hr
    exact invoke_safe hA hb rule call context (hC call hr)

/-- Adding again what a node had added fails only for want of a rule. -/
theorem recollect_safe (grammar : Grammar) (s : Statement) (d : Derivation) : Safe P (recollect grammar s d) := by
  obtain ⟨text, hrules, h⟩ := recollect_adds grammar s d
  have hresolves : Except.Resolves text := by
    intro fault hfault
    obtain ⟨id, hid⟩ := hrules fault hfault
    exact grammar.getRule_resolves id fault hid
  rw [h]
  exact (Safe.lift hresolves).bind (Yields.lift text) fun added _ => Safe.append added

/-- A node that is kept breaks no rule of the engine. -/
theorem reuse_safe (s : Statement) (d : Derivation) : Safe P (reuse setting s d) := by
  rw [reuse]
  refine (recollect_safe setting.grammar s d).bind (recollect_yields setting.grammar s d) fun _ _ => ?_
  exact (Safe.reach _).bind (.reach _) fun _ _ => (Safe.count _).bind (.count _) fun _ _ => .pure _

variable (hP : P.Passes setting.grammar setting.input)
include hP

/-- An attempt is safe at a boundary, from the memo as well as from its body. -/
theorem attempt_safe (hA : FreshSafe P setting.input attempts) (hb : Text.isBoundary setting.input offset = true) :
    Safe P (attempt setting attempts rule offset context) := by
  rw [attempt]
  refine (Safe.enter setting rule).bind (.enter setting rule) fun _ _ => ?_
  refine Safe.bind ?_ (lookUpOrRead_yields hP hA.yields) fun a _ => Safe.leave.bind .leave fun _ _ => .pure a
  rw [lookUpOrRead]
  refine (Safe.lookUp setting ⟨rule, offset, context⟩).bind (.lookUp setting _) fun found _ => ?_
  cases found with
  | some a => exact .pure a
  | none =>
    refine Safe.mark.bind .mark fun mark _ => ?_
    refine (readBody_safe hA hb).bind ((readBody_yields hA.yields).beside readBody_arranged) fun a ha => ?_
    refine (Safe.reach a).bind (.reach a) fun _ _ => (Safe.since mark).bind (.since mark) fun text _ => ?_
    exact (Safe.remember setting _ _).bind (.remember setting (hP _ _ _ _ ha.1 ha.2)) fun _ _ => .pure a

/-- An attempt on an earlier node is safe at a boundary, whether the node is kept or derived again. -/
theorem reattempt_safe (hA : FreshSafe P setting.input attempts) (hb : Text.isBoundary setting.input offset = true)
    {s : Statement} {d : Derivation}
    (hE : ∀ kind edges, setting.grammar.body? rule = some (.container kind edges) →
      EarliersSafe P setting.input attempts edges context (earliersOf kind s d))
    (hC : ∀ call, setting.grammar.body? rule = some (.invoke call) → ∀ e target inside, earlierCall? s d = some e →
      resolveCall setting.grammar call context = .ok (target, inside) →
      AgainSafe P setting.input attempts call.shownAs target e inside) :
    Safe P (reattempt setting attempts rule s d offset context) := by
  rw [reattempt]
  split
  · exact attempt_safe hP hA hb
  · split
    · exact reuse_safe s d
    · refine (Safe.enter setting rule).bind (.enter setting rule) fun _ _ => ?_
      refine (Safe.count _).bind (.count _) fun _ _ => ?_
      refine (rereadBody_safe hA hb hE hC).bind (rereadBody_yields hA.yields ?_ ?_) fun a _ => ?_
      · exact fun kind edges hr => (hE kind edges hr).yields
      · exact fun call hr e target inside he hc => (hC call hr e target inside he hc).yields
      · exact Safe.leave.bind .leave fun _ _ => (Safe.reach a).bind (.reach a) fun _ _ => .pure a

variable (hT : ∀ r o c a, P r o c a → Tiled setting.input r o c a)
include hT

/-- **Attempts at boundaries are safe**, from scratch as well as on earlier nodes. -/
theorem fresh_safe (levels : Nat) : FreshSafe P setting.input (Engine.attempts setting levels) := by
  induction levels with
  | zero => exact ⟨hT, fresh_yields hP 0, fun _ _ _ _ => .fail Fault.Kind.noConfusion⟩
  | succ levels ih => exact ⟨hT, fresh_yields hP (levels + 1), fun _ _ _ hb => attempt_safe hP ih hb⟩

/-- The earlier children of a node are attempted again one level deeper, and are earlier nodes themselves. -/
theorem again_safe (levels : Nat) {shownAs : Option String} {s : Statement} {d : Derivation}
    (h : Revisited setting.grammar (Keeping P setting) shownAs rule context s d) :
    AgainSafe P setting.input (Engine.attempts setting levels) shownAs rule (s, d) context := by
  refine ⟨again_yields hP levels h, ?_⟩
  induction levels generalizing shownAs rule context s d with
  | zero => exact fun _ _ => .fail Fault.Kind.noConfusion
  | succ levels ih =>
    obtain ⟨_, children, called⟩ := h
    intro o hb
    refine reattempt_safe hP (fresh_safe hP hT levels) hb ?_ ?_
    · intro kind edges hr index edge hedge e he
      have hrevisit := children kind edges hr index edge hedge e he
      exact ⟨again_yields hP levels hrevisit, ih hrevisit⟩
    · intro call hr e target inside he hc
      have hrevisit := called call hr e target inside he hc
      exact ⟨again_yields hP levels hrevisit, ih hrevisit⟩

end

end Graft
