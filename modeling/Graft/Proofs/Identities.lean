import Graft.Proofs.Displaced
import Graft.Proofs.Rows
import Graft.Proofs.Shaped

/-!
# Identities that stay

Every node of a repaired tree has been given its identity by the repair, or is a node of the tree before, displaced. For a call
that gives out identities that no call before it has given out, an identity that stays is that of a subtree that has not changed.
-/

namespace Graft

open Engine

/-- An identity that was given out from one on and before another. -/
def NodeId.Between (id first last : NodeId) : Prop :=
  first.index ≤ id.index ∧ id.index < last.index

theorem NodeId.Between.mono {id first last later : NodeId} (h : id.Between first last) (hl : last.index ≤ later.index) :
    id.Between first later :=
  ⟨h.1, Nat.lt_of_lt_of_le h.2 hl⟩

/-- A node that is one of some earlier nodes, displaced, or that was given its identity from one on and before another. -/
def Stems (old : List Earlier) (first last : NodeId) (node : Earlier) : Prop :=
  (∃ origin ∈ old, Displaced origin node) ∨ node.1.id.Between first last

theorem Stems.mono {old : List Earlier} {first last later : NodeId} {node : Earlier} (h : Stems old first last node)
    (hl : last.index ≤ later.index) : Stems old first later node :=
  h.imp_right (·.mono hl)

/-! ## Attempts -/

/-- What an attempt from scratch has read: its root was given a new identity, and its other nodes stem from earlier ones or were
given new identities, too. -/
def Attempt.Stems (old : List Earlier) (first last : NodeId) (a : Attempt) : Prop :=
  ∀ s, a.statement = some s → s.id.Between first last ∧ ∀ node ∈ s.walk a.derivation, Graft.Stems old first last node

theorem Attempt.Stems.mono {old : List Earlier} {first last later : NodeId} {a : Attempt} (h : a.Stems old first last)
    (hl : last.index ≤ later.index) : a.Stems old first later := by
  intro s hs
  obtain ⟨h1, h2⟩ := h s hs
  exact ⟨h1.mono hl, fun node hm => (h2 node hm).mono hl⟩

variable {old : List Earlier} {first : NodeId} {a : Attempt} {g : Gathering}

theorem Attempt.Stems.of_failure (h : a.statement = none) (old : List Earlier) (first last : NodeId) :
    a.Stems old first last := by
  intro s hs
  rw [h] at hs
  cases hs

/-- A root with a new identity stems from nothing under whatever name it is shown. -/
theorem Attempt.Stems.shown {last : NodeId} (h : a.Stems old first last) (shownAs : Option String) :
    ∀ st, a.statement = some st → ∀ node ∈ (Reading.shown shownAs st).walk a.derivation, Graft.Stems old first last node := by
  intro st hs node hm
  obtain ⟨hnew, hbelow⟩ := h st hs
  rcases Statement.mem_walk_shown hm with rfl | hm
  · exact Or.inr (by rw [Reading.id_shown]; exact hnew)
  · exact hbelow node hm

/-- A group with a new identity whose children stem from earlier nodes. -/
theorem Engine.Gathering.stems {last later : NodeId}
    (h : ∀ child ∈ g.children, ∀ node ∈ child.statement.walk child.derivation, Stems old first last node)
    (hl : last.index ≤ later.index) {id : NodeId} (hid : id.Between first later) (rule : RuleId) (chosen : Option Nat) :
    ∀ node ∈ (g.statement id).walk (g.derivation rule chosen), Stems old first later node := by
  intro node hm
  rcases Statement.mem_walk_group.1 hm with rfl | ⟨child, hc, hm⟩
  · exact Or.inr hid
  · exact (h child (Array.mem_toList_iff.1 hc) node hm).mono hl

section

variable [Pattern.Compiler]

/-- A state that gives out identities from one on, and in which attempts from scratch are remembered. -/
structure State.Stems (old : List Earlier) (first : NodeId) (s : State) : Prop where
  nextId : first.index ≤ s.nextId.index
  memo : ∀ (key : MemoKey) (entry : MemoEntry), s.memo[key]? = some entry → entry.attempt.Stems old first s.nextId

/-- The nodes that an attempt comes to stem from earlier nodes or were given new identities, under the name that they are shown
by. -/
def Stemming (old : List Earlier) (first : NodeId) : Deed := fun shownAs s _ _ _ a t =>
  s.Stems old first → s.nextId.index ≤ t.nextId.index ∧ t.Stems old first ∧ ∀ st, a.statement = some st →
    ∀ node ∈ (Reading.shown shownAs st).walk a.derivation, Stems old first t.nextId node

variable {setting : Setting} {s t : State} {rule : RuleId} {offset : Nat} {context : Context}

/-- A state in which as much is remembered, and which has given out identities since. -/
theorem State.Stems.of_eq (h : s.Stems old first) (hm : t.memo = s.memo) (hn : s.nextId.index ≤ t.nextId.index) :
    t.Stems old first := by
  refine ⟨Nat.le_trans h.nextId hn, ?_⟩
  rw [hm]
  exact fun key entry he => (h.memo key entry he).mono hn

/-- At the beginning nothing is remembered. -/
theorem State.Stems.begin (old : List Earlier) (first : NodeId) : State.Stems old first { nextId := first } :=
  ⟨Nat.le_refl _, fun key entry he => by simp at he⟩

/-- An identity that is given out now is a new one. -/
theorem State.Stems.between (h : s.Stems old first) : s.nextId.Between first s.nextId.next :=
  ⟨h.nextId, Nat.lt_succ_self _⟩

/-- What is gathered by attempts whose nodes stem from earlier ones, does, too. -/
theorem Gathers.stemming {edges : List Edge} {live : Context} (h : Gathers (Stemming old first) edges live offset s g t)
    (hs : s.Stems old first) :
    s.nextId.index ≤ t.nextId.index ∧ t.Stems old first ∧
      ∀ child ∈ g.children, ∀ node ∈ child.statement.walk child.derivation, Stems old first t.nextId node := by
  induction h with
  | begin => exact ⟨Nat.le_refl _, hs, by simp [Gathering.begin]⟩
  | @accept p a t u _ opens does ih =>
    obtain ⟨h1, ht, hbelow⟩ := ih
    obtain ⟨h2, hu, hnodes⟩ := does ht
    refine ⟨Nat.le_trans h1 h2, hu, ?_⟩
    intro child hm node hn
    rcases Progress.mem_children_accept hm with hm | ⟨st, hst, rfl⟩
    · exact (hbelow child hm node hn).mono h2
    · exact hnodes st hst node hn

/-- What a body comes to has a root with a new identity. -/
theorem Does.stemming (h : Does setting (Stemming old first) s rule offset context a t) (hs : s.Stems old first) :
    s.nextId.index ≤ t.nextId.index ∧ t.Stems old first ∧ a.Stems old first t.nextId := by
  have hissued : ∀ s : State, s.nextId.index ≤ s.issued.nextId.index := fun s => Nat.le_succ _
  cases h with
  | unmatched rules boundary => exact ⟨Nat.le_refl _, hs, .of_failure rfl _ _ _⟩
  | @matched kind binding pattern length text rules found cut =>
    have hnext : (s.consuming kind text).issued.nextId = s.nextId.next := congrArg NodeId.next (State.nextId_consuming s kind text)
    have hle : s.nextId.index ≤ (s.consuming kind text).issued.nextId.index := by
      rw [hnext]
      exact Nat.le_succ _
    refine ⟨hle, hs.of_eq (State.memo_consuming s kind text) hle, ?_⟩
    intro st hst
    cases hst
    rw [hnext]
    refine ⟨hs.between, fun node hm => ?_⟩
    obtain rfl := List.mem_singleton.1 (Statement.walk_leaf _ _ _ _ ▸ hm)
    exact Or.inr hs.between
  | full chosen rules plain gathers =>
    obtain ⟨h1, ht, hbelow⟩ := gathers.stemming hs
    refine ⟨Nat.le_trans h1 (hissued _), ht.of_eq rfl (hissued _), ?_⟩
    intro st hst
    cases hst
    exact ⟨ht.between, Gathering.stems hbelow (hissued _) ht.between rule chosen⟩
  | short rules plain gathers =>
    obtain ⟨h1, ht, _⟩ := gathers.stemming hs
    exact ⟨h1, ht.of_eq rfl (Nat.le_refl _), .of_failure rfl _ _ _⟩
  | missed rules gathers nothing =>
    obtain ⟨h1, ht, _⟩ := gathers.stemming hs
    exact ⟨h1, ht, .of_failure rfl _ _ _⟩
  | @valued nonEmpty edges g t name rules gathers =>
    obtain ⟨h1, ht, hbelow⟩ := gathers.stemming (hs.of_eq rfl (Nat.le_refl _))
    have hle : t.nextId.index ≤ t.issued.closed.issued.nextId.index := Nat.le_add_right _ 2
    -- the body is given its identity first, and the value the next one
    have hinner := ht.between.mono (hissued t.issued)
    have houter : t.nextId.next.Between first t.nextId.next.next := (@State.Stems.of_eq _ _ _ _ t.issued ht rfl (hissued t)).between
    refine ⟨Nat.le_trans h1 hle, ht.of_eq rfl hle, ?_⟩
    intro st hst
    cases hst
    refine ⟨houter, fun node hm => ?_⟩
    change node ∈ Statement.walk (.value _ _ _ _ _) (.around rule _) at hm
    rw [Statement.walk_value] at hm
    rcases List.mem_cons.1 hm with rfl | hm
    · exact Or.inr houter
    · exact Gathering.stems hbelow hle hinner rule none node hm
  | hollow rules gathers =>
    obtain ⟨h1, ht, _⟩ := gathers.stemming (hs.of_eq rfl (Nat.le_refl _))
    exact ⟨Nat.le_trans h1 (hissued _), ht.of_eq rfl (hissued _), .of_failure rfl _ _ _⟩
  | unvalued rules gathers =>
    obtain ⟨h1, ht, _⟩ := gathers.stemming (hs.of_eq rfl (Nat.le_refl _))
    exact ⟨h1, ht.of_eq rfl (Nat.le_refl _), .of_failure rfl _ _ _⟩
  | @called call target inside body inner t rules resolved does =>
    obtain ⟨h1, ht, hbelow⟩ := does hs
    refine ⟨Nat.le_trans h1 (hissued _), ht.of_eq rfl (hissued _), ?_⟩
    intro st hst
    cases hst
    refine ⟨ht.between, fun node hm => ?_⟩
    change node ∈ Statement.walk (.group _ _ [_]) (.around rule inner) at hm
    rw [Derivation.around, Statement.walk_call] at hm
    rcases List.mem_cons.1 hm with rfl | hm
    · exact Or.inr ht.between
    -- what the call has read was looked at under the name that the call shows it by
    · exact (hbelow body rfl node hm).mono (hissued _)
  | uncalled rules resolved failed does =>
    obtain ⟨h1, ht, _⟩ := does hs
    exact ⟨h1, ht, .of_failure rfl _ _ _⟩

/-- What is remembered has a root with a new identity, so it may be shown under any name. -/
theorem Stemming.passes (setting : Setting) (old : List Earlier) (first : NodeId) :
    (Stemming old first).Passes setting where
  found := by
    intro shownAs s rule offset context entry hentry _ hs
    -- kept nodes are never the root of what is remembered, so another name changes none of them
    exact ⟨Nat.le_refl _, hs.of_eq rfl (Nat.le_refl _), (hs.memo _ _ hentry).shown shownAs⟩
  read := by
    intro shownAs s rule offset context a t hdoes _ hs
    obtain ⟨h1, ht, ha⟩ := hdoes.stemming (hs.of_eq (by simp) (by simp))
    refine ⟨by simpa using h1, ⟨by simpa using ht.nextId, ?_⟩, by simpa using ha.shown shownAs⟩
    intro key entry hentry
    simp only [State.nextId_left, State.nextId_remembering, State.nextId_reaching]
    rcases State.getElem?_remembering hentry with ⟨_, rfl⟩ | hentry
    · exact ha
    · rw [State.memo_reaching] at hentry
      exact ht.memo key entry hentry
  reread := by
    intro shownAs s rule offset context a t hdoes hs
    obtain ⟨h1, ht, ha⟩ := hdoes.stemming (hs.of_eq (by simp) (by simp))
    exact ⟨by simpa using h1, ht.of_eq (by simp) (by simp), by simpa using ha.shown shownAs⟩

/-! ## Kept nodes -/

/-- A node that is one of some earlier nodes, displaced, may be kept. -/
theorem Stemming.keeps {old : List Earlier} {first : NodeId} {setting : Setting} {node : Earlier}
    (h : setting.modified.contains node.1.id = false →
      ∃ origin, Displaced origin node ∧ ∀ below ∈ origin.1.walk origin.2, below ∈ old) :
    Keeps (Stemming old first) setting node := by
  intro hmark shownAs hshown s context hs
  obtain ⟨origin, hdisplaced, hold⟩ := h hmark
  refine ⟨by simp, hs.of_eq (by simp) (by simp), ?_⟩
  intro st hst below hm
  cases hst
  rw [hshown] at hm
  obtain ⟨source, hsource, hbelow⟩ := hdisplaced.of_mem_walk hm
  exact Or.inl ⟨source, hold source hsource, hbelow⟩

/-! ## Trees -/

/-- The nodes of a tree that was parsed were given their identities by the parse. -/
theorem between_of_parse {grammar : Grammar} {input : String} {options : Options} {nextId next : NodeId} {tree : Tree}
    (h : grammar.parse input options nextId = .ok (tree, next)) :
    ∀ node ∈ tree.statement.walk tree.derivation, node.1.id.Between nextId next := by
  obtain ⟨t, hdoes, rfl, _⟩ := parse_does (Stemming.passes _ [] nextId) h
  obtain ⟨_, _, hnodes⟩ := hdoes (.begin _ nextId)
  intro node hm
  rcases hnodes _ rfl node hm with ⟨origin, ho, _⟩ | hnew
  · cases ho
  · exact hnew

/-- The nodes of a tree that was repaired are nodes of the tree before, displaced, or were given their identities by the
repair. -/
theorem stems_of_repair {grammar : Grammar} {allowed : Context → Prop} {before tree : Tree}
    (hreached : before.Reached grammar allowed) {edits : List Edit} {options : Options} {nextId next : NodeId}
    (h : grammar.repair before edits options nextId = .ok (tree, next)) :
    nextId.index ≤ next.index ∧ ∀ node ∈ tree.statement.walk tree.derivation,
      Stems (before.statement.walk before.derivation) nextId next node := by
  obtain ⟨rfl, ⟨_, rfl⟩ | ⟨t, ht, hmark, hkeep⟩⟩ | ⟨t, ht, hmark, hrederive⟩ := repair_course h
  · exact ⟨Nat.le_refl _, fun node hm => Or.inl ⟨node, hm, .refl node⟩⟩
  · have hdisplaced : Displaced (before.statement, before.derivation) (t.statement, t.derivation) := by
      obtain ⟨hw, hinterest⟩ | hblank := hreached.whole
      · obtain rfl := hw.eq_of_unmarked hinterest ht hmark
        exact .refl _
      · obtain ⟨_, hdrifts⟩ := hblank.of_edits ht
        exact hdrifts.displaced hblank
    obtain ⟨rfl, _⟩ := Grammar.keepTree_eq_ok hkeep
    exact ⟨Nat.le_refl _, fun node hm => Or.inl (hdisplaced.of_mem_walk hm)⟩
  · obtain ⟨hw, _⟩ := hreached.whole_of_marked ht hmark
    obtain ⟨v, hfollows⟩ := hw.follows ht
    obtain ⟨hshaped, _⟩ := hreached.edited ht
    obtain ⟨u, hdoes, rfl, _⟩ := rederive_does
      (Stemming.passes _ (before.statement.walk before.derivation) nextId) hshaped (fun node hm _ =>
        Stemming.keeps fun hmark => by
          obtain ⟨origin, ho, hdisplaced⟩ := hfollows.displaced hw.formed hm hmark
          exact ⟨origin, hdisplaced, fun below hb => hw.formed.paired.mem_walk_trans ho hb⟩) hrederive
    obtain ⟨h1, _, hnodes⟩ := hdoes (.begin _ nextId)
    exact ⟨h1, hnodes _ rfl⟩

/-- A tree that comes from a parse and any number of repairs, and the first identity that no call has given out so far. Each
call gives out identities from there on, and other calls may have done so in between. -/
inductive Tree.Issued (grammar : Grammar) : Tree → NodeId → Prop where
  | parse {input : String} {options : Options} {nextId next : NodeId} {tree : Tree}
      (parsed : grammar.parse input options nextId = .ok (tree, next)) : Issued grammar tree next
  | repair {before tree : Tree} {edits : List Edit} {options : Options} {nextId next : NodeId}
      (issued : Issued grammar before nextId) (repaired : grammar.repair before edits options nextId = .ok (tree, next)) :
      Issued grammar tree next
  | later {tree : Tree} {next later : NodeId} (issued : Issued grammar tree next) (after : next.index ≤ later.index) :
      Issued grammar tree later

namespace Tree.Issued

variable {grammar : Grammar} {tree : Tree} {next : NodeId}

theorem reached (h : tree.Issued grammar next) : tree.Reached grammar fun _ => True := by
  induction h with
  | parse parsed => exact .parse trivial parsed
  | repair _ repaired ih => exact .repair ih trivial repaired
  | later _ _ ih => exact ih

/-- All identities of the tree have been given out. -/
theorem lt_next (h : tree.Issued grammar next) :
    ∀ node ∈ tree.statement.walk tree.derivation, node.1.id.index < next.index := by
  induction h with
  | parse parsed => exact fun node hm => (between_of_parse parsed node hm).2
  | repair issued repaired ih =>
    obtain ⟨hle, hstems⟩ := stems_of_repair issued.reached repaired
    intro node hm
    rcases hstems node hm with ⟨origin, ho, hdisplaced⟩ | hnew
    · rw [hdisplaced.id_eq]
      exact Nat.lt_of_lt_of_le (ih origin ho) hle
    · exact hnew.2
  | later _ after ih => exact fun node hm => Nat.lt_of_lt_of_le (ih node hm) after

end Tree.Issued

/-- **An identity that is kept means a subtree that has not changed.** A node of a repaired tree has the identity of a node of
the tree before, of which it is, with all that lies below, a displaced copy; or it has an identity that no node of the tree before
has, and that had not been given out before the repair. -/
theorem displaced_of_repair {grammar : Grammar} {before : Tree} {nextId : NodeId} (hissued : before.Issued grammar nextId)
    {edits : List Edit} {options : Options} {tree : Tree} {next : NodeId}
    (h : grammar.repair before edits options nextId = .ok (tree, next)) :
    (∀ origin ∈ before.statement.walk before.derivation, origin.1.id.index < nextId.index) ∧
      ∀ node ∈ tree.statement.walk tree.derivation,
        (∃ origin ∈ before.statement.walk before.derivation, origin.1.id = node.1.id ∧ Displaced origin node) ∨
          (∀ origin ∈ before.statement.walk before.derivation, origin.1.id ≠ node.1.id) ∧
            nextId.index ≤ node.1.id.index := by
  have hold := hissued.lt_next
  refine ⟨hold, fun node hm => ?_⟩
  rcases (stems_of_repair hissued.reached h).2 node hm with ⟨origin, ho, hdisplaced⟩ | hnew
  · exact Or.inl ⟨origin, ho, hdisplaced.id_eq.symm, hdisplaced⟩
  · refine Or.inr ⟨fun origin ho heq => ?_, hnew.1⟩
    have hlt := hold origin ho
    rw [heq] at hlt
    exact Nat.lt_irrefl _ (Nat.lt_of_lt_of_le hlt hnew.1)

end

open Pattern.Regex

/-- Where the last of three letters is replaced, the match of the first one stays under its identity, and the match of the new
one has an identity that no match had before. -/
theorem displaced_of_repair_abd : ∃ before tree : Tree, ∃ next : NodeId,
    before.Issued (.row .dot) ⟨4⟩ ∧ (Grammar.row .dot).repair before [⟨2, 1, "d"⟩] .plain ⟨4⟩ = .ok (tree, next) ∧
      (∃ kept ∈ tree.statement.walk tree.derivation, kept.1 = .leaf ⟨0⟩ ⟨0, 1⟩ "a" ∧
        ∃ origin ∈ before.statement.walk before.derivation, origin.1.id = kept.1.id ∧ Displaced origin kept) ∧
      ∃ made ∈ tree.statement.walk tree.derivation, made.1 = .leaf ⟨5⟩ ⟨2, 1⟩ "d" ∧
        (∀ origin ∈ before.statement.walk before.derivation, origin.1.id ≠ made.1.id) ∧ 4 ≤ made.1.id.index := by
  obtain ⟨statistics, hparse⟩ := parse_abc
  obtain ⟨statistics', hrepair⟩ := repair_abd statistics
  have hissued : (Tree.abc statistics).Issued (.row .dot) ⟨4⟩ := .parse hparse
  have hkept : ((rowMatch 0 0 "a").statement, (rowMatch 0 0 "a").derivation) ∈
      (Tree.abd statistics').statement.walk (Tree.abd statistics').derivation :=
    Tree.mem_walk_row List.mem_cons_self
  have hmade : ((rowMatch 5 2 "d").statement, (rowMatch 5 2 "d").derivation) ∈
      (Tree.abd statistics').statement.walk (Tree.abd statistics').derivation :=
    Tree.mem_walk_row (List.mem_of_getLast? rfl)
  obtain ⟨hold, hnodes⟩ := displaced_of_repair hissued hrepair
  refine ⟨_, _, _, hissued, hrepair, ⟨_, hkept, rfl, (hnodes _ hkept).resolve_right ?_⟩,
    _, hmade, rfl, (hnodes _ hmade).resolve_left ?_⟩
  · rintro ⟨_, hnew⟩
    exact absurd hnew (by decide)
  · rintro ⟨origin, ho, hid, _⟩
    have hlt := hold origin ho
    rw [hid] at hlt
    exact absurd hlt (by decide)

end Graft
